import PathQuery.Proofs.Sql.Places
import PathQuery.Proofs.Template.Binding

/-!
Binding at a place. Where single quotes are closed, a name in braces is bound to the carried value
at the place that the name gives, and only if it gives none, to the value of the name in the
context. Where they are open, it stays as it is. Binding fails for nothing but the want of such a
value.
-/

namespace PathQuery.Template

open Steps Placeholder Sql

variable {d : Dialect} {carried : List Value} {context : Context} {t : Template} {c : Compiled}
  {before name after : String} {e : Error}

theorem bind_fill (h : t.bind d context = .ok c) :
    fill (bindToken d t.carried context) (pieces t.sql.toList) [] =
      .ok (c.sql.toList, c.parameters) := by
  unfold Template.bind at h
  split at h
  · next sql parameters hsub =>
    cases h
    exact substitute_ok_iff.mp hsub
  · cases h

theorem bindToken_ok_iff {new : String} {st st' : List Value} :
    bindToken d carried context name st = .ok (new, st') ↔
      ∃ v, valueOf? carried context name = some v ∧ new = (pushValue d v st).1 ∧
        st' = st ++ v.items := by
  unfold bindToken
  cases hv : valueOf? carried context name with
  | none => simp
  | some v =>
    have hstate := (pushValue_spec (d := d) v st).1
    simp only [Except.ok.injEq, Option.some.injEq, exists_eq_left', ← hstate, Prod.ext_iff]
    exact and_congr eq_comm eq_comm

theorem bindToken_grows {new : String} {st st' : List Value}
    (h : bindToken d carried context name st = .ok (new, st')) : st <+: st' := by
  obtain ⟨v, -, -, rfl⟩ := bindToken_ok_iff.mp h
  exact List.prefix_append st _

/-- A bound value does not start with a brace. -/
theorem pushValue_head (v : Value) (st : List Value) :
    ∃ c rest, (pushValue d v st).1.toList = c :: rest ∧ c ≠ '\x7b' := by
  have hmarker : ∃ c rest, (d.marker (st.length + 1)).toList = c :: rest ∧ c ≠ '\x7b' := by
    cases d <;> simp [Dialect.marker]
  cases v with
  | list items => cases items <;> simp [pushValue]
  | _ => exact hmarker

theorem bindToken_head {new : String} {st st' : List Value}
    (h : bindToken d carried context name st = .ok (new, st')) :
    ∃ c rest, new.toList = c :: rest ∧ c ≠ '\x7b' := by
  obtain ⟨v, -, rfl, -⟩ := bindToken_ok_iff.mp h
  exact pushValue_head v st

theorem valueOf?_free (h : Splice.index? name = none) :
    valueOf? carried context name = context.get? name := by
  rw [valueOf?, h]

/-- A name that gives no place behind the carried values has a value unless it gives none and the
context lacks it. -/
theorem Placed.hasValue_iff (h : Placed carried name) :
    (∃ v, valueOf? carried context name = some v) ↔
      (Splice.index? name = none → ∃ v, context.get? name = some v) := by
  cases hi : Splice.index? name with
  | none => simp [valueOf?_free hi]
  | some i =>
    have hinside := h i hi
    simp [valueOf?, hi, hinside]

/-! ### Places -/

/-- The value is bound behind the text `before`: its markers stand behind what is made of that text,
and its items behind the parameters of that text. -/
def BoundAt (d : Dialect) (carried : List Value) (context : Context) (before : String) (v : Value)
    (c : Compiled) : Prop :=
  ∃ sql parameters rest,
    substitute (bindToken d carried context) before [] = .ok (sql, parameters) ∧
    c.sql = sql ++ (pushValue d v parameters).1 ++ rest ∧ parameters ++ v.items <+: c.parameters

/-- The text behind `before` is left as it is. -/
def LeftAt (d : Dialect) (carried : List Value) (context : Context) (before text : String)
    (c : Compiled) : Prop :=
  ∃ sql parameters rest,
    substitute (bindToken d carried context) before [] = .ok (sql, parameters) ∧
    c.sql = sql ++ text ++ rest

/-- Where quotes are closed, a name in braces is bound to its value. -/
theorem bind_at_closed (hname : IsWord name) (hsql : t.sql = before ++ token name ++ after)
    (hquotes : quotedAfter false before.toList = false) (h : t.bind d context = .ok c) :
    ∃ v, valueOf? t.carried context name = some v ∧ BoundAt d t.carried context before v c := by
  have hfill := bind_fill h
  rw [hsql, String.append_assoc, String.toList_append, String.toList_append,
    pieces_at_closed hname hquotes, fill_append] at hfill
  obtain ⟨first, mid, last, hfirst, hrest, hout⟩ := hfill
  obtain ⟨new, _, rest, hnew, hrest, rfl⟩ := fill_token.mp hrest
  rw [String.ofList_toList] at hnew
  obtain ⟨v, hv, rfl, rfl⟩ := bindToken_ok_iff.mp hnew
  refine ⟨v, hv, .ofList first, mid, .ofList rest, ?_, ?_, fill_prefix bindToken_grows hrest⟩
  · rw [substitute_ok_iff, String.toList_ofList]
    exact hfirst
  · simp [← String.toList_inj, hout]

/-- Where quotes are open, it is bound to nothing. -/
theorem bind_at_open (hname : IsWord name) (hsql : t.sql = before ++ token name ++ after)
    (hquotes : quotedAfter false before.toList = true) (h : t.bind d context = .ok c) :
    LeftAt d t.carried context before (token name) c := by
  have hfill := bind_fill h
  rw [hsql, String.append_assoc, String.toList_append, String.toList_append,
    pieces_at_open hname hquotes, fill_append] at hfill
  obtain ⟨first, mid, last, hfirst, hrest, hout⟩ := hfill
  obtain ⟨rest, -, rfl⟩ := fill_chars.mp hrest
  refine ⟨.ofList first, mid, .ofList rest, ?_, by simp [← String.toList_inj, hout]⟩
  rw [substitute_ok_iff, String.toList_ofList]
  exact hfirst

/-! ### Missing values -/

theorem bind_error (h : t.bind d context = .error e) :
    ∃ name ∈ tokenNames t.sql, e = .missingParameter name ∧
      valueOf? t.carried context name = none := by
  have hfill : fill (bindToken d t.carried context) (pieces t.sql.toList) [] = .error e := by
    unfold Template.bind at h
    split at h
    · cases h
    · next hsub =>
      cases h
      rcases bind_error_iff.mp hsub with hfill | ⟨_, _, -, hnone⟩
      · exact hfill
      · cases hnone
  obtain ⟨name, hname, st, hfails⟩ := fill_error hfill
  refine ⟨name, hname, ?_⟩
  unfold bindToken at hfails
  split at hfails
  · cases hfails
  · next hnone =>
    cases hfails
    exact ⟨rfl, hnone⟩

/-- A template is bound if every name in its text has a value. -/
theorem bind_ok_iff_values : (∃ c, t.bind d context = .ok c) ↔
    ∀ name ∈ tokenNames t.sql, ∃ v, valueOf? t.carried context name = some v := by
  constructor
  · rintro ⟨c, hc⟩ name hname
    obtain ⟨_, _, _, hnew⟩ := fill_ok_token (bind_fill hc) name hname
    obtain ⟨v, hv, -⟩ := bindToken_ok_iff.mp hnew
    exact ⟨v, hv⟩
  · intro hvalues
    cases hbind : t.bind d context with
    | ok c => exact ⟨c, rfl⟩
    | error e =>
      obtain ⟨name, hname, -, hnone⟩ := bind_error hbind
      obtain ⟨v, hv⟩ := hvalues name hname
      rw [hnone] at hv
      cases hv

end PathQuery.Template
