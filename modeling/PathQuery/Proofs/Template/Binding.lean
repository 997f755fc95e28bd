import PathQuery.Proofs.Expr.Failure
import PathQuery.Proofs.Sql.Composed

/-!
Moving and binding composed text. A move renames the placeholders so that each stands for the same
value behind the values that were there before; binding puts as many markers in the place of a
placeholder as its value has items, and numbers them from left to right.
-/

namespace PathQuery

open Placeholder

/-! ### Names of places -/

theorem isWordChar_of_isNameRest {c : Char} (h : Expr.isNameRest c) : Text.isWordChar c := by
  rw [Text.isWordChar, if_pos (Expr.toNat_of_isNameRest h)]
  exact h

namespace Splice

/-- The name of the carried value at a place. -/
def placeName (i : Nat) : String :=
  .ofList (lead ++ Text.digits i)

theorem isWord_placeName (i : Nat) : Sql.IsWord (placeName i) := by
  rw [Sql.IsWord, placeName, String.toList_ofList]
  refine ⟨by simp [lead], ?_⟩
  intro c hc
  apply isWordChar_of_isNameRest
  rcases List.mem_append.mp hc with hc | hc
  · have hlead : lead.all Expr.isNameRest := by decide
    exact List.all_eq_true.mp hlead c hc
  · have hdigit := Nat.isDigit_of_mem_toDigits (by decide) (by decide) hc
    simp [Expr.isNameRest, Char.isAlphanum, hdigit]

theorem toNat?_digits (i : Nat) : Text.toNat? (Text.digits i) = some i := by
  have hdigits : (Text.digits i).all Char.isDigit := by
    rw [List.all_eq_true]
    intro c hc
    exact Nat.isDigit_of_mem_toDigits (by decide) (by decide) hc
  have hne : (Text.digits i).isEmpty = false := by
    rw [List.isEmpty_eq_false_iff]
    exact Nat.toDigits_ne_nil
  have hvalue : Text.digitsValue (Text.digits i) = i := by
    have hsame : Text.digitsValue (Text.digits i) = Nat.ofDigitChars 10 (Nat.toDigits 10 i) 0 := by
      simp only [Text.digitsValue, Text.digits, Nat.ofDigitChars, Nat.mul_comm]
    rw [hsame, Nat.ofDigitChars_toDigits (by decide) (by decide)]
  simp [Text.toNat?, hdigits, hne, hvalue]

theorem dropLead?_append (lead cs : List Char) : Text.dropLead? lead (lead ++ cs) = some cs := by
  induction lead with
  | nil => rfl
  | cons c lead ih => simp [Text.dropLead?, ih]

theorem dropLead?_eq_some {lead cs rest : List Char} (h : Text.dropLead? lead cs = some rest) :
    lead <+: cs := by
  induction lead generalizing cs with
  | nil => exact List.nil_prefix
  | cons c lead ih =>
    cases cs with
    | nil => cases h
    | cons d cs =>
      rw [Text.dropLead?] at h
      split at h
      · next hc =>
        rw [beq_iff_eq.mp hc]
        exact List.cons_prefix_cons.mpr ⟨rfl, ih h⟩
      · cases h

/-- A name that starts otherwise gives no place. -/
theorem index?_eq_none {name : String} (h : ¬ lead <+: name.toList) : index? name = none := by
  unfold index?
  split
  · next hdrop => exact absurd (dropLead?_eq_some hdrop) h
  · rfl

theorem index?_placeName {i : Nat} (h : i < placeLimit) : index? (placeName i) = some i := by
  simp [index?, placeName, dropLead?_append, toNat?_digits, h]

/-- Renaming the placeholders of a text that is moved behind `offset` values. -/
inductive Moves (offset : Nat) (own : Option Context) :
    List String → List Value → List String → List Value → Prop
  | nil (st : List Value) : Moves offset own [] st [] st
  | placed {name : String} {i : Nat} {names moved : List String} {st st' : List Value}
      (hi : index? name = some i) (h : Moves offset own names st moved st') :
      Moves offset own (name :: names) st (placeName ((offset + i) % placeLimit) :: moved) st'
  | resolved {name : String} {context : Context} {v : Value} {names moved : List String}
      {st st' : List Value} (hi : index? name = none) (hown : own = some context)
      (hv : context.get? name = some v) (h : Moves offset own names (st ++ [v]) moved st') :
      Moves offset own (name :: names) st (placeName st.length :: moved) st'
  | kept {name : String} {names moved : List String} {st st' : List Value}
      (hi : index? name = none) (hown : own = none) (h : Moves offset own names st moved st') :
      Moves offset own (name :: names) st (name :: moved) st'

variable {offset : Nat} {own : Option Context} {st st' : List Value} {names : List String}

/-- A token is moved to a token, and the others move on. -/
theorem moves_cons {name new : String} {mid : List Value}
    (hnew : moveToken offset own name st = .ok (new, mid)) (hname : Sql.IsWord name) :
    ∃ m, Sql.IsWord m ∧ new = Placeholder.token m ∧
      ∀ {names moved : List String}, Moves offset own names mid moved st' →
        Moves offset own (name :: names) st (m :: moved) st' := by
  unfold moveToken at hnew
  split at hnew
  · next i hi =>
    cases hnew
    exact ⟨_, isWord_placeName _, rfl, fun h => .placed hi h⟩
  · next context hi =>
    split at hnew
    · next v hv =>
      cases hnew
      exact ⟨_, isWord_placeName _, rfl, fun h => .resolved hi rfl hv h⟩
    · cases hnew
  · next hi =>
    cases hnew
    exact ⟨name, hname, rfl, fun h => .kept hi rfl h⟩

/-- Moved text is composed as the text is, with the placeholders renamed. -/
theorem composed_move {cs out : List Char} (h : Sql.Composed cs names)
    (hfill : fill (moveToken offset own) (piecesFrom false 0 cs) st = .ok (out, st')) :
    ∃ moved, Sql.Composed out moved ∧ out.head? = cs.head? ∧
      Moves offset own names st moved st' := by
  induction h generalizing st out with
  | nil =>
    obtain ⟨rfl, rfl⟩ := fill_nil.mp hfill
    exact ⟨[], .nil, rfl, .nil _⟩
  | text hu _ ih =>
    rw [hu.pieces, fill_chars] at hfill
    obtain ⟨rest, hrest, rfl⟩ := hfill
    obtain ⟨moved, hcomposed, hhead, hmoves⟩ := ih hrest
    exact ⟨moved, .text hu hcomposed, by rw [List.head?_append, List.head?_append, hhead], hmoves⟩
  | @token name cs names hname hnext h ih =>
    rw [Sql.piecesFrom_token hname, fill_token, String.ofList_toList] at hfill
    obtain ⟨new, mid, rest, hnew, hrest, rfl⟩ := hfill
    obtain ⟨moved, hcomposed, hhead, hmoves⟩ := ih hrest
    obtain ⟨m, hm, rfl, hcons⟩ := moves_cons hnew hname
    refine ⟨m :: moved, .token hm (by rw [hhead]; exact hnext) hcomposed, ?_, hcons hmoves⟩
    simp [Placeholder.token]

end Splice

/-! ### Values of names -/

/-- What a value adds to the parameters: the items of a list, or itself. -/
def Value.items : Value → List Value
  | .list items => items
  | v => [v]

namespace Template

variable {carried : List Value} {context : Context} {names more : List String} {vs : List Value}

/-- The parameters for names, in their order. -/
def resolve (carried : List Value) (context : Context) : List String → Option (List Value)
  | [] => some []
  | name :: rest => do
    let v ← valueOf? carried context name
    let vs ← resolve carried context rest
    return v.items ++ vs

theorem resolve_cons {name : String} :
    resolve carried context (name :: names) = some vs ↔
      ∃ v rest, valueOf? carried context name = some v ∧
        resolve carried context names = some rest ∧ vs = v.items ++ rest := by
  simp only [resolve, Option.bind_eq_bind, Option.bind_eq_some_iff, Option.pure_def,
    Option.some.injEq]
  constructor
  · rintro ⟨v, hv, rest, hrest, rfl⟩
    exact ⟨v, rest, hv, hrest, rfl⟩
  · rintro ⟨v, rest, hv, hrest, rfl⟩
    exact ⟨v, hv, rest, hrest, rfl⟩

theorem resolve_append :
    resolve carried context (names ++ more) = some vs ↔
      ∃ first last, resolve carried context names = some first ∧
        resolve carried context more = some last ∧ vs = first ++ last := by
  induction names generalizing vs with
  | nil => simp [resolve]
  | cons name names ih =>
    simp only [List.cons_append, resolve_cons, ih]
    constructor
    · rintro ⟨v, _, hv, ⟨first, last, hfirst, hlast, rfl⟩, rfl⟩
      exact ⟨_, last, ⟨v, first, hv, hfirst, rfl⟩, hlast, by rw [List.append_assoc]⟩
    · rintro ⟨_, last, ⟨v, first, hv, hfirst, rfl⟩, hlast, rfl⟩
      exact ⟨v, _, hv, ⟨first, last, hfirst, hlast, rfl⟩, by rw [List.append_assoc]⟩

theorem resolve_flatten {names : List (List String)} :
    resolve carried context names.flatten = some vs ↔
      ∃ vss, List.Forall₂ (fun ns vs => resolve carried context ns = some vs) names vss ∧
        vs = vss.flatten := by
  induction names generalizing vs with
  | nil => simp [resolve, eq_comm]
  | cons ns names ih =>
    simp only [List.flatten_cons, resolve_append, ih, List.forall₂_cons_left_iff]
    constructor
    · rintro ⟨first, _, hfirst, ⟨vss, hvss, rfl⟩, rfl⟩
      exact ⟨first :: vss, ⟨first, vss, hfirst, hvss, rfl⟩, rfl⟩
    · rintro ⟨_, ⟨first, vss, hfirst, hvss, rfl⟩, rfl⟩
      exact ⟨first, vss.flatten, hfirst, ⟨vss, hvss, rfl⟩, rfl⟩

/-- A name that gives no place behind the carried values. -/
def Placed (carried : List Value) (name : String) : Prop :=
  ∀ i, Splice.index? name = some i → i < carried.length

theorem Placed.mono {name : String} {after : List Value} (h : Placed carried name)
    (hafter : carried <+: after) : Placed after name :=
  fun i hi => Nat.lt_of_lt_of_le (h i hi) hafter.length_le

end Template

namespace Splice

open Template

variable {offset i : Nat} {own : Option Context} {names moved : List String}
  {before carried st st' after : List Value} {context : Context}

theorem placed_placeName (h : i < st.length) (hlimit : st.length ≤ placeLimit) :
    Placed st (placeName i) := by
  intro j hj
  rw [index?_placeName (by omega), Option.some.injEq] at hj
  omega

theorem valueOf?_placeName (h : i < st.length) (hlimit : st.length ≤ placeLimit)
    (hafter : st <+: after) : valueOf? after context (placeName i) = st[i]? := by
  obtain ⟨more, rfl⟩ := hafter
  rw [valueOf?, index?_placeName (by omega)]
  exact List.getElem?_append_left h

/-- Moved names stand for what the names stood for, free ones in the context of the text if it has
one of its own. -/
theorem Moves.resolve (h : Moves offset own names st moved st')
    (hnames : ∀ name ∈ names, Placed carried name) (hoffset : offset = before.length)
    (hst : before ++ carried <+: st) (hlimit : st'.length ≤ placeLimit) :
    st <+: st' ∧ (∀ name ∈ moved, Placed st' name) ∧
      ∀ after, st' <+: after → ∀ context,
        Template.resolve after context moved =
          Template.resolve carried (own.getD context) names := by
  induction h with
  | nil st => exact ⟨List.prefix_refl st, by simp, fun _ _ _ => rfl⟩
  | @placed name i names moved st st' hi h ih =>
    rw [List.forall_mem_cons] at hnames
    obtain ⟨hkeep, hplaced, hresolve⟩ := ih hnames.2 hst hlimit
    have hcarried : i < carried.length := hnames.1 i hi
    have hlength := (hst.trans hkeep).length_le
    rw [List.length_append] at hlength
    have hplace : (offset + i) % placeLimit = offset + i := Nat.mod_eq_of_lt (by omega)
    have hinside : offset + i < st'.length := by omega
    rw [hplace]
    refine ⟨hkeep, List.forall_mem_cons.mpr ⟨placed_placeName hinside hlimit, hplaced⟩, ?_⟩
    intro after hafter context
    have hvalue : st'[offset + i]? = valueOf? carried (own.getD context) name := by
      obtain ⟨more, rfl⟩ := hst.trans hkeep
      rw [valueOf?, hi, hoffset, List.append_assoc, List.getElem?_append_right (by omega),
        Nat.add_sub_cancel_left]
      exact List.getElem?_append_left hcarried
    rw [Template.resolve, Template.resolve, valueOf?_placeName hinside hlimit hafter, hvalue,
      hresolve after hafter context]
  | @resolved name own' v names moved st st' hi hown hv h ih =>
    rw [List.forall_mem_cons] at hnames
    obtain ⟨hkeep, hplaced, hresolve⟩ :=
      ih hnames.2 (hst.trans (List.prefix_append st [v])) hlimit
    have hlength := hkeep.length_le
    rw [List.length_append, List.length_singleton] at hlength
    have hinside : st.length < st'.length := by omega
    refine ⟨(List.prefix_append st [v]).trans hkeep,
      List.forall_mem_cons.mpr ⟨placed_placeName hinside hlimit, hplaced⟩, ?_⟩
    intro after hafter context
    have hvalue : st'[st.length]? = some v := by
      obtain ⟨more, rfl⟩ := hkeep
      simp
    have hfree : valueOf? carried (own.getD context) name = some v := by
      rw [valueOf?, hi, hown]
      exact hv
    rw [Template.resolve, Template.resolve, valueOf?_placeName hinside hlimit hafter, hvalue,
      hfree, hresolve after hafter context]
  | @kept name names moved st st' hi hown h ih =>
    rw [List.forall_mem_cons] at hnames
    obtain ⟨hkeep, hplaced, hresolve⟩ := ih hnames.2 hst hlimit
    have hfree : Placed st' name := by
      intro i hi'
      rw [hi] at hi'
      cases hi'
    refine ⟨hkeep, List.forall_mem_cons.mpr ⟨hfree, hplaced⟩, ?_⟩
    intro after hafter context
    have hvalue : valueOf? after context name = valueOf? carried (own.getD context) name := by
      rw [valueOf?, valueOf?, hi, hown]
      rfl
    rw [Template.resolve, Template.resolve, hvalue, hresolve after hafter context]

theorem moveToken_grows {name new : String} (h : moveToken offset own name st = .ok (new, st')) :
    st <+: st' := by
  unfold moveToken at h
  split at h
  · cases h
    exact List.prefix_refl st
  · split at h
    · cases h
      exact List.prefix_append st _
    · cases h
  · cases h
    exact List.prefix_refl st

/-- Behind a moved text, the values that were there and those that it carries are as they were. -/
theorem move_grows {sql out : String} (h : move sql carried own before = .ok (out, after)) :
    before ++ carried <+: after :=
  fill_prefix moveToken_grows (move_ok_iff.mp h)

/-- What a moved text is, and what its placeholders stand for. -/
theorem move_composed {sql out : String} (hsql : Sql.Composed sql.toList names)
    (hnames : ∀ name ∈ names, Placed carried name)
    (h : move sql carried own before = .ok (out, after)) (hlimit : after.length ≤ placeLimit) :
    ∃ moved, Sql.Composed out.toList moved ∧ (∀ name ∈ moved, Placed after name) ∧
      ∀ more, after <+: more → ∀ context,
        Template.resolve more context moved =
          Template.resolve carried (own.getD context) names := by
  obtain ⟨moved, hcomposed, -, hmoves⟩ := composed_move hsql (move_ok_iff.mp h)
  obtain ⟨-, hplaced, hresolve⟩ := hmoves.resolve hnames rfl (List.prefix_refl _) hlimit
  exact ⟨moved, hcomposed, hplaced, hresolve⟩

end Splice

namespace Template

variable {d : Dialect} {carried st st' : List Value} {context : Context} {names : List String}

/-! ### Markers -/

/-- The markers of `n` parameters that come after `count` others. -/
def numbered (d : Dialect) (count n : Nat) : List (List Char) :=
  (List.range' (count + 1) n).map fun k => (d.marker k).toList

theorem numbered_succ (count n : Nat) :
    numbered d count (n + 1) = (d.marker (count + 1)).toList :: numbered d (count + 1) n := by
  rw [numbered, List.range'_succ, List.map_cons]
  rfl

theorem numbered_add (count m n : Nat) :
    numbered d count (m + n) = numbered d count m ++ numbered d (count + m) n := by
  have hrange : List.range' (count + 1) (m + n) =
      List.range' (count + 1) m ++ List.range' (count + m + 1) n := by
    rw [← List.range'_append_1, Nat.add_right_comm]
  rw [numbered, hrange, List.map_append]
  rfl

/-- A marker is read where it stands, unless a digit follows it. -/
theorem markersFrom_marker (k : Nat) {rest : List Char}
    (hrest : ∀ c ∈ rest.head?, c.isDigit = false) :
    Sql.markersFrom none ((d.marker k).toList ++ rest) =
      (d.marker k).toList :: Sql.markersFrom none rest := by
  have hdigit : ∀ c ∈ Text.digits k, c.isDigit :=
    fun c hc => Nat.isDigit_of_mem_toDigits (by decide) (by decide) hc
  have hnone : rest.takeWhile Char.isDigit = [] := by
    cases rest with
    | nil => rfl
    | cons c rest => exact List.takeWhile_cons_of_neg (by simp [hrest c rfl])
  have htake : (Text.digits k ++ rest).takeWhile Char.isDigit = Text.digits k := by
    rw [List.takeWhile_append_of_pos hdigit, hnone, List.append_nil]
  have hstill : Sql.Still (Text.digits k) := by
    have hnumber := Sql.still_ofNat k
    rwa [Text.ofNat, String.toList_ofList] at hnumber
  have hnumber (mark : Char) (hmark : mark = '$' ∨ mark = '?') :
      Sql.markersFrom none (mark :: (Text.digits k ++ rest)) =
        (mark :: Text.digits k) :: Sql.markersFrom none rest := by
    rw [Sql.markersFrom, htake, hstill.markers]
    rcases hmark with rfl | rfl <;> rfl
  cases d with
  | postgres => simpa [Dialect.marker, Text.ofNat] using hnumber '$' (.inl rfl)
  | sqlite => simpa [Dialect.marker, Text.ofNat] using hnumber '?' (.inr rfl)
  | generic => simp [Dialect.marker, Sql.markersFrom, hnone]

theorem markersFrom_markers (count : Nat) (items : List Value) {rest : List Char}
    (hrest : ∀ c ∈ rest.head?, c.isDigit = false) :
    Sql.markersFrom none ((Text.join ", " (markers d count items)).toList ++ rest) =
      numbered d count items.length ++ Sql.markersFrom none rest := by
  induction items generalizing count with
  | nil => rfl
  | cons v items ih =>
    cases items with
    | nil =>
      rw [markers, markers, Text.join, markersFrom_marker _ hrest]
      rfl
    | cons w items =>
      have hcomma : Sql.Still [',', ' '] := Sql.still_plain (by decide)
      have hsplit : (Text.join ", " (markers d count (v :: w :: items))).toList ++ rest =
          (d.marker (count + 1)).toList ++ ([',', ' '] ++
            ((Text.join ", " (markers d (count + 1) (w :: items))).toList ++ rest)) := by
        simp [markers, Text.join]
      rw [hsplit, markersFrom_marker _ (by simp), hcomma.markers, ih, List.length_cons,
        numbered_succ]
      rfl

/-- The text for a value has the markers of its items. -/
theorem pushValue_spec (v : Value) (st : List Value) :
    (pushValue d v st).2 = st ++ v.items ∧
      (∀ c ∈ (pushValue d v st).1.toList.head?, c.isDigit = false) ∧
      ∀ rest : List Char, (∀ c ∈ rest.head?, c.isDigit = false) →
        Sql.markersFrom none ((pushValue d v st).1.toList ++ rest) =
          numbered d st.length v.items.length ++ Sql.markersFrom none rest := by
  have hsingle (rest : List Char) (hrest : ∀ c ∈ rest.head?, c.isDigit = false) :
      Sql.markersFrom none ((d.marker (st.length + 1)).toList ++ rest) =
        numbered d st.length 1 ++ Sql.markersFrom none rest :=
    markersFrom_marker _ hrest
  have hhead : ∀ c ∈ (d.marker (st.length + 1)).toList.head?, c.isDigit = false := by
    cases d <;> simp [Dialect.marker]
  cases v with
  | list items =>
    cases items with
    | nil =>
      have hnull : Sql.Still "(NULL)".toList := Sql.still_plain (by decide)
      refine ⟨by simp [pushValue, Value.items], by simp [pushValue], fun rest _ => ?_⟩
      rw [pushValue, hnull.markers]
      rfl
    | cons v items =>
      have hopen : Sql.Still ['('] := Sql.still_plain (by decide)
      have hclose : Sql.Still [')'] := Sql.still_plain (by decide)
      refine ⟨rfl, by simp [pushValue], fun rest _ => ?_⟩
      have hsplit : (pushValue d (.list (v :: items)) st).1.toList ++ rest =
          ['('] ++ ((Text.join ", " (markers d st.length (v :: items))).toList ++
            ([')'] ++ rest)) := by
        simp [pushValue]
      rw [hsplit, hopen.markers, markersFrom_markers _ _ (by simp), hclose.markers]
      rfl
  | _ => exact ⟨rfl, hhead, hsingle⟩

/-- Bound text has a marker for each parameter that is added, in the order of the names. -/
theorem composed_bind {cs out : List Char} (h : Sql.Composed cs names)
    (hfill : fill (bindToken d carried context) (piecesFrom false 0 cs) st = .ok (out, st')) :
    ∃ vs, resolve carried context names = some vs ∧ st' = st ++ vs ∧
      ((∀ c ∈ cs.head?, c.isDigit = false) → ∀ c ∈ out.head?, c.isDigit = false) ∧
      Sql.markersFrom none out = numbered d st.length vs.length := by
  induction h generalizing st out with
  | nil =>
    obtain ⟨rfl, rfl⟩ := fill_nil.mp hfill
    exact ⟨[], rfl, by simp, id, rfl⟩
  | @text u cs names hu _ ih =>
    rw [hu.pieces, fill_chars] at hfill
    obtain ⟨rest, hrest, rfl⟩ := hfill
    obtain ⟨vs, hvs, rfl, hhead, hmarkers⟩ := ih hrest
    refine ⟨vs, hvs, rfl, ?_, by rw [hu.markers, hmarkers]⟩
    cases u with
    | nil => exact hhead
    | cons c u => exact id
  | @token name cs names hname hnext h ih =>
    rw [Sql.piecesFrom_token hname, fill_token, String.ofList_toList] at hfill
    obtain ⟨new, mid, rest, hnew, hrest, rfl⟩ := hfill
    obtain ⟨vs, hvs, rfl, hhead, hmarkers⟩ := ih hrest
    unfold bindToken at hnew
    split at hnew
    · next v hv =>
      rw [Except.ok.injEq] at hnew
      obtain ⟨hmid, hstart, hread⟩ := pushValue_spec (d := d) v st
      rw [hnew] at hmid hstart hread
      dsimp only at hmid hstart hread
      refine ⟨v.items ++ vs, ?_, ?_, ?_, ?_⟩
      · rw [resolve_cons]
        exact ⟨v, vs, hv, hvs, rfl⟩
      · rw [hmid, List.append_assoc]
      · intro _ c hc
        rw [List.head?_append] at hc
        cases hfirst : new.toList.head? with
        | none =>
          rw [hfirst] at hc
          exact hhead hnext c hc
        | some x =>
          rw [hfirst] at hstart hc
          exact hstart c hc
      · rw [hread rest (hhead hnext), hmarkers, hmid, List.length_append, List.length_append,
          numbered_add]
    · cases hnew

/-- Binding composed text: the parameters are those of its names, and the markers number them. -/
theorem bind_composed {t : Template} {c : Compiled} (hsql : Sql.Composed t.sql.toList names)
    (h : t.bind d context = .ok c) :
    resolve t.carried context names = some c.parameters ∧
      Sql.bindMarkers c.sql = (List.range' 1 c.parameters.length).map d.marker := by
  unfold Template.bind at h
  split at h
  · next sql parameters hsub =>
    cases h
    obtain ⟨vs, hvs, rfl, -, hmarkers⟩ := composed_bind hsql (substitute_ok_iff.mp hsub)
    refine ⟨hvs, ?_⟩
    rw [Sql.bindMarkers, hmarkers]
    simp [numbered, Function.comp_def]
  · cases h

end Template

end PathQuery
