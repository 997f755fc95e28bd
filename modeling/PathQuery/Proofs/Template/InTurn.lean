import PathQuery.Proofs.Template.Places

/-!
Texts that are bound one after the other. Each is bound behind the quotes that are open and the
parameters that are there when its turn comes. Where markers are numbered, a text that is bound
twice comes out the same only if it adds no parameter.
-/

namespace PathQuery.Template

open Placeholder Sql

variable {d : Dialect} {carried : List Value} {context : Context}

/-! ### Later parameters -/

theorem length_digits_mono {m n : Nat} (h : m ≤ n) :
    (Text.digits m).length ≤ (Text.digits n).length := by
  have hn := (Nat.length_toDigits_le_iff (b := 10) (by decide) Nat.length_toDigits_pos).mp
    (Nat.le_refl (Text.digits n).length)
  exact (Nat.length_toDigits_le_iff (by decide) Nat.length_toDigits_pos).mpr
    (Nat.lt_of_le_of_lt h hn)

theorem length_marker_mono {m n : Nat} (h : m ≤ n) :
    (d.marker m).toList.length ≤ (d.marker n).toList.length := by
  cases d <;> simp [Dialect.marker, Text.ofNat, length_digits_mono h]

theorem marker_inj (hd : d ≠ .generic) {m n : Nat} (h : d.marker m = d.marker n) : m = n := by
  have hdigits : Text.digits m = Text.digits n := by
    cases d with
    | generic => exact absurd rfl hd
    | _ => simpa [Dialect.marker, Text.ofNat, ← String.toList_inj] using h
  have hvalue := congrArg Text.toNat? hdigits
  rwa [Splice.toNat?_digits, Splice.toNat?_digits, Option.some.injEq] at hvalue

/-- The markers tell how many parameters there are and how many come before them. -/
theorem numbered_inj (hd : d ≠ .generic) {count count' n n' : Nat}
    (h : numbered d count n = numbered d count' n') : n = n' ∧ (n = 0 ∨ count = count') := by
  have hlength : n = n' := by
    have := congrArg List.length h
    simpa [numbered] using this
  refine ⟨hlength, ?_⟩
  subst hlength
  cases n with
  | zero => exact .inl rfl
  | succ n =>
    rw [numbered_succ, numbered_succ, List.cons.injEq, String.toList_inj] at h
    exact .inr (Nat.succ_inj.mp (marker_inj hd h.1))

theorem length_markers_mono {count count' : Nat} (h : count ≤ count') (items : List Value) :
    (Text.join ", " (markers d count items)).toList.length ≤
      (Text.join ", " (markers d count' items)).toList.length := by
  induction items generalizing count count' with
  | nil => exact Nat.le_refl _
  | cons v items ih =>
    have hfirst := length_marker_mono (d := d) (Nat.add_le_add_right h 1)
    cases items with
    | nil => simpa [markers, Text.join] using hfirst
    | cons w items =>
      have hrest := ih (Nat.add_le_add_right h 1)
      simp only [markers, Text.join, String.toList_append, List.length_append] at hrest hfirst ⊢
      omega

theorem length_pushValue_mono (v : Value) {st st' : List Value} (h : st.length ≤ st'.length) :
    (pushValue d v st).1.toList.length ≤ (pushValue d v st').1.toList.length := by
  have hsingle := length_marker_mono (d := d) (Nat.succ_le_succ h)
  cases v with
  | list items =>
    cases items with
    | nil => exact Nat.le_refl _
    | cons v items =>
      have hitems := length_markers_mono (d := d) h (v :: items)
      simp only [pushValue, String.toList_append, List.length_append]
      omega
  | _ => exact hsingle

/-- A value is written the same way if it has no items, or as many parameters come before it. -/
theorem pushValue_eq_iff (hd : d ≠ .generic) (v : Value) (st st' : List Value) :
    (pushValue d v st).1 = (pushValue d v st').1 ↔ v.items = [] ∨ st.length = st'.length := by
  constructor
  · intro h
    have hread := (pushValue_spec (d := d) v st).2.2 [] (by simp)
    have hread' := (pushValue_spec (d := d) v st').2.2 [] (by simp)
    rw [h, hread', List.append_cancel_right_eq] at hread
    obtain ⟨-, hnone | hcount⟩ := numbered_inj hd hread
    · exact .inl (List.length_eq_zero_iff.mp hnone)
    · exact .inr hcount.symm
  · rintro (hnone | hlength)
    · cases v with
      | list items =>
        cases items with
        | nil => rfl
        | cons => cases hnone
      | _ => cases hnone
    · cases v with
      | list items =>
        cases items with
        | nil => rfl
        | cons => simp only [pushValue, hlength]
      | _ => simp only [pushValue, hlength]

/-- The same pieces add the same parameters behind more of them. The text is no shorter, and it is
the same only if nothing is added or nothing came before. -/
theorem fill_later (hd : d ≠ .generic) {ps : List Piece} {st st' after after' : List Value}
    {out out' : List Char} (hle : st.length ≤ st'.length)
    (h : fill (bindToken d carried context) ps st = .ok (out, after))
    (h' : fill (bindToken d carried context) ps st' = .ok (out', after')) :
    ∃ vs, after = st ++ vs ∧ after' = st' ++ vs ∧ out.length ≤ out'.length ∧
      (out = out' ↔ vs = [] ∨ st.length = st'.length) := by
  induction ps generalizing st st' out out' with
  | nil =>
    obtain ⟨rfl, rfl⟩ := fill_nil.mp h
    obtain ⟨rfl, rfl⟩ := fill_nil.mp h'
    exact ⟨[], by simp, by simp, Nat.le_refl _, by simp⟩
  | cons p ps ih =>
    cases p with
    | char c =>
      obtain ⟨rest, hrest, rfl⟩ := fill_char.mp h
      obtain ⟨rest', hrest', rfl⟩ := fill_char.mp h'
      obtain ⟨vs, hvs, hvs', hlength, hsame⟩ := ih hle hrest hrest'
      exact ⟨vs, hvs, hvs', Nat.succ_le_succ hlength, by rw [List.cons.injEq, hsame]; simp⟩
    | token name =>
      obtain ⟨_, _, rest, hnew, hrest, rfl⟩ := fill_token.mp h
      obtain ⟨_, _, rest', hnew', hrest', rfl⟩ := fill_token.mp h'
      obtain ⟨v, hv, rfl, rfl⟩ := bindToken_ok_iff.mp hnew
      obtain ⟨v', hv', rfl, rfl⟩ := bindToken_ok_iff.mp hnew'
      rw [hv, Option.some.injEq] at hv'
      subst hv'
      have hle' : (st ++ v.items).length ≤ (st' ++ v.items).length := by simpa using hle
      obtain ⟨vs, rfl, rfl, hlength, hsame⟩ := ih hle' hrest hrest'
      have hfirst := length_pushValue_mono (d := d) v hle
      have hvalue := pushValue_eq_iff hd v st st'
      simp only [List.length_append, Nat.add_right_cancel_iff] at hsame
      refine ⟨v.items ++ vs, by simp, by simp, ?_, ?_⟩
      · simp only [List.length_append]
        omega
      · constructor
        · intro heq
          -- both halves are no longer than their counterparts, so they are cut at the same place
          have hsum := congrArg List.length heq
          simp only [List.length_append] at hsum
          obtain ⟨hnew, hrests⟩ := List.append_inj heq (by omega)
          rw [String.toList_inj, hvalue] at hnew
          rw [hsame] at hrests
          rcases hnew with hnone | hcount
          · exact hrests.imp_left fun hvs => by rw [hnone, hvs, List.append_nil]
          · exact .inr hcount
        · rintro (hnone | hcount)
          · rw [List.append_eq_nil_iff] at hnone
            rw [hvalue.mpr (.inl hnone.1), hsame.mpr (.inl hnone.2)]
          · rw [hvalue.mpr (.inr hcount), hsame.mpr (.inr hcount)]

/-! ### Open quotes -/

/-- Without names in braces a text is its characters. -/
theorem piecesFrom_of_namesIn (quoted : Bool) {cs : List Char} (h : namesIn cs = []) :
    piecesFrom quoted 0 cs = cs.map .char := by
  induction cs generalizing quoted with
  | nil => rfl
  | cons c cs ih =>
    rw [namesIn] at h
    rw [piecesFrom]
    split at h
    · cases h
    · next hnone =>
      have hnone' : (if c == '\x7b' && !quoted then token? cs else none) = none := by
        split
        · next hc =>
          rw [Bool.and_eq_true] at hc
          rwa [if_pos hc.1] at hnone
        · rfl
      rw [hnone', ih _ h, ih _ h]
      split <;> rfl

/-- A template without names in braces is bound as it is. -/
theorem bind_of_namesIn {t : Template} (h : namesIn t.sql.toList = []) :
    t.bind d context = .ok ⟨t.sql, [], t.columns, t.relations⟩ := by
  have hsame : substitute (bindToken d t.carried context) t.sql [] = .ok (t.sql, []) := by
    rw [substitute_ok_iff, pieces, piecesFrom_of_namesIn false h]
    exact fill_plain.mpr ⟨rfl, rfl⟩
  rw [Template.bind, hsame]

/-- A text comes out differently inside quotes and outside, unless it has no name in braces. -/
theorem namesIn_of_fill {cs out : List Char} {quoted : Bool} {st st' after after' : List Value}
    (h : fill (bindToken d carried context) (piecesFrom quoted 0 cs) st = .ok (out, after))
    (h' : fill (bindToken d carried context) (piecesFrom (!quoted) 0 cs) st' = .ok (out, after')) :
    namesIn cs = [] := by
  -- before the first name both outputs are the text itself; there one starts with a brace
  have differ {name rest : List Char} {ps qs : List Piece} {st st' after after' : List Value}
      (h : fill (bindToken d carried context) (.token name :: ps) st = .ok (rest, after)) :
      fill (bindToken d carried context) (.char '\x7b' :: qs) st' ≠ .ok (rest, after') := by
    intro h'
    obtain ⟨new, _, _, hnew, -, rfl⟩ := fill_token.mp h
    obtain ⟨_, -, heq⟩ := fill_char.mp h'
    obtain ⟨c, more, hc, hne⟩ := bindToken_head hnew
    rw [hc] at heq
    exact hne (List.cons.inj heq).1
  induction cs generalizing quoted out st st' with
  | nil => rfl
  | cons c cs ih =>
    rw [piecesFrom] at h h'
    rw [namesIn]
    by_cases hquote : c = '\''
    · subst hquote
      simp only [beq_self_eq_true, if_true, fill_char] at h h'
      obtain ⟨rest, hrest, rfl⟩ := h
      obtain ⟨_, hrest', heq⟩ := h'
      obtain ⟨-, rfl⟩ := List.cons.inj heq
      exact ih hrest hrest'
    · simp only [beq_eq_false_iff_ne.mpr hquote, Bool.false_eq_true, if_false] at h h'
      cases hname : (if c == '\x7b' then token? cs else none) with
      | some name =>
        have hc : c = '\x7b' := by
          by_contra hc
          simp [hc] at hname
        subst hc
        rw [if_pos (by decide)] at hname
        cases quoted with
        | true =>
          simp only [Bool.not_true, Bool.and_false, Bool.not_false, Bool.and_true, beq_self_eq_true,
            if_true, Bool.false_eq_true, if_false, hname] at h h'
          exact absurd h (differ h')
        | false =>
          simp only [Bool.not_true, Bool.and_false, Bool.not_false, Bool.and_true, beq_self_eq_true,
            if_true, Bool.false_eq_true, if_false, hname] at h h'
          exact absurd h' (differ h)
      | none =>
        have hnone (quoted : Bool) :
            (if c == '\x7b' && !quoted then token? cs else none) = none := by
          cases quoted with
          | true => simp
          | false => simpa using hname
        simp only [hnone, fill_char] at h h'
        obtain ⟨rest, hrest, rfl⟩ := h
        obtain ⟨_, hrest', heq⟩ := h'
        obtain ⟨-, rfl⟩ := List.cons.inj heq
        exact ih hrest hrest'

/-! ### Bound texts -/

/-- A text of a template and what binding makes of it. -/
structure BoundText where
  text : String
  /-- Whether single quotes are open before it. -/
  quoted : Bool
  /-- The parameters before it. -/
  before : List Value
  sql : String
  /-- The parameters after it. -/
  after : List Value

def BoundText.Holds (d : Dialect) (carried : List Value) (context : Context) (b : BoundText) :
    Prop :=
  fill (bindToken d carried context) (piecesFrom b.quoted 0 b.text.toList) b.before =
    .ok (b.sql.toList, b.after)

theorem BoundText.Holds.grows {b : BoundText} (h : b.Holds d carried context) :
    b.before <+: b.after :=
  fill_prefix bindToken_grows h

/-- A text that is bound again later comes out the same if and only if it adds no parameter, and is
read in the same quotes or has no name in braces. -/
theorem BoundText.sql_eq_iff (hd : d ≠ .generic) {a b : BoundText}
    (ha : a.Holds d carried context) (hb : b.Holds d carried context) (htext : a.text = b.text)
    (hlater : a.after <+: b.before) :
    a.sql = b.sql ↔ b.after = b.before ∧
      (a.quoted = b.quoted ∨ namesIn b.text.toList = []) := by
  have hlength := hlater.length_le
  have hgrown := ha.grows.length_le
  rw [← String.toList_inj]
  unfold BoundText.Holds at ha hb
  rw [htext] at ha
  by_cases hquoted : a.quoted = b.quoted
  · rw [hquoted] at ha
    obtain ⟨vs, hvs, hvs', -, hsame⟩ := fill_later hd (by omega) ha hb
    rw [hsame, hvs']
    rw [hvs, List.length_append] at hlength
    constructor
    · rintro (rfl | hcount)
      · simp [hquoted]
      · have hnone : vs = [] := List.length_eq_zero_iff.mp (by omega)
        simp [hnone, hquoted]
    · rintro ⟨hnone, -⟩
      exact .inl (by simpa using hnone)
  · have hflip : a.quoted = !b.quoted := by
      rw [Bool.eq_not]
      exact hquoted
    rw [hflip] at ha
    constructor
    · intro hsame
      rw [hsame] at ha
      have hnames := namesIn_of_fill hb ha
      rw [piecesFrom_of_namesIn _ hnames, fill_plain] at hb
      exact ⟨hb.2, .inr hnames⟩
    · rintro ⟨-, hwrong | hnames⟩
      · exact absurd hwrong hquoted
      · rw [piecesFrom_of_namesIn _ hnames, fill_plain] at ha hb
        exact ha.1.trans hb.1.symm

/-- Texts that are bound one after the other, from the quotes and parameters before the first to
those after the last. -/
inductive InTurn (d : Dialect) (carried : List Value) (context : Context) :
    Bool → List Value → List BoundText → Bool → List Value → Prop
  | nil {quoted : Bool} {st : List Value} : InTurn d carried context quoted st [] quoted st
  | cons {text sql : String} {quoted quoted' : Bool} {st mid st' : List Value}
      {rest : List BoundText} (h : BoundText.Holds d carried context ⟨text, quoted, st, sql, mid⟩)
      (hrest : InTurn d carried context (quotedAfter quoted text.toList) mid rest quoted' st') :
      InTurn d carried context quoted st (⟨text, quoted, st, sql, mid⟩ :: rest) quoted' st'

namespace InTurn

variable {quoted mid quoted' : Bool} {st now st' : List Value} {bs cs : List BoundText}

theorem append (h : InTurn d carried context quoted st bs mid now)
    (h' : InTurn d carried context mid now cs quoted' st') :
    InTurn d carried context quoted st (bs ++ cs) quoted' st' := by
  induction h with
  | nil => exact h'
  | cons hb _ ih => exact .cons hb (ih h')

theorem holds (h : InTurn d carried context quoted st bs quoted' st') :
    ∀ b ∈ bs, b.Holds d carried context := by
  induction h with
  | nil => simp
  | cons hb _ ih => exact List.forall_mem_cons.mpr ⟨hb, ih⟩

theorem within (h : InTurn d carried context quoted st bs quoted' st') :
    st <+: st' ∧ ∀ b ∈ bs, st <+: b.before ∧ b.after <+: st' := by
  induction h with
  | nil => simp
  | @cons text sql quoted _ st mid _ _ hb _ ih =>
    have hgrows := hb.grows
    refine ⟨hgrows.trans ih.1, List.forall_mem_cons.mpr ⟨⟨List.prefix_refl _, ih.1⟩, ?_⟩⟩
    exact fun b hmem => ⟨hgrows.trans (ih.2 b hmem).1, (ih.2 b hmem).2⟩

/-- What comes first is bound before what comes then. -/
theorem before (h : InTurn d carried context quoted st (bs ++ cs) quoted' st') :
    ∀ b ∈ bs, ∀ c ∈ cs, b.after <+: c.before := by
  induction bs generalizing quoted st with
  | nil => simp
  | cons b bs ih =>
    obtain _ | ⟨hb, hrest⟩ := h
    rw [List.forall_mem_cons]
    refine ⟨fun c hc => ?_, ih hrest⟩
    exact (hrest.within.2 c (List.mem_append_right _ hc)).1

/-- If every text closes the quotes that it opens, each is read as the first one is. -/
theorem quoted_of_balanced (h : InTurn d carried context quoted st bs quoted' st')
    (hbs : ∀ b ∈ bs, Balanced b.text.toList) : quoted' = quoted ∧ ∀ b ∈ bs, b.quoted = quoted := by
  induction h with
  | nil => simp
  | cons hb _ ih =>
    rw [List.forall_mem_cons] at hbs ⊢
    rw [hbs.1 _] at ih
    obtain ⟨hend, hall⟩ := ih hbs.2
    exact ⟨hend, rfl, hall⟩

end InTurn

/-! ### Cutting a text -/

theorem unmarked_of_all {u : List Char} (h : u.all fun c => c != '\'' && c != '\x7b') :
    ∀ c ∈ u, c ≠ '\'' ∧ c ≠ '\x7b' := by
  simpa using h

theorem piecesFrom_unmarked (quoted : Bool) {u : List Char} (h : ∀ c ∈ u, c ≠ '\'' ∧ c ≠ '\x7b')
    (rest : List Char) :
    piecesFrom quoted 0 (u ++ rest) = u.map .char ++ piecesFrom quoted 0 rest := by
  cases quoted with
  | false => exact piecesFrom_chars h rest
  | true => exact piecesFrom_quoted (fun hmem => (h _ hmem).1 rfl) rest

/-- Text that can come after another one and is left as it is. -/
structure Closing (t : String) : Prop where
  unmarked : ∀ c ∈ t.toList, c ≠ '\'' ∧ c ≠ '\x7b'
  apart : ∀ c ∈ t.toList.head?, isApart c

section Cutting

variable {quoted : Bool} {st st' : List Value} {out w : List Char}

/-- A text is bound without what comes after it. -/
theorem fill_cut {text : String} (hw : ∀ c ∈ w.head?, isApart c)
    (h : fill (bindToken d carried context) (piecesFrom quoted 0 (text.toList ++ w)) st =
      .ok (out, st')) :
    ∃ sql mid rest, BoundText.Holds d carried context ⟨text, quoted, st, sql, mid⟩ ∧
      fill (bindToken d carried context) (piecesFrom (quotedAfter quoted text.toList) 0 w) mid =
        .ok (rest, st') ∧ out = sql.toList ++ rest := by
  rw [piecesFrom_append_apart _ _ hw, fill_append] at h
  obtain ⟨first, mid, rest, hfirst, hrest, rfl⟩ := h
  refine ⟨.ofList first, mid, rest, ?_, hrest, by rw [String.toList_ofList]⟩
  rw [BoundText.Holds, String.toList_ofList]
  exact hfirst

theorem fill_item {text tail : String} (htail : Closing tail) (hw : ∀ c ∈ w.head?, isApart c)
    (h : fill (bindToken d carried context) (piecesFrom quoted 0 ((text ++ tail).toList ++ w)) st =
      .ok (out, st')) :
    ∃ sql mid rest, BoundText.Holds d carried context ⟨text, quoted, st, sql, mid⟩ ∧
      fill (bindToken d carried context) (piecesFrom (quotedAfter quoted text.toList) 0 w) mid =
        .ok (rest, st') ∧ out = (sql ++ tail).toList ++ rest := by
  rw [String.toList_append, List.append_assoc] at h
  obtain ⟨sql, mid, _, hsql, hrest, rfl⟩ := fill_cut (apart_append htail.apart hw) h
  rw [piecesFrom_unmarked _ htail.unmarked, fill_chars] at hrest
  obtain ⟨rest, hrest, rfl⟩ := hrest
  exact ⟨sql, mid, rest, hsql, hrest, by rw [String.toList_append, List.append_assoc]⟩

/-- The items of a list are bound in turn. -/
theorem fill_join {α : Type} {text tail : α → String} {items : List α}
    (hitems : ∀ x ∈ items, Closing (tail x)) (hw : ∀ c ∈ w.head?, isApart c)
    (h : fill (bindToken d carried context)
      (piecesFrom quoted 0 ((Text.join ", " (items.map fun x => text x ++ tail x)).toList ++ w))
        st = .ok (out, st')) :
    ∃ bs quoted' mid rest, InTurn d carried context quoted st bs quoted' mid ∧
      bs.map (·.text) = items.map text ∧
      fill (bindToken d carried context) (piecesFrom quoted' 0 w) mid = .ok (rest, st') ∧
      out =
        (Text.join ", " (List.zipWith (fun b x => b.sql ++ tail x) bs items)).toList ++ rest := by
  induction items generalizing quoted st out with
  | nil => exact ⟨[], quoted, st, out, .nil, rfl, h, rfl⟩
  | cons x items ih =>
    rw [List.forall_mem_cons] at hitems
    cases items with
    | nil =>
      obtain ⟨sql, mid, rest, hsql, hrest, rfl⟩ := fill_item hitems.1 hw h
      exact ⟨_, _, mid, rest, .cons hsql .nil, rfl, hrest, rfl⟩
    | cons y items =>
      have hcomma : ∀ c ∈ ", ".toList, c ≠ '\'' ∧ c ≠ '\x7b' := unmarked_of_all (by decide)
      have hsplit : (Text.join ", " ((x :: y :: items).map fun x => text x ++ tail x)).toList ++ w =
          (text x ++ tail x).toList ++ (", ".toList ++
            ((Text.join ", " ((y :: items).map fun x => text x ++ tail x)).toList ++ w)) := by
        simp [Text.join]
      rw [hsplit] at h
      obtain ⟨sql, mid, _, hsql, hrest, rfl⟩ := fill_item hitems.1 (by
        intro c hc
        cases hc
        decide) h
      rw [piecesFrom_unmarked _ hcomma, fill_chars] at hrest
      obtain ⟨_, hrest, rfl⟩ := hrest
      obtain ⟨bs, quoted', now, rest, hturn, htexts, hend, rfl⟩ := ih hitems.2 hrest
      refine ⟨_ :: bs, quoted', now, rest, .cons hsql hturn,
        by rw [List.map_cons, htexts]; rfl, hend, ?_⟩
      cases bs with
      | nil => cases htexts
      | cons b bs => simp [Text.join]

end Cutting

end PathQuery.Template
