import PathQuery.Proofs.Expr.RoundTrip
import PathQuery.Proofs.Placeholder.Names
import Mathlib.Dynamics.FixedPoints.Basic

/-!
The parser comes to an end, and its errors point into the source. A bracket, an operator, a sign or
a comma takes a character before the parser goes on, so every question that it asks itself is about
a shorter text. Two consequences: the levels answer as if brackets could nest without bound, and the
bounds of the loops are never what ends them.
-/

namespace PathQuery.Expr

theorem ProperEnd.skipGap {rest cs : List Char} (h : ProperEnd rest cs) :
    ProperEnd (Expr.skipGap rest) cs :=
  .of_suffix (skipGap_suffix rest) h

/-- What is read after a token that may have blanks around it. -/
theorem ProperEnd.between {rest cs : List Char} (h : ProperEnd rest (Expr.skipGap cs)) :
    ProperEnd (Expr.skipGap rest) cs :=
  (h.suffix_trans (skipGap_suffix cs)).skipGap

theorem comma_proper {rest cs : List Char} (h : skipGap cs = ',' :: rest) :
    ProperEnd (skipGap rest) cs := by
  have hrest : ProperEnd rest (',' :: rest) := .cons ',' (List.suffix_refl rest)
  rw [← h] at hrest
  exact hrest.between

/-! ### Brackets in brackets -/

/-- The parsers give the same replies to texts shorter than `k`. -/
def AgreeBelow (k : Nat) (p q : Parser Expr) : Prop :=
  ∀ cs, cs.length < k → p cs = q cs

section Agreement

variable {k : Nat} {p q : Parser Expr}

theorem chainLoop_agrees {β γ : Type} {op? : List Char → Option (β × List Char)}
    {extend : γ → β → Expr → γ} (h : AgreeBelow k p q) (hq : Sound q)
    (hop : ∀ cs op rest, op? cs = some (op, rest) → ProperEnd rest cs) (n : Nat) {acc : γ}
    {cs : List Char} (hcs : cs.length < k) :
    chainLoop op? p extend n acc cs = chainLoop op? q extend n acc cs := by
  induction n generalizing acc cs with
  | zero => rfl
  | succ n ih =>
    unfold chainLoop
    cases hfound : op? (skipGap cs) with
    | none => rfl
    | some found =>
      obtain ⟨op, after⟩ := found
      have hafter : (skipGap after).length < k :=
        Nat.lt_trans (hop _ _ _ hfound).between.2 hcs
      dsimp only
      rw [h _ hafter]
      cases hreply : q (skipGap after) with
      | error stuck => rfl
      | ok reply =>
        obtain ⟨x, rest⟩ := reply
        -- the loop reads on where the operand ends, so it matters that `q` takes something
        exact ih (Nat.lt_trans (hq.proper hreply).2 hafter)

theorem connected_agrees (op : Connective) {word : List Char} (hword : word ≠ [])
    (h : AgreeBelow k p q) (hq : Sound q) :
    AgreeBelow k (connected op word p) (connected op word q) := by
  intro cs hcs
  rw [connected_eq, connected_eq, h cs hcs]
  cases hreply : q cs with
  | error stuck => rfl
  | ok first =>
    have hrest : first.2.length < k := Nat.lt_trans (hq.proper hreply).2 hcs
    have hmore : moreOperands word p first.2.length [first.1] first.2 =
        moreOperands word q first.2.length [first.1] first.2 :=
      chainLoop_agrees h hq (link_proper hword) _ hrest
    dsimp only [Except.bind]
    rw [hmore]

theorem leftward_agrees {op? : List Char → Option (BinaryOp × List Char)}
    (hop : ∀ cs op rest, op? cs = some (op, rest) → ProperEnd rest cs)
    (h : AgreeBelow k p q) (hq : Sound q) : AgreeBelow k (leftward op? p) (leftward op? q) := by
  intro cs hcs
  unfold leftward
  rw [h cs hcs]
  cases hreply : q cs with
  | error stuck => rfl
  | ok first =>
    have hrest : first.2.length < k := Nat.lt_trans (hq.proper hreply).2 hcs
    exact chainLoop_agrees h hq hop _ hrest

theorem comparison_agrees (h : AgreeBelow k p q) (hq : Sound q) :
    AgreeBelow k (comparison p) (comparison q) := by
  intro cs hcs
  unfold comparison
  rw [h cs hcs]
  cases hreply : q cs with
  | error stuck => rfl
  | ok first =>
    obtain ⟨left, mid⟩ := first
    have hmid : mid.length < k := Nat.lt_trans (hq.proper hreply).2 hcs
    dsimp only
    cases hop : compareOp? (skipGap mid) with
    | none => rfl
    | some found =>
      obtain ⟨op, after⟩ := found
      dsimp only
      rw [h _ (Nat.lt_trans (compareOp?_proper hop).between.2 hmid)]

theorem negated_agrees (h : AgreeBelow k p q) (n : Nat) :
    AgreeBelow k (negated p n) (negated q n) := by
  induction n with
  | zero => exact h
  | succ n ih =>
    intro cs hcs
    unfold negated
    cases hk : keyword? ['n', 'o', 't'] cs with
    | none => exact h cs hcs
    | some rest =>
      have hrest : ProperEnd (skipGap rest) cs := (keyword?_proper (by simp) hk).skipGap
      dsimp only
      rw [ih _ (Nat.lt_trans hrest.2 hcs), h cs hcs]

theorem signs_agrees (h : AgreeBelow k p q) (n : Nat) : AgreeBelow k (signs p n) (signs q n) := by
  induction n with
  | zero => exact h
  | succ n ih =>
    intro cs hcs
    unfold signs
    cases hs : sign? cs with
    | none => exact h cs hcs
    | some found =>
      obtain ⟨op, rest⟩ := found
      have hrest : ProperEnd (skipGap rest) cs := (sign?_proper hs).skipGap
      dsimp only
      rw [ih _ (Nat.lt_trans hrest.2 hcs)]

theorem moreItems_agrees (h : AgreeBelow k p q) (hq : Sound q) (n : Nat) (items : List Expr)
    {cs : List Char} (hcs : cs.length < k) : moreItems p n items cs = moreItems q n items cs := by
  induction n generalizing items cs with
  | zero => rfl
  | succ n ih =>
    unfold moreItems
    split
    · next rest hcomma =>
      have hafter : (skipGap rest).length < k := Nat.lt_trans (comma_proper hcomma).2 hcs
      rw [h _ hafter]
      cases hreply : q (skipGap rest) with
      | error stuck => rfl
      | ok reply =>
        obtain ⟨e, rest⟩ := reply
        exact ih _ (Nat.lt_trans (hq.proper hreply).2 hafter)
    · rfl

theorem sequence_agrees (h : AgreeBelow k p q) (hq : Sound q) {cs : List Char}
    (hcs : cs.length < k) : sequence p cs = sequence q cs := by
  unfold sequence
  rw [h cs hcs]
  cases hreply : q cs with
  | error stuck => rfl
  | ok reply =>
    obtain ⟨e, rest⟩ := reply
    dsimp only
    rw [moreItems_agrees h hq _ _ (Nat.lt_trans (hq.proper hreply).2 hcs)]

theorem arguments?_agrees (h : AgreeBelow k p q) (hq : Sound q) {cs : List Char}
    (hcs : cs.length ≤ k) : arguments? p cs = arguments? q cs := by
  unfold arguments?
  split
  · next cs =>
    split
    · rfl
    · rw [sequence_agrees h hq (Nat.lt_of_le_of_lt (skipGap_suffix cs).length_le hcs)]
  · rfl

theorem named_agrees (h : AgreeBelow k p q) (hq : Sound q) {cs : List Char}
    (hcs : cs.length ≤ k) : named p cs = named q cs := by
  unfold named
  cases hn : name? cs with
  | none => rfl
  | some found =>
    obtain ⟨name, rest⟩ := found
    have hrest : rest <:+ cs := by
      rw [(name?_some hn).2]
      exact List.suffix_append name rest
    dsimp only
    rw [arguments?_agrees h hq (Nat.le_trans hrest.length_le hcs)]

/-- What stands between brackets is shorter than the text with the brackets. -/
theorem primary_agrees (h : AgreeBelow k p q) (hq : Sound q) :
    AgreeBelow (k + 1) (primary p) (primary q) := by
  intro cs hcs
  have hbody {c : Char} {rest : List Char} (hcons : cs = c :: rest) :
      sequence p (skipGap rest) = sequence q (skipGap rest) := by
    refine sequence_agrees h hq (Nat.lt_of_le_of_lt (skipGap_suffix rest).length_le ?_)
    rw [hcons] at hcs
    exact Nat.lt_of_succ_lt_succ hcs
  unfold primary
  split
  · rw [grouped?_eq, grouped?_eq, hbody rfl]
  · rw [listed?_eq, listed?_eq, hbody rfl]
  · rfl
  · rfl
  · rfl
  · rw [named_agrees h hq (Nat.le_of_lt_succ hcs)]
  · rfl

theorem orLevel_agrees (h : AgreeBelow k p q) (hq : Sound q) :
    AgreeBelow (k + 1) (orLevel p) (orLevel q) := by
  have hsigned : AgreeBelow (k + 1) (signedLevel p) (signedLevel q) :=
    fun cs => signs_agrees (primary_agrees h hq) cs.length cs
  have hproduct : AgreeBelow (k + 1) (productLevel p) (productLevel q) :=
    leftward_agrees (fun _ _ _ => productOp?_proper) hsigned (signedLevel_sound hq)
  have hsum : AgreeBelow (k + 1) (sumLevel p) (sumLevel q) :=
    leftward_agrees (fun _ _ _ => sumOp?_proper) hproduct (productLevel_sound hq)
  have hcomparison : AgreeBelow (k + 1) (comparisonLevel p) (comparisonLevel q) :=
    comparison_agrees hsum (sumLevel_sound hq)
  have hnot : AgreeBelow (k + 1) (notLevel p) (notLevel q) :=
    fun cs => negated_agrees hcomparison cs.length cs
  have hand : AgreeBelow (k + 1) (andLevel p) (andLevel q) :=
    connected_agrees .and (by simp) hnot (notLevel_sound hq)
  exact connected_agrees .or (by simp) hand (andLevel_sound hq)

end Agreement

theorem iterate_agrees (base : Parser Expr) (n : Nat) :
    AgreeBelow n (orLevel^[n] base) (exprAt n) := by
  induction n with
  | zero => exact fun cs hcs => absurd hcs (Nat.not_lt_zero _)
  | succ n ih =>
    rw [Function.iterate_succ_apply']
    exact orLevel_agrees ih (exprAt_sound n)

theorem exprAt_add (m n : Nat) : exprAt (m + n) = orLevel^[m] (exprAt n) := by
  induction m with
  | zero => rw [Nat.zero_add, Function.iterate_zero_apply]
  | succ m ih => rw [Nat.succ_add, exprAt, ih, Function.iterate_succ_apply']

/-- Unrolled deeper than the text is long, the levels reply as the parser for expressions does,
whatever stands at the bottom. -/
theorem iterate_eq_expression (base : Parser Expr) {n : Nat} {cs : List Char} (h : cs.length < n) :
    orLevel^[n] base cs = expression cs := by
  rw [iterate_agrees base n cs h]
  obtain ⟨m, rfl⟩ := Nat.exists_eq_add_of_le (Nat.succ_le_of_lt h)
  rw [exprAt_add]
  exact iterate_agrees _ _ cs (Nat.lt_succ_self _)

/-- There is just one parser that reads as the levels do with itself between the brackets. -/
theorem isFixedPt_orLevel_iff {p : Parser Expr} :
    Function.IsFixedPt orLevel p ↔ p = expression := by
  constructor
  · intro hp
    funext cs
    rw [← iterate_eq_expression p (Nat.lt_succ_self cs.length)]
    exact congrFun (Function.IsFixedPt.iterate hp _).symm cs
  · rintro rfl
    funext cs
    -- `expression` unrolls as deep as each text is long, here all are unrolled to one depth
    have hagree : AgreeBelow cs.length expression (exprAt cs.length) := by
      intro ds hds
      rw [← iterate_agrees (exprAt 0) _ ds hds, iterate_eq_expression _ hds]
    exact orLevel_agrees hagree (exprAt_sound _) cs (Nat.lt_succ_self _)

/-! ### Loops -/

section Loops

variable {γ ρ : Type}

/-- A loop of bounded length, each round of which ends it or goes on with a shorter text. -/
structure Shrinks (loop : Nat → γ → List Char → ρ) : Prop where
  empty : ∀ acc, loop 1 acc [] = loop 0 acc []
  round : ∀ acc cs, (∃ reply, ∀ n, loop (n + 1) acc cs = reply) ∨
    ∃ (more : γ) (rest : List Char) (finish : ρ → ρ), rest.length < cs.length ∧
      ∀ n, loop (n + 1) acc cs = finish (loop n more rest)

/-- From the length of the text on, the bound changes nothing. -/
def Settles (loop : Nat → γ → List Char → ρ) : Prop :=
  ∀ n acc cs, cs.length ≤ n → loop n acc cs = loop cs.length acc cs

theorem Shrinks.settles {loop : Nat → γ → List Char → ρ} (h : Shrinks loop) : Settles loop := by
  -- one more round than enough: a round that goes on leaves less, so the induction is on the bound
  have hstep (n : Nat) : ∀ acc cs, cs.length ≤ n → loop (n + 1) acc cs = loop n acc cs := by
    induction n with
    | zero =>
      intro acc cs hcs
      rw [List.eq_nil_of_length_eq_zero (Nat.le_zero.mp hcs)]
      exact h.empty acc
    | succ n ih =>
      intro acc cs hcs
      rcases h.round acc cs with ⟨reply, hreply⟩ | ⟨more, rest, finish, hrest, hnext⟩
      · rw [hreply, hreply]
      · rw [hnext, hnext, ih more rest (by omega)]
  intro n acc cs hcs
  induction n, hcs using Nat.le_induction with
  | base => rfl
  | succ n hn ih => rw [hstep n acc cs hn, ih]

theorem chainLoop_shrinks {β : Type} {op? : List Char → Option (β × List Char)}
    {operand : Parser Expr} {extend : γ → β → Expr → γ}
    (hop : ∀ cs op rest, op? cs = some (op, rest) → ProperEnd rest cs) (hoperand : Sound operand) :
    Shrinks (chainLoop op? operand extend) where
  empty acc := by
    have hnone : op? (skipGap []) = none := by
      by_contra hsome
      obtain ⟨⟨op, rest⟩, hfound⟩ := Option.ne_none_iff_exists'.mp hsome
      exact Nat.not_lt_zero _ (hop _ _ _ hfound).2
    simp [chainLoop, hnone]
  round acc cs := by
    simp only [chainLoop]
    cases hfound : op? (skipGap cs) with
    | none => exact .inl ⟨_, fun _ => rfl⟩
    | some found =>
      obtain ⟨op, after⟩ := found
      have hafter := (hop _ _ _ hfound).between.2
      dsimp only
      cases hreply : operand (skipGap after) with
      | error stuck => exact .inl ⟨_, fun _ => rfl⟩
      | ok reply =>
        obtain ⟨x, rest⟩ := reply
        exact .inr ⟨_, rest, id, Nat.lt_trans (hoperand.proper hreply).2 hafter, fun _ => rfl⟩

theorem negated_shrinks (operand : Parser Expr) :
    Shrinks fun n (_ : Unit) => negated operand n where
  empty _ := rfl
  round _ cs := by
    simp only [negated]
    cases hk : keyword? ['n', 'o', 't'] cs with
    | none => exact .inl ⟨_, fun _ => rfl⟩
    | some rest =>
      have hrest : ProperEnd (skipGap rest) cs := (keyword?_proper (by simp) hk).skipGap
      refine .inr ⟨(), skipGap rest, fun reply => (reply.map fun read =>
        (.unary .not read.1, read.2)).tryCatch fun _ => operand cs, hrest.2, fun n => ?_⟩
      dsimp only
      cases negated operand n (skipGap rest) <;> rfl

theorem signs_shrinks (operand : Parser Expr) :
    Shrinks fun n (_ : Unit) => signs operand n where
  empty _ := rfl
  round _ cs := by
    simp only [signs]
    cases hs : sign? cs with
    | none => exact .inl ⟨_, fun _ => rfl⟩
    | some found =>
      obtain ⟨op, rest⟩ := found
      have hrest : ProperEnd (skipGap rest) cs := (sign?_proper hs).skipGap
      refine .inr ⟨(), skipGap rest, fun reply => (reply.map fun read =>
        (.unary op read.1, read.2)).tryCatch fun _ => .error cs, hrest.2, fun n => ?_⟩
      dsimp only
      cases signs operand n (skipGap rest) <;> rfl

theorem moreItems_shrinks {inner : Parser Expr} (hinner : Sound inner) :
    Shrinks (moreItems inner) where
  empty _ := rfl
  round items cs := by
    simp only [moreItems]
    split
    · next rest hcomma =>
      cases hreply : inner (skipGap rest) with
      | error stuck => exact .inl ⟨_, fun _ => rfl⟩
      | ok reply =>
        obtain ⟨e, after⟩ := reply
        have hafter := Nat.lt_trans (hinner.proper hreply).2 (comma_proper hcomma).2
        exact .inr ⟨_, after, id, hafter, fun _ => rfl⟩
    · exact .inl ⟨_, fun _ => rfl⟩

theorem segments_shrinks : Shrinks fun n (_ : Unit) => segments n where
  empty _ := rfl
  round _ cs := by
    simp only [segments]
    split
    · next rest =>
      cases hn : name? rest with
      | none => exact .inl ⟨_, fun _ => rfl⟩
      | some found =>
        obtain ⟨name, after⟩ := found
        have hafter : ProperEnd after ('.' :: rest) := by
          rw [(name?_some hn).2]
          exact .cons '.' (List.suffix_append name after)
        exact .inr ⟨(), after, fun reply => (String.ofList name :: reply.1, reply.2), hafter.2,
          fun _ => rfl⟩
    · exact .inl ⟨_, fun _ => rfl⟩

end Loops

/-- The bounds of the loops of all levels are never what ends them. -/
structure LoopsSettle (inner : Parser Expr) : Prop where
  ors : Settles (moreOperands ['o', 'r'] (andLevel inner))
  ands : Settles (moreOperands ['a', 'n', 'd'] (notLevel inner))
  nots : Settles fun n (_ : Unit) => negated (comparisonLevel inner) n
  sums : Settles (chainLoop sumOp? (productLevel inner) fun left op right => binary op left right)
  products :
    Settles (chainLoop productOp? (signedLevel inner) fun left op right => binary op left right)
  signs : Settles fun n (_ : Unit) => signs (primary inner) n
  items : Settles (moreItems inner)
  segments : Settles fun n (_ : Unit) => segments n

theorem loopsSettle {inner : Parser Expr} (h : Sound inner) : LoopsSettle inner where
  ors := (chainLoop_shrinks (link_proper (by simp)) (andLevel_sound h)).settles
  ands := (chainLoop_shrinks (link_proper (by simp)) (notLevel_sound h)).settles
  nots := (negated_shrinks _).settles
  sums := (chainLoop_shrinks (fun _ _ _ => sumOp?_proper) (productLevel_sound h)).settles
  products := (chainLoop_shrinks (fun _ _ _ => productOp?_proper) (signedLevel_sound h)).settles
  signs := (signs_shrinks _).settles
  items := (moreItems_shrinks h).settles
  segments := segments_shrinks.settles

/-! ### Positions -/

/-- A parse that succeeds leaves a proper end of its text, and one that fails is stuck at an end. -/
def Progresses {α : Type} (p : Parser α) : Prop :=
  ∀ cs, match p cs with
    | .ok (_, rest) => ProperEnd rest cs
    | .error stuck => stuck <:+ cs

theorem Sound.progresses {p : Parser Expr} (h : Sound p) : Progresses p := by
  intro cs
  have hread := h cs
  cases hreply : p cs with
  | error stuck =>
    rw [hreply] at hread
    exact hread
  | ok reply =>
    rw [hreply] at hread
    exact hread.2

theorem levelAt_sound {inner : Parser Expr} (h : Sound inner) (tier : Nat) :
    Sound (levelAt inner tier) := by
  unfold levelAt
  split
  · exact orLevel_sound h
  · exact andLevel_sound h
  · exact notLevel_sound h
  · exact comparisonLevel_sound h
  · exact sumLevel_sound h
  · exact productLevel_sound h
  · exact signedLevel_sound h
  · exact primary_sound h

theorem byteLength_eq (cs : List Char) : Text.byteLength cs = (String.ofList cs).utf8ByteSize := by
  induction cs with
  | nil => rfl
  | cons c cs ih =>
    rw [Text.byteLength, ih, String.ofList_cons, String.utf8ByteSize_append,
      String.utf8ByteSize_singleton]

/-- The position of an end of the source is the size of what is before it. -/
theorem position_append (before rest : List Char) :
    position (before ++ rest) rest = (String.ofList before).utf8ByteSize := by
  rw [position, byteLength_eq, byteLength_eq, String.ofList_append, String.utf8ByteSize_append,
    Nat.add_sub_cancel]

/-- An error of the parser cuts the trimmed source in two. -/
theorem parse_error_cuts {source : String} {e : Error} (h : parse source = .error e) :
    ∃ before after, Text.trim source = before ++ after ∧
      (e = .stuck before.utf8ByteSize after.toList ∨
        e = .trailing before.utf8ByteSize (.ofList (Text.trimEnd after.toList))) := by
  have hsound := expression_sound (Text.trimChars source.toList)
  simp only [parse] at h
  split at h
  · next rest hreply =>
    rw [hreply] at hsound
    obtain ⟨before, hcut⟩ := hsound
    cases h
    refine ⟨.ofList before, .ofList rest, ?_, .inl ?_⟩
    · rw [← String.ofList_append, hcut, Text.trim]
    · rw [← hcut, position_append, String.toList_ofList]
  · next tree rest hreply =>
    rw [hreply] at hsound
    have hend : Text.trimStart rest <:+ Text.trimChars source.toList :=
      (List.dropWhile_suffix _).trans hsound.2.1
    obtain ⟨before, hcut⟩ := hend
    split at h
    · cases h
    · cases h
      refine ⟨.ofList before, .ofList (Text.trimStart rest), ?_, .inr ?_⟩
      · rw [← String.ofList_append, hcut, Text.trim]
      · rw [← hcut, position_append, String.toList_ofList]

end PathQuery.Expr

namespace PathQuery.OrderTerm

open PathQuery.Expr

theorem term_progresses : Progresses term := by
  intro cs
  have hsound := expression_sound cs
  unfold term
  cases hreply : expression cs with
  | error stuck =>
    rw [hreply] at hsound
    exact hsound
  | ok reply =>
    obtain ⟨e, rest⟩ := reply
    rw [hreply] at hsound
    exact .of_suffix (direction_spans rest).suffix hsound.2

theorem moreTerms_shrinks : Shrinks moreTerms where
  empty _ := rfl
  round terms cs := by
    simp only [moreTerms]
    split
    · next rest hcomma =>
      have hterm := term_progresses (skipGap rest)
      cases hreply : term (skipGap rest) with
      | error stuck => exact .inl ⟨_, fun _ => rfl⟩
      | ok reply =>
        obtain ⟨t, after⟩ := reply
        rw [hreply] at hterm
        exact .inr ⟨_, after, id, Nat.lt_trans hterm.2 (comma_proper hcomma).2, fun _ => rfl⟩
    · exact .inl ⟨_, fun _ => rfl⟩

end PathQuery.OrderTerm

namespace PathQuery

open PathQuery.Expr

/-- Every level and the terms of an order take something from their text or are stuck at an end of
it. So the levels have one reading of what is between brackets and never unroll it deeper than the
text is long, no loop ends by its bound, and an error stands between two characters of the trimmed
source. -/
theorem parser_descends :
    (∀ tier, Progresses (levelAt expression tier)) ∧ Progresses OrderTerm.term ∧
      (∀ p, Function.IsFixedPt orLevel p ↔ p = expression) ∧
      (∀ base n cs, cs.length < n → orLevel^[n] base cs = expression cs) ∧
      LoopsSettle expression ∧ Settles OrderTerm.moreTerms ∧
      ∀ source e, parse source = .error e → ∃ before after,
        Text.trim source = before ++ after ∧
        before.utf8ByteSize ≤ (Text.trim source).utf8ByteSize ∧
        String.Pos.Raw.IsValid (Text.trim source) ⟨before.utf8ByteSize⟩ ∧
        (e = .stuck before.utf8ByteSize after.toList ∨
          e = .trailing before.utf8ByteSize (.ofList (Text.trimEnd after.toList))) := by
  refine ⟨fun tier => (levelAt_sound expression_sound tier).progresses, OrderTerm.term_progresses,
    fun _ => isFixedPt_orLevel_iff, fun base _ _ => iterate_eq_expression base,
    loopsSettle expression_sound, OrderTerm.moreTerms_shrinks.settles, ?_⟩
  intro source e h
  obtain ⟨before, after, hcut, herror⟩ := parse_error_cuts h
  refine ⟨before, after, hcut, ?_, ?_, herror⟩
  · rw [hcut, String.utf8ByteSize_append]
    exact Nat.le_add_right _ _
  · exact String.Pos.Raw.isValid_iff_exists_append.mpr ⟨before, after, hcut, rfl⟩

/-- Trailing text after a letter of two bytes, brackets that are not closed on top of a parser that
takes nothing, and more rounds than there are signs. -/
theorem parser_descends_accented :
    parse "'é' b" = .error (.trailing 5 "b") ∧
      (∃ before after, Text.trim "'é' b" = before ++ after ∧ before.utf8ByteSize = 5 ∧
        String.Pos.Raw.IsValid (Text.trim "'é' b") ⟨before.utf8ByteSize⟩) ∧
      orLevel^[4] (fun cs => .ok (.null, cs)) ['(', '[', 'a'] = expression ['(', '[', 'a'] ∧
      signs (primary expression) 9 ['-', '-', 'a'] =
        signs (primary expression) 3 ['-', '-', 'a'] := by
  have hparse : parse "'é' b" = .error (.trailing 5 "b") := by rfl
  obtain ⟨-, -, -, hunrolled, hloops, -, herrors⟩ := parser_descends
  obtain ⟨before, after, hcut, -, hvalid, herror⟩ := herrors _ _ hparse
  have hsize : before.utf8ByteSize = 5 := by
    rcases herror with herror | herror
    · cases herror
    · injection herror with hposition
      exact hposition.symm
  exact ⟨hparse, ⟨before, after, hcut, hsize, hvalid⟩, hunrolled _ 4 _ (by decide),
    hloops.signs 9 () _ (by decide)⟩

end PathQuery
