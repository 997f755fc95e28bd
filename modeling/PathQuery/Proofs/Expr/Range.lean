import PathQuery.Expr.Parser
import PathQuery.OrderTerm
import Mathlib.Data.List.Forall2
import Mathlib.Data.List.Infix
import Mathlib.Data.List.TakeWhile

/-!
What the parser can return. Every level that succeeds returns a readable expression and leaves a
proper end of its text; every level that fails is stuck at some end of it. Each level is built on
the next one, so one lemma for each way of building carries this from the signs to whole
expressions.
-/

namespace PathQuery.Expr

/-! ### Readable expressions -/

/-- A name that is not reserved. -/
def IsName (s : String) : Prop :=
  s.toList ≠ [] ∧ spelled s.toList = s.toList ∧ isReserved s.toList = false

instance (s : String) : Decidable (IsName s) :=
  inferInstanceAs (Decidable (_ ∧ _))

/-- The name of a placeholder. -/
def IsBracedName (cs : List Char) : Prop :=
  cs ≠ [] ∧ ∀ c ∈ cs, Text.isNameChar c

def IsDigits (cs : List Char) : Prop :=
  cs ≠ [] ∧ ∀ c ∈ cs, c.isDigit

def IsPlaces (cs : List Char) : Prop :=
  cs = [] ∨ ∃ ds, cs = '.' :: ds ∧ IsDigits ds

def IsExponent (cs : List Char) : Prop :=
  cs = [] ∨ ∃ mark sign ds, cs = mark :: sign ++ ds ∧ (mark = 'e' ∨ mark = 'E') ∧
    (sign = [] ∨ sign = ['+'] ∨ sign = ['-']) ∧ IsDigits ds

/-- Digits, maybe with places, maybe with an exponent. -/
def IsNumber (cs : List Char) : Prop :=
  ∃ whole part power, cs = whole ++ part ++ power ∧ IsDigits whole ∧ IsPlaces part ∧
    IsExponent power

/-- The expressions that a source can be read as. -/
inductive Readable : Expr → Prop
  | path {head : String} {rest : List String} (hhead : IsName head)
      (hrest : ∀ name ∈ rest, IsName name) : Readable (.path head rest)
  | number {text : String} (h : IsNumber text.toList) : Readable (.number text)
  | str {text : String}
      (h : ∀ name, IsBracedName name → text.toList ≠ '\x7b' :: name ++ ['\x7d']) :
      Readable (.str text)
  | bool (b : Bool) : Readable (.bool b)
  | null : Readable .null
  | placeholder {name : String} (h : IsBracedName name.toList) : Readable (.placeholder name)
  | callAll {name : String} (hname : IsName name) : Readable (.call name [.star])
  | call {name : String} {args : List Expr} (hname : IsName name)
      (hargs : ∀ a ∈ args, Readable a) : Readable (.call name args)
  | binary (op : BinaryOp) {left right : Expr} (hl : Readable left) (hr : Readable right) :
      Readable (.binary op left right)
  | compare (op : CompareOp) {left right : Expr} (hl : Readable left) (hr : Readable right) :
      Readable (.compare op left right)
  | logical (op : Connective) {operands : List Expr} (hlength : 2 ≤ operands.length)
      (h : ∀ e ∈ operands, Readable e) : Readable (.logical op operands)
  | unary (op : UnaryOp) {operand : Expr} (h : Readable operand) : Readable (.unary op operand)
  | tuple {items : List Expr} (h : ∀ e ∈ items, Readable e) : Readable (.tuple items)
  | list {items : List Expr} (h : ∀ e ∈ items, Readable e) : Readable (.list items)

/-! ### Ends of a text -/

/-- An end of the text that is not the whole of it. -/
def ProperEnd (rest cs : List Char) : Prop :=
  rest <:+ cs ∧ rest.length < cs.length

theorem ProperEnd.of_suffix {rest mid cs : List Char} (h : rest <:+ mid)
    (hm : ProperEnd mid cs) : ProperEnd rest cs :=
  ⟨h.trans hm.1, Nat.lt_of_le_of_lt h.length_le hm.2⟩

theorem ProperEnd.suffix_trans {rest mid cs : List Char} (h : ProperEnd rest mid)
    (hm : mid <:+ cs) : ProperEnd rest cs :=
  ⟨h.1.trans hm, Nat.lt_of_lt_of_le h.2 hm.length_le⟩

theorem ProperEnd.cons {rest cs : List Char} (c : Char) (h : rest <:+ cs) :
    ProperEnd rest (c :: cs) :=
  ⟨h.trans (List.suffix_cons c cs), Nat.lt_succ_of_le h.length_le⟩

theorem ProperEnd.drop {c : Char} {cs : List Char} {n : Nat} (hn : 0 < n) :
    ProperEnd ((c :: cs).drop n) (c :: cs) := by
  refine ⟨List.drop_suffix n _, ?_⟩
  rw [List.length_drop, List.length_cons]
  omega

theorem skipGap_suffix (cs : List Char) : skipGap cs <:+ cs :=
  List.dropWhile_suffix isGap

theorem dropWord?_suffix {word cs rest : List Char} (h : dropWord? word cs = some rest) :
    rest <:+ cs := by
  induction word generalizing cs with
  | nil =>
    cases h
    exact List.suffix_refl _
  | cons a word ih =>
    cases cs with
    | nil => cases h
    | cons c cs =>
      simp only [dropWord?] at h
      split at h
      · exact (ih h).trans (List.suffix_cons c cs)
      · cases h

/-- A keyword is a word that ends where it is cut off. -/
theorem keyword?_eq_some {word cs rest : List Char} (h : keyword? word cs = some rest) :
    dropWord? word cs = some rest ∧ ∀ c ∈ rest.head?, Text.isNameChar c = false := by
  unfold keyword? at h
  cases hdrop : dropWord? word cs with
  | none => simp [hdrop] at h
  | some after =>
    cases after with
    | nil =>
      simp only [hdrop] at h
      cases h
      simp
    | cons c after =>
      simp only [hdrop] at h
      split at h
      · cases h
      · next hc =>
        cases h
        simpa using hc

theorem keyword?_suffix {word cs rest : List Char} (h : keyword? word cs = some rest) :
    rest <:+ cs :=
  dropWord?_suffix (keyword?_eq_some h).1

theorem dropWord?_length {word cs rest : List Char} (h : dropWord? word cs = some rest) :
    rest.length + word.length = cs.length := by
  induction word generalizing cs with
  | nil =>
    cases h
    rfl
  | cons a word ih =>
    cases cs with
    | nil => cases h
    | cons c cs =>
      simp only [dropWord?] at h
      split at h
      · have := ih h
        simp only [List.length_cons]
        omega
      · cases h

theorem keyword?_proper {word cs rest : List Char} (hword : word ≠ [])
    (h : keyword? word cs = some rest) : ProperEnd rest cs := by
  have hlength := dropWord?_length (keyword?_eq_some h).1
  have hpos := List.length_pos_iff.mpr hword
  exact ⟨keyword?_suffix h, by omega⟩

theorem gap?_suffix {cs rest : List Char} (h : gap? cs = some rest) : rest <:+ cs := by
  cases cs with
  | nil => cases h
  | cons c cs =>
    simp only [gap?] at h
    split at h
    · cases h
      exact (skipGap_suffix cs).trans (List.suffix_cons c cs)
    · cases h

theorem keywords?_proper {first second cs rest : List Char} (hfirst : first ≠ [])
    (h : keywords? first second cs = some rest) : ProperEnd rest cs := by
  simp only [keywords?, Option.bind_eq_some_iff] at h
  obtain ⟨after, ⟨mid, hmid, hgap⟩, hsecond⟩ := h
  exact .of_suffix ((keyword?_suffix hsecond).trans (gap?_suffix hgap))
    (keyword?_proper hfirst hmid)

theorem sumOp?_proper {cs rest : List Char} {op : BinaryOp} (h : sumOp? cs = some (op, rest)) :
    ProperEnd rest cs := by
  unfold sumOp? at h
  split at h
  · cases h
    exact .cons _ (List.suffix_refl _)
  · cases h
    exact .cons _ (List.suffix_refl _)
  · cases h

theorem productOp?_proper {cs rest : List Char} {op : BinaryOp}
    (h : productOp? cs = some (op, rest)) : ProperEnd rest cs := by
  unfold productOp? at h
  split at h
  · cases h
    exact .cons _ (List.suffix_refl _)
  · cases h
    exact .cons _ (List.suffix_refl _)
  · cases h
    exact .cons _ (List.suffix_refl _)
  · cases h

theorem sign?_proper {cs rest : List Char} {op : UnaryOp} (h : sign? cs = some (op, rest)) :
    ProperEnd rest cs := by
  unfold sign? at h
  split at h
  · cases h
    exact .cons _ (List.suffix_refl _)
  · cases h
    exact .cons _ (List.suffix_refl _)
  · cases h

theorem wordOp?_proper {cs rest : List Char} {op : CompareOp} (h : wordOp? cs = some (op, rest)) :
    ProperEnd rest cs := by
  unfold wordOp? at h
  split at h
  · next hk =>
    cases h
    exact keywords?_proper (by simp) hk
  · split at h
    · next hk =>
      cases h
      exact keyword?_proper (by simp) hk
    · split at h
      · next hk =>
        cases h
        exact keywords?_proper (by simp) hk
      · obtain ⟨_, hk, hrest⟩ := Option.map_eq_some_iff.mp h
        cases hrest
        exact keyword?_proper (by simp) hk

theorem compareOp?_proper {cs rest : List Char} {op : CompareOp}
    (h : compareOp? cs = some (op, rest)) : ProperEnd rest cs := by
  have one (c : Char) (cs : List Char) : ProperEnd cs (c :: cs) := .cons c (List.suffix_refl _)
  have two (c d : Char) (cs : List Char) : ProperEnd cs (c :: d :: cs) :=
    .cons c (List.suffix_cons d cs)
  unfold compareOp? at h
  split at h
  all_goals first
    | exact wordOp?_proper h
    | (cases h; exact two _ _ _)
    | (cases h; exact one _ _)

/-! ### Replies -/

/-- A good reply: what is read satisfies `P` and leaves a proper end, and what fails is stuck at an
end. -/
def Yields {α : Type} (P : α → Prop) (cs : List Char) : Reply α → Prop
  | .ok (x, rest) => P x ∧ ProperEnd rest cs
  | .error stuck => stuck <:+ cs

/-- A parser with good replies. -/
def Sound (p : Parser Expr) : Prop :=
  ∀ cs, Yields Readable cs (p cs)

theorem Sound.proper {p : Parser Expr} (hp : Sound p) {cs rest : List Char} {e : Expr}
    (h : p cs = .ok (e, rest)) : ProperEnd rest cs := by
  have hread := hp cs
  rw [h] at hread
  exact hread.2

section Chains

variable {α β γ : Type} {op? : List Char → Option (β × List Char)} {operand : Parser α}
  {extend : γ → β → α → γ}

/-- A loop reads on from the end of its first operand, so it may also stop right there. -/
theorem chainLoop_yields {P : α → Prop} {I : γ → Prop}
    (hop : ∀ cs op rest, op? cs = some (op, rest) → ProperEnd rest cs)
    (hoperand : ∀ cs, Yields P cs (operand cs))
    (hextend : ∀ acc op x, I acc → P x → I (extend acc op x))
    (n : Nat) {acc : γ} {mid cs : List Char} (hacc : I acc) (hmid : ProperEnd mid cs) :
    Yields I cs (chainLoop op? operand extend n acc mid) := by
  induction n generalizing acc mid with
  | zero => exact ⟨hacc, hmid⟩
  | succ n ih =>
    unfold chainLoop
    cases hfound : op? (skipGap mid) with
    | none => exact ⟨hacc, hmid⟩
    | some found =>
      obtain ⟨op, after⟩ := found
      have hafter : ProperEnd (skipGap after) cs :=
        .of_suffix ((skipGap_suffix after).trans ((hop _ _ _ hfound).1.trans (skipGap_suffix mid)))
          hmid
      have hread := hoperand (skipGap after)
      cases hreply : operand (skipGap after) with
      | error stuck =>
        rw [hreply] at hread
        simp only [hreply]
        exact hread.trans hafter.1
      | ok reply =>
        rw [hreply] at hread
        simp only [hreply]
        exact ih (hextend _ _ _ hacc hread.1) (.of_suffix hread.2.1 hafter)

end Chains

/-- The operator that a connective is. -/
def link (word cs : List Char) : Option (Unit × List Char) :=
  (keyword? word cs).map ((), ·)

theorem link_proper {word : List Char} (hword : word ≠ []) (cs : List Char) (u : Unit)
    (rest : List Char) (h : link word cs = some (u, rest)) : ProperEnd rest cs := by
  obtain ⟨_, hk, hrest⟩ := Option.map_eq_some_iff.mp h
  cases hrest
  exact keyword?_proper hword hk

/-- The operands behind those that are read already, each after the keyword. -/
abbrev moreOperands (word : List Char) (operand : Parser Expr) :
    Nat → List Expr → List Char → Reply (List Expr) :=
  chainLoop (link word) operand fun operands _ e => operands ++ [e]

/-- What operands with a connective between neighbours are read as. -/
def group (op : Connective) : List Expr → Expr
  | [e] => e
  | es => .logical op es

theorem connected_eq (op : Connective) (word : List Char) (operand : Parser Expr)
    (cs : List Char) : connected op word operand cs =
      (operand cs).bind fun first =>
        (moreOperands word operand first.2.length [first.1] first.2).map fun reply =>
          (group op reply.1, reply.2) := by
  have hmore : chainLoop (fun cs => (keyword? word cs).map ((), ·)) operand
      (fun operands _ e => operands ++ [e]) = moreOperands word operand := rfl
  unfold connected
  rw [hmore]
  cases operand cs with
  | error stuck => rfl
  | ok first =>
    dsimp only [Except.bind]
    cases moreOperands word operand first.2.length [first.1] first.2 with
    | error stuck => rfl
    | ok reply =>
      obtain ⟨operands, rest⟩ := reply
      cases operands with
      | nil => rfl
      | cons e es => cases es <;> rfl

theorem group_readable (op : Connective) {es : List Expr} (hne : es ≠ [])
    (h : ∀ e ∈ es, Readable e) : Readable (group op es) := by
  match es, hne with
  | [e], _ => exact h e (by simp)
  | _ :: _ :: _, _ => exact .logical op (by simp) h

theorem connected_sound {operand : Parser Expr} (op : Connective) {word : List Char}
    (hword : word ≠ []) (h : Sound operand) : Sound (connected op word operand) := by
  intro cs
  have hfirst := h cs
  rw [connected_eq]
  cases hreply : operand cs with
  | error stuck =>
    rw [hreply] at hfirst
    exact hfirst
  | ok reply =>
    obtain ⟨first, mid⟩ := reply
    rw [hreply] at hfirst
    have hloop : Yields (fun es => es ≠ [] ∧ ∀ e ∈ es, Readable e) cs
        (moreOperands word operand mid.length [first] mid) := by
      refine chainLoop_yields (link_proper hword) h ?_ _ ⟨by simp, by simpa using hfirst.1⟩
        hfirst.2
      rintro acc _ x ⟨_, hacc⟩ hx
      refine ⟨by simp, ?_⟩
      intro e he
      rcases List.mem_append.mp he with he | he
      · exact hacc e he
      · rw [List.mem_singleton.mp he]
        exact hx
    dsimp only [Except.bind]
    generalize moreOperands word operand mid.length [first] mid = reply at hloop
    match reply, hloop with
    | .error stuck, hloop => exact hloop
    | .ok (operands, rest), hloop => exact ⟨group_readable op hloop.1.1 hloop.1.2, hloop.2⟩

theorem leftward_sound {op? : List Char → Option (BinaryOp × List Char)} {operand : Parser Expr}
    (hop : ∀ cs op rest, op? cs = some (op, rest) → ProperEnd rest cs) (h : Sound operand) :
    Sound (leftward op? operand) := by
  intro cs
  have hfirst := h cs
  unfold leftward
  cases hreply : operand cs with
  | error stuck =>
    rw [hreply] at hfirst
    exact hfirst
  | ok reply =>
    rw [hreply] at hfirst
    refine chainLoop_yields hop h ?_ _ hfirst.1 hfirst.2
    intro left op right hl hr
    exact .binary op hl hr

theorem comparison_sound {operand : Parser Expr} (h : Sound operand) :
    Sound (comparison operand) := by
  intro cs
  have hleft := h cs
  unfold comparison
  cases hreply : operand cs with
  | error stuck =>
    rw [hreply] at hleft
    exact hleft
  | ok reply =>
    obtain ⟨left, mid⟩ := reply
    rw [hreply] at hleft
    dsimp only
    cases hop : compareOp? (skipGap mid) with
    | none => exact hleft
    | some found =>
      obtain ⟨op, after⟩ := found
      have hafter : skipGap after <:+ mid :=
        (skipGap_suffix after).trans ((compareOp?_proper hop).1.trans (skipGap_suffix mid))
      have hright := h (skipGap after)
      cases hreply' : operand (skipGap after) with
      | error stuck =>
        rw [hreply'] at hright
        simp only [hreply']
        exact hright.trans (hafter.trans hleft.2.1)
      | ok reply =>
        rw [hreply'] at hright
        simp only [hreply']
        exact ⟨.compare op hleft.1 hright.1,
          .of_suffix (hright.2.1.trans hafter) hleft.2⟩

theorem negated_sound {operand : Parser Expr} (h : Sound operand) (n : Nat) :
    Sound (negated operand n) := by
  induction n with
  | zero => exact h
  | succ n ih =>
    intro cs
    unfold negated
    cases hk : keyword? ['n', 'o', 't'] cs with
    | none => exact h cs
    | some after =>
      have hrest := ih (skipGap after)
      cases hreply : negated operand n (skipGap after) with
      | error stuck =>
        simp only [hreply]
        exact h cs
      | ok reply =>
        rw [hreply] at hrest
        simp only [hreply]
        exact ⟨.unary .not hrest.1,
          hrest.2.suffix_trans ((skipGap_suffix after).trans (keyword?_suffix hk))⟩

theorem signs_sound {operand : Parser Expr} (h : Sound operand) (n : Nat) :
    Sound (signs operand n) := by
  induction n with
  | zero => exact h
  | succ n ih =>
    intro cs
    unfold signs
    cases hs : sign? cs with
    | none => exact h cs
    | some found =>
      obtain ⟨op, after⟩ := found
      have hrest := ih (skipGap after)
      cases hreply : signs operand n (skipGap after) with
      | error stuck =>
        simp only [hreply]
        exact List.suffix_refl cs
      | ok reply =>
        rw [hreply] at hrest
        simp only [hreply]
        exact ⟨.unary op hrest.1,
          hrest.2.suffix_trans ((skipGap_suffix after).trans (sign?_proper hs).1)⟩

/-! ### Brackets -/

section Brackets

variable {inner : Parser Expr}

theorem moreItems_readable (h : Sound inner) (n : Nat) (items : List Expr) (cs : List Char)
    (hitems : ∀ e ∈ items, Readable e) :
    (∀ e ∈ (moreItems inner n items cs).1, Readable e) ∧
      (moreItems inner n items cs).2 <:+ cs := by
  induction n generalizing items cs with
  | zero => exact ⟨hitems, List.suffix_refl cs⟩
  | succ n ih =>
    unfold moreItems
    split
    · next after hcomma =>
      have hafter : skipGap after <:+ cs := (skipGap_suffix after).trans
        ((List.suffix_cons _ after).trans (hcomma ▸ skipGap_suffix cs))
      have hread := h (skipGap after)
      split
      · next e rest hreply =>
        rw [hreply] at hread
        have hmore : ∀ x ∈ items ++ [e], Readable x := by
          intro x hx
          rcases List.mem_append.mp hx with hx | hx
          · exact hitems x hx
          · rw [List.mem_singleton.mp hx]
            exact hread.1
        obtain ⟨hall, hrest⟩ := ih _ rest hmore
        exact ⟨hall, hrest.trans (hread.2.1.trans hafter)⟩
      · exact ⟨hitems, List.suffix_refl cs⟩
    · exact ⟨hitems, List.suffix_refl cs⟩

theorem trailingComma_suffix (cs : List Char) : (trailingComma cs).2 <:+ cs := by
  unfold trailingComma
  split
  · next rest hcomma => exact (List.suffix_cons _ rest).trans (hcomma ▸ skipGap_suffix cs)
  · exact List.suffix_refl cs

theorem sequence_readable (h : Sound inner) (cs : List Char) :
    (∀ e ∈ (sequence inner cs).1.1, Readable e) ∧ (sequence inner cs).2 <:+ cs := by
  have hread := h cs
  unfold sequence
  cases hreply : inner cs with
  | error stuck => exact ⟨by simp, trailingComma_suffix cs⟩
  | ok reply =>
    obtain ⟨e, rest⟩ := reply
    rw [hreply] at hread
    obtain ⟨hall, hrest⟩ := moreItems_readable h rest.length [e] rest (by simpa using hread.1)
    exact ⟨hall, (trailingComma_suffix _).trans (hrest.trans hread.2.1)⟩

theorem closing?_proper {close : Char} {cs rest : List Char} (h : closing? close cs = some rest) :
    ProperEnd rest cs := by
  unfold closing? at h
  split at h
  · next c after hcs =>
    split at h
    · cases h
      exact (ProperEnd.cons c (List.suffix_refl _)).suffix_trans (hcs ▸ skipGap_suffix cs)
    · cases h
  · cases h

theorem grouped?_readable (h : Sound inner) {cs rest : List Char} {e : Expr}
    (hg : grouped? inner cs = some (e, rest)) : Readable e ∧ rest <:+ cs := by
  obtain ⟨hall, hbody⟩ := sequence_readable h (skipGap cs)
  simp only [grouped?] at hg
  generalize sequence inner (skipGap cs) = body at hg hall hbody
  obtain ⟨⟨items, trailing⟩, after⟩ := body
  obtain ⟨after', hclose, hreply⟩ := Option.map_eq_some_iff.mp hg
  have hafter : after' <:+ cs :=
    (closing?_proper hclose).1.trans (hbody.trans (skipGap_suffix cs))
  split at hreply
  · next hitems =>
    cases hreply
    cases hitems
    exact ⟨hall _ (by simp), hafter⟩
  · next hitems =>
    cases hreply
    cases hitems
    exact ⟨.tuple hall, hafter⟩

theorem listed?_readable (h : Sound inner) {cs rest : List Char} {e : Expr}
    (hl : listed? inner cs = some (e, rest)) : Readable e ∧ rest <:+ cs := by
  obtain ⟨hall, hbody⟩ := sequence_readable h (skipGap cs)
  obtain ⟨after, hclose, hreply⟩ := Option.map_eq_some_iff.mp hl
  cases hreply
  exact ⟨.list hall, (closing?_proper hclose).1.trans (hbody.trans (skipGap_suffix cs))⟩

theorem arguments?_readable (h : Sound inner) {cs rest : List Char} {args : List Expr}
    (ha : arguments? inner cs = some (args, rest)) :
    (args = [.star] ∨ ∀ a ∈ args, Readable a) ∧ rest <:+ cs := by
  unfold arguments? at ha
  split at ha
  · next cs =>
    have hskip : skipGap cs <:+ '(' :: cs := (skipGap_suffix cs).trans (List.suffix_cons _ cs)
    split at ha
    · next after hstar =>
      obtain ⟨after', hclose, hreply⟩ := Option.map_eq_some_iff.mp ha
      cases hreply
      exact ⟨.inl rfl, (closing?_proper hclose).1.trans
        ((List.suffix_cons _ after).trans (hstar ▸ hskip))⟩
    · obtain ⟨hall, hbody⟩ := sequence_readable h (skipGap cs)
      obtain ⟨after, hclose, hreply⟩ := Option.map_eq_some_iff.mp ha
      cases hreply
      exact ⟨.inr hall, (closing?_proper hclose).1.trans (hbody.trans hskip)⟩
  · cases ha

end Brackets

/-! ### Tokens -/

theorem braced?_some {cs name rest : List Char} (h : braced? cs = some (name, rest)) :
    IsBracedName name ∧ cs = name ++ '\x7d' :: rest := by
  simp only [braced?] at h
  split at h
  · cases h
  · next hne =>
    split at h
    · next c after hdrop =>
      split at h
      · next hc =>
        cases h
        refine ⟨⟨by simpa using hne, fun _ => List.mem_takeWhile_imp⟩, ?_⟩
        rw [beq_iff_eq] at hc
        rw [← hc, ← hdrop]
        exact List.prefix_append_drop (List.takeWhile_prefix Text.isNameChar)
      · cases h
    · cases h

theorem quotedText?_suffix {q : Char} {cs text rest : List Char}
    (h : quotedText? q cs = some (text, rest)) : rest <:+ cs := by
  fun_induction quotedText? q cs generalizing text rest with
  | case1 => cases h
  | case2 c hc d after hd ih =>
    obtain ⟨⟨_, _⟩, hq, hreply⟩ := Option.map_eq_some_iff.mp h
    cases hreply
    exact (ih hq).trans ((List.suffix_cons d after).trans (List.suffix_cons c _))
  | case3 c hc d after hd =>
    cases h
    exact List.suffix_cons c _
  | case4 c hc =>
    cases h
    exact List.suffix_cons c _
  | case5 c hc d after hescape ih =>
    obtain ⟨⟨_, _⟩, hq, hreply⟩ := Option.map_eq_some_iff.mp h
    cases hreply
    exact (ih hq).trans ((List.suffix_cons d after).trans (List.suffix_cons c _))
  | case6 c hc hescape => cases h
  | case7 c after hc hescape ih =>
    obtain ⟨⟨_, _⟩, hq, hreply⟩ := Option.map_eq_some_iff.mp h
    cases hreply
    exact (ih hq).trans (List.suffix_cons c after)

/-- Reading a name in braces goes on until the closing brace. -/
theorem braced?_append {name : List Char} (hname : IsBracedName name) (rest : List Char) :
    braced? (name ++ '\x7d' :: rest) = some (name, rest) := by
  have htake : (name ++ '\x7d' :: rest).takeWhile Text.isNameChar = name := by
    rw [List.takeWhile_append_of_pos hname.2, List.takeWhile_cons_of_neg (by decide),
      List.append_nil]
  simp [braced?, htake, hname.1]

theorem ofQuoted_readable (text : List Char) : Readable (ofQuoted text) := by
  have plain (h : ∀ name, IsBracedName name → text ≠ '\x7b' :: name ++ ['\x7d']) :
      Readable (.str (.ofList text)) :=
    .str (by simpa using h)
  unfold ofQuoted
  split
  · next rest =>
    split
    · next name hb =>
      refine .placeholder ?_
      rw [String.toList_ofList]
      exact (braced?_some hb).1
    · next hb =>
      refine plain ?_
      intro name hname heq
      rw [List.cons_append, List.cons.injEq] at heq
      exact hb name (heq.2 ▸ braced?_append hname [])
  · next hb =>
    refine plain ?_
    intro name _ heq
    exact hb (name ++ ['\x7d']) heq

theorem isDigits_takeWhile {cs : List Char} (h : cs.takeWhile Char.isDigit ≠ []) :
    IsDigits (cs.takeWhile Char.isDigit) :=
  ⟨h, fun _ => List.mem_takeWhile_imp⟩

theorem places_isPlaces (cs : List Char) : IsPlaces (places cs) := by
  unfold places
  split
  · next rest =>
    dsimp only
    split
    · exact .inl rfl
    · next hds => exact .inr ⟨_, rfl, isDigits_takeWhile (by simpa using hds)⟩
  · exact .inl rfl

theorem exponent_isExponent (cs : List Char) : IsExponent (exponent cs) := by
  unfold exponent
  split
  · next c rest =>
    split
    · next hmark =>
      have signed (sign after : List Char) (hsign : sign = [] ∨ sign = ['+'] ∨ sign = ['-']) :
          IsExponent (if (after.takeWhile Char.isDigit).isEmpty then []
            else c :: sign ++ after.takeWhile Char.isDigit) := by
        split
        · exact .inl rfl
        · next hds =>
          exact .inr ⟨c, sign, _, rfl, by simpa using hmark, hsign,
            isDigits_takeWhile (by simpa using hds)⟩
      dsimp only
      split
      · exact signed ['+'] _ (by simp)
      · exact signed ['-'] _ (by simp)
      · exact signed [] _ (by simp)
    · exact .inl rfl
  · exact .inl rfl

theorem numberText_isNumber {c : Char} (hc : c.isDigit) (cs : List Char) :
    IsNumber (numberText (c :: cs)) :=
  ⟨_, _, _, rfl, isDigits_takeWhile (by simp [hc]), places_isPlaces _, exponent_isExponent _⟩

theorem numberText_ne_nil {c : Char} (hc : c.isDigit) (cs : List Char) :
    numberText (c :: cs) ≠ [] := by
  simp [numberText, hc]

theorem constant?_readable {cs rest : List Char} {e : Expr} (h : constant? cs = some (e, rest)) :
    Readable e ∧ ProperEnd rest cs := by
  unfold constant? at h
  split at h
  · next hk =>
    cases h
    exact ⟨.bool true, keyword?_proper (by simp) hk⟩
  · split at h
    · next hk =>
      cases h
      exact ⟨.bool false, keyword?_proper (by simp) hk⟩
    · split at h
      · next hk =>
        cases h
        exact ⟨.null, keyword?_proper (by simp) hk⟩
      · obtain ⟨_, hk, hreply⟩ := Option.map_eq_some_iff.mp h
        cases hreply
        exact ⟨.null, keyword?_proper (by simp) hk⟩

theorem spelled_starts (cs : List Char) : spelled cs <+: cs := by
  cases cs with
  | nil => exact List.prefix_refl []
  | cons c cs =>
    by_cases hc : isNameStart c
    · simpa [spelled, hc] using List.takeWhile_prefix isNameRest
    · simp [spelled, hc]

theorem spelled_spelled (cs : List Char) : spelled (spelled cs) = spelled cs := by
  cases cs with
  | nil => rfl
  | cons c cs =>
    by_cases hc : isNameStart c
    · simp [spelled, hc, List.takeWhile_takeWhile]
    · simp [spelled, hc]

theorem name?_some {cs name rest : List Char} (h : name? cs = some (name, rest)) :
    IsName (.ofList name) ∧ cs = name ++ rest := by
  simp only [name?] at h
  split at h
  · cases h
  · next hname =>
    cases h
    simp only [Bool.or_eq_true, List.isEmpty_iff, not_or, Bool.not_eq_true] at hname
    refine ⟨⟨?_, ?_, ?_⟩, List.prefix_append_drop (spelled_starts cs)⟩
    · simpa using hname.1
    · rw [String.toList_ofList, spelled_spelled]
    · rw [String.toList_ofList]
      exact hname.2

theorem segments_names (n : Nat) (cs : List Char) :
    (∀ name ∈ (segments n cs).1, IsName name) ∧ (segments n cs).2 <:+ cs := by
  induction n generalizing cs with
  | zero => exact ⟨by simp [segments], List.suffix_refl cs⟩
  | succ n ih =>
    unfold segments
    split
    · next rest =>
      split
      · next name after hname =>
        obtain ⟨hn, hrest⟩ := name?_some hname
        obtain ⟨hall, hmore⟩ := ih after
        refine ⟨?_, hmore.trans ?_⟩
        · intro x hx
          rcases List.mem_cons.mp hx with rfl | hx
          · exact hn
          · exact hall x hx
        · rw [hrest, ← List.cons_append]
          exact List.suffix_append _ after
      · exact ⟨by simp, List.suffix_refl _⟩
    · exact ⟨by simp, List.suffix_refl cs⟩

/-! ### Levels -/

section Levels

variable {inner : Parser Expr}

theorem orStuck_yields {cs : List Char} {reply : Option (Expr × List Char)}
    (h : ∀ e rest, reply = some (e, rest) → Readable e ∧ ProperEnd rest cs) :
    Yields Readable cs (orStuck cs reply) := by
  cases reply with
  | none => exact List.suffix_refl cs
  | some reply => exact h _ _ rfl

theorem named_sound (h : Sound inner) : Sound (named inner) := by
  intro cs
  unfold named
  cases hn : name? cs with
  | none => exact List.suffix_refl cs
  | some found =>
    obtain ⟨name, rest⟩ := found
    obtain ⟨hname, rfl⟩ := name?_some hn
    have hrest : ProperEnd rest (name ++ rest) := by
      refine ⟨List.suffix_append name rest, ?_⟩
      have hpos : 0 < name.length := List.length_pos_iff.mpr (by simpa using hname.1)
      rw [List.length_append]
      omega
    dsimp only
    cases ha : arguments? inner rest with
    | none =>
      obtain ⟨hall, hend⟩ := segments_names rest.length rest
      exact ⟨.path hname hall, .of_suffix hend hrest⟩
    | some reply =>
      obtain ⟨hargs, hend⟩ := arguments?_readable h ha
      refine ⟨?_, .of_suffix hend hrest⟩
      rcases hargs with hargs | hargs
      · rw [hargs]
        exact .callAll hname
      · exact .call hname hargs

theorem primary_sound (h : Sound inner) : Sound (primary inner) := by
  have quoted (q : Char) (rest : List Char) : Yields Readable (q :: rest) (orStuck (q :: rest)
      ((quotedText? q rest).map fun reply => (ofQuoted reply.1, reply.2))) := by
    refine orStuck_yields ?_
    intro e after hq
    obtain ⟨⟨text, _⟩, htext, hreply⟩ := Option.map_eq_some_iff.mp hq
    cases hreply
    exact ⟨ofQuoted_readable text, .cons q (quotedText?_suffix htext)⟩
  intro cs
  unfold primary
  split
  · refine orStuck_yields ?_
    intro e after hg
    obtain ⟨he, hend⟩ := grouped?_readable h hg
    exact ⟨he, .cons _ hend⟩
  · refine orStuck_yields ?_
    intro e after hl
    obtain ⟨he, hend⟩ := listed?_readable h hl
    exact ⟨he, .cons _ hend⟩
  · refine orStuck_yields ?_
    intro e after hb
    obtain ⟨⟨name, _⟩, hname, hreply⟩ := Option.map_eq_some_iff.mp hb
    cases hreply
    obtain ⟨hbraced, rfl⟩ := braced?_some hname
    refine ⟨.placeholder (by simpa using hbraced), .cons _ ?_⟩
    exact (List.suffix_cons _ after).trans (List.suffix_append name _)
  · exact quoted '\'' _
  · exact quoted '"' _
  · next c rest _ _ _ _ _ =>
    split
    · next hc =>
      exact ⟨.number (by simpa using numberText_isNumber hc rest),
        .drop (List.length_pos_iff.mpr (numberText_ne_nil hc rest))⟩
    · split
      · next reply hk => exact constant?_readable hk
      · exact named_sound h _
  · exact List.suffix_refl []

theorem signedLevel_sound (h : Sound inner) : Sound (signedLevel inner) := by
  intro cs
  exact signs_sound (primary_sound h) cs.length cs

theorem productLevel_sound (h : Sound inner) : Sound (productLevel inner) :=
  leftward_sound (fun _ _ _ => productOp?_proper) (signedLevel_sound h)

theorem sumLevel_sound (h : Sound inner) : Sound (sumLevel inner) :=
  leftward_sound (fun _ _ _ => sumOp?_proper) (productLevel_sound h)

theorem comparisonLevel_sound (h : Sound inner) : Sound (comparisonLevel inner) :=
  comparison_sound (sumLevel_sound h)

theorem notLevel_sound (h : Sound inner) : Sound (notLevel inner) := by
  intro cs
  exact negated_sound (comparisonLevel_sound h) cs.length cs

theorem andLevel_sound (h : Sound inner) : Sound (andLevel inner) :=
  connected_sound .and (by simp) (notLevel_sound h)

theorem orLevel_sound (h : Sound inner) : Sound (orLevel inner) :=
  connected_sound .or (by simp) (andLevel_sound h)

end Levels

theorem exprAt_sound (n : Nat) : Sound (exprAt n) := by
  induction n with
  | zero =>
    intro cs
    exact List.suffix_refl cs
  | succ n ih => exact orLevel_sound ih

theorem expression_sound : Sound expression := by
  intro cs
  exact exprAt_sound (cs.length + 1) cs

/-- A source is read as a readable expression. -/
theorem parse_readable {source : String} {e : Expr} (h : parse source = .ok e) : Readable e := by
  have hsound := expression_sound (Text.trimChars source.toList)
  simp only [parse] at h
  split at h
  · cases h
  · next hreply =>
    rw [hreply] at hsound
    split at h
    · cases h
      exact hsound.1
    · cases h

end PathQuery.Expr

namespace PathQuery.OrderTerm

open PathQuery.Expr (Readable)

theorem term_readable {cs rest : List Char} {t : Expr × Option Bool}
    (h : term cs = .ok (t, rest)) : Readable t.1 := by
  have hsound := Expr.expression_sound cs
  simp only [term] at h
  split at h
  · cases h
  · next hreply =>
    rw [hreply] at hsound
    cases h
    exact hsound.1

theorem moreTerms_readable (n : Nat) (terms : List (Expr × Option Bool)) (cs : List Char)
    (hterms : ∀ t ∈ terms, Readable t.1) : ∀ t ∈ (moreTerms n terms cs).1, Readable t.1 := by
  induction n generalizing terms cs with
  | zero => exact hterms
  | succ n ih =>
    unfold moreTerms
    split
    · split
      · next t rest ht =>
        refine ih _ rest ?_
        intro x hx
        rcases List.mem_append.mp hx with hx | hx
        · exact hterms x hx
        · rw [List.mem_singleton.mp hx]
          exact term_readable ht
      · exact hterms
    · exact hterms

theorem ofParsed_readable {p : Expr × Option Bool} {t : OrderTerm} (hp : Readable p.1)
    (h : ofParsed p = .ok t) : Readable t.expr := by
  unfold ofParsed at h
  split at h
  · cases h
  · cases h
    cases hp with
    | unary _ he => exact he
  · cases h
    exact hp

theorem ofAll_eq_ok_iff {ps : List (Expr × Option Bool)} {ts : List OrderTerm} :
    ofAll ps = .ok ts ↔ List.Forall₂ (fun p t => ofParsed p = .ok t) ps ts := by
  induction ps generalizing ts with
  | nil =>
    rw [List.forall₂_nil_left_iff, ofAll, Except.ok.injEq]
    exact eq_comm
  | cons p ps ih =>
    rw [List.forall₂_cons_left_iff, ofAll]
    cases ofParsed p with
    | error e => simp
    | ok t =>
      simp only [← ih]
      cases ofAll ps with
      | error e => simp
      | ok rest => simp [eq_comm]

theorem exists_ofParsed {ps : List (Expr × Option Bool)} {terms : List OrderTerm}
    (h : ofAll ps = .ok terms) : ∀ t ∈ terms, ∃ p ∈ ps, ofParsed p = .ok t := by
  rw [ofAll_eq_ok_iff] at h
  induction h with
  | nil => simp
  | cons hp _ ih =>
    rw [List.forall_mem_cons]
    refine ⟨⟨_, List.mem_cons_self, hp⟩, fun t ht => ?_⟩
    obtain ⟨q, hq, hparsed⟩ := ih t ht
    exact ⟨q, List.mem_cons_of_mem _ hq, hparsed⟩

theorem ofAll_readable {ps : List (Expr × Option Bool)} {terms : List OrderTerm}
    (hps : ∀ p ∈ ps, Readable p.1) (h : ofAll ps = .ok terms) :
    ∀ t ∈ terms, Readable t.expr := by
  intro t ht
  obtain ⟨p, hp, hparsed⟩ := exists_ofParsed h t ht
  exact ofParsed_readable (hps p hp) hparsed

theorem parseList_readable {source : String} {terms : List OrderTerm}
    (h : parseList source = .ok terms) : ∀ t ∈ terms, Readable t.expr := by
  unfold parseList at h
  split at h
  · cases h
  · cases h
    simp
  · next cs _ _ =>
    split at h
    · cases h
    · next first rest hfirst =>
      dsimp only at h
      split at h
      · refine ofAll_readable (moreTerms_readable rest.length [first] rest ?_) h
        simpa using term_readable hfirst
      · cases h

end PathQuery.OrderTerm
