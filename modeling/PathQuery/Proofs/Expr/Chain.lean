import PathQuery.Proofs.Expr.Extension

/-!
What the levels of `and` and `or` read, as alternatives that are each a chain of operands. Chains
can be put together at a connective: `or` sets the alternatives side by side, while `and` joins the
last alternative before it to the first one after it. An expression that cannot be read to its end
is blocked, by an operand that fails or by a blank that is no gap.
-/

namespace PathQuery.Expr

/-! ### Linked operands -/

/-- Readings one after the other, with the keyword `word` between neighbours. -/
inductive Linked {α : Type} (word : List Char) (R : α → List Char → List Char → Prop) :
    List α → List Char → List Char → Prop
  | one {x : α} {cs rest : List Char} (h : R x cs rest) : Linked word R [x] cs rest
  | more {x : α} {xs : List α} {cs mid after rest : List Char} (h : R x cs mid)
      (hkey : keyword? word (skipGap mid) = some after)
      (hxs : Linked word R xs (skipGap after) rest) : Linked word R (x :: xs) cs rest

abbrev Reads (p : Parser Expr) (e : Expr) (cs rest : List Char) : Prop :=
  p cs = .ok (e, rest)

namespace Linked

variable {α β : Type} {word : List Char} {R : α → List Char → List Char → Prop}
  {S : β → List Char → List Char → Prop} {xs ys : List α} {cs mid after rest : List Char}

theorem ne_nil (h : Linked word R xs cs rest) : xs ≠ [] := by
  cases h <;> simp

theorem append (hxs : Linked word R xs cs mid) (hkey : keyword? word (skipGap mid) = some after)
    (hys : Linked word R ys (skipGap after) rest) : Linked word R (xs ++ ys) cs rest := by
  induction hxs with
  | one h => exact .more h hkey hys
  | more h hfirst _ ih => exact .more h hfirst (ih hkey)

/-- The readings may be taken for others where the keyword or the end of the chain follows. -/
theorem map {f : α → β} {A : List Char → Prop} (h : Linked word R xs cs rest)
    (hA : ∀ mid after, keyword? word (skipGap mid) = some after → A mid) (hrest : A rest)
    (hR : ∀ x cs rest, R x cs rest → A rest → S (f x) cs rest) :
    Linked word S (xs.map f) cs rest := by
  induction h with
  | one h => exact .one (hR _ _ _ h hrest)
  | more h hkey _ ih => exact .more (hR _ _ _ h (hA _ _ hkey)) hkey (ih hrest)

/-- Linked readings go the same way when `t` follows, if each of them does. -/
theorem extend {t : List Char} {T : α → List Char → List Char → Prop}
    (hword : word.all Char.isLower) (hne : word ≠ []) (ht : ∀ c ∈ t.head?, isStop c)
    (hR : ∀ x cs rest, R x cs rest → cs ≠ [])
    (hT : ∀ x cs rest, R x cs rest → rest.head? ≠ some '(' → T x (cs ++ t) (rest ++ t))
    (h : Linked word R xs cs rest) (hrest : rest.head? ≠ some '(') :
    Linked word T xs (cs ++ t) (rest ++ t) := by
  induction h with
  | one h => exact .one (hT _ _ _ h hrest)
  | @more x xs cs mid after rest h hkey hxs ih =>
    have hinside : skipGap mid ≠ [] := by
      intro hnil
      rw [hnil, keyword?_nil hne] at hkey
      cases hkey
    have hopen : mid.head? ≠ some '(' := by
      intro hhead
      obtain ⟨cs', rfl⟩ := List.head?_eq_some_iff.mp hhead
      rw [skipGap_cons_of_not (by decide), keyword?_cons_eq_none hword hne (by decide)] at hkey
      cases hkey
    have hafter : skipGap after ≠ [] := by
      cases hxs with
      | one h => exact hR _ _ _ h
      | more h _ _ => exact hR _ _ _ h
    have hkey' : keyword? word (skipGap (mid ++ t)) = some (after ++ t) := by
      rw [skipGap_append hinside, keyword?_append hword ht, hkey]
      rfl
    refine .more (hT _ _ _ h hopen) hkey' ?_
    rw [skipGap_append hafter]
    exact ih hrest

end Linked

/-! ### Connected operands -/

section Connected

variable {word : List Char} {operand : Parser Expr} {cs rest : List Char}

theorem moreOperands_stop (n : Nat) (acc : List Expr) (h : keyword? word (skipGap cs) = none) :
    moreOperands word operand n acc cs = .ok (acc, cs) := by
  cases n with
  | zero => rfl
  | succ n => simp [moreOperands, chainLoop, link, h]

theorem moreOperands_step {after : List Char} (n : Nat) (acc : List Expr)
    (hkey : keyword? word (skipGap cs) = some after) :
    moreOperands word operand (n + 1) acc cs =
      (operand (skipGap after)).bind fun (e, rest) =>
        moreOperands word operand n (acc ++ [e]) rest := by
  simp only [moreOperands, chainLoop, link, hkey, Option.map_some]
  cases operand (skipGap after) <;> rfl

theorem keyword?_shorter (hne : word ≠ []) (hsound : Sound operand) {after : List Char} {e : Expr}
    (hkey : keyword? word (skipGap cs) = some after)
    (hread : operand (skipGap after) = .ok (e, rest)) : rest.length < cs.length := by
  have hword := (keyword?_proper hne hkey).2
  have hskip := (skipGap_suffix cs).length_le
  have hafter := (skipGap_suffix after).length_le
  have hrest := (hsound.proper hread).2
  omega

theorem moreOperands_of_linked (hne : word ≠ []) (hsound : Sound operand) {es : List Expr}
    {cs after : List Char} (h : Linked word (Reads operand) es (skipGap after) rest)
    (hkey : keyword? word (skipGap cs) = some after) (hend : keyword? word (skipGap rest) = none)
    (acc : List Expr) {n : Nat} (hn : cs.length ≤ n) :
    moreOperands word operand n acc cs = .ok (acc ++ es, rest) := by
  -- The induction is on the links; the bound is large enough as each operand takes text away.
  generalize hstart : skipGap after = start at h
  induction h generalizing cs after acc n with
  | @one e _ rest hread =>
    rw [← hstart] at hread
    have hshorter := keyword?_shorter hne hsound hkey hread
    obtain ⟨n, rfl⟩ : ∃ k, n = k + 1 := ⟨n - 1, by omega⟩
    rw [moreOperands_step n acc hkey, hread]
    exact moreOperands_stop n _ hend
  | @more e es _ mid next rest hread hnext hes ih =>
    rw [← hstart] at hread
    have hshorter := keyword?_shorter hne hsound hkey hread
    obtain ⟨n, rfl⟩ : ∃ k, n = k + 1 := ⟨n - 1, by omega⟩
    rw [moreOperands_step n acc hkey, hread]
    have hmore := ih hnext hend (acc ++ [e]) (by omega : mid.length ≤ n) rfl
    rw [List.append_assoc] at hmore
    exact hmore

theorem linked_of_moreOperands (hne : word ≠ []) (hsound : Sound operand) {acc res : List Expr}
    {n : Nat} (hn : cs.length ≤ n) (h : moreOperands word operand n acc cs = .ok (res, rest)) :
    keyword? word (skipGap rest) = none ∧ (res = acc ∧ rest = cs ∨
      ∃ after es, keyword? word (skipGap cs) = some after ∧
        Linked word (Reads operand) es (skipGap after) rest ∧ res = acc ++ es) := by
  induction n generalizing acc cs with
  | zero =>
    obtain rfl : cs = [] := List.eq_nil_of_length_eq_zero (Nat.le_zero.mp hn)
    cases h
    exact ⟨keyword?_nil hne, .inl ⟨rfl, rfl⟩⟩
  | succ n ih =>
    cases hkey : keyword? word (skipGap cs) with
    | none =>
      rw [moreOperands_stop _ _ hkey] at h
      cases h
      exact ⟨hkey, .inl ⟨rfl, rfl⟩⟩
    | some after =>
      rw [moreOperands_step n acc hkey] at h
      cases hread : operand (skipGap after) with
      | error stuck =>
        rw [hread] at h
        cases h
      | ok reply =>
        obtain ⟨e, mid⟩ := reply
        rw [hread] at h
        have hshorter := keyword?_shorter hne hsound hkey hread
        obtain ⟨hend, hmore⟩ := ih (by omega) h
        refine ⟨hend, .inr ⟨after, ?_⟩⟩
        obtain ⟨rfl, rfl⟩ | ⟨next, es, hnext, hes, rfl⟩ := hmore
        · exact ⟨[e], rfl, .one hread, rfl⟩
        · exact ⟨e :: es, rfl, .more hread hnext hes, by simp⟩

/-- What the level of a connective reads is what its linked operands are, up to where no further
connective follows. -/
theorem connected_ok_iff (op : Connective) (hne : word ≠ []) (hsound : Sound operand) {e : Expr} :
    connected op word operand cs = .ok (e, rest) ↔
      ∃ es, Linked word (Reads operand) es cs rest ∧ keyword? word (skipGap rest) = none ∧
        e = group op es := by
  rw [connected_eq]
  constructor
  · intro h
    cases hfirst : operand cs with
    | error stuck =>
      rw [hfirst] at h
      cases h
    | ok reply =>
      obtain ⟨first, mid⟩ := reply
      rw [hfirst] at h
      simp only [Except.bind] at h
      cases hmore : moreOperands word operand mid.length [first] mid with
      | error stuck =>
        rw [hmore] at h
        cases h
      | ok reply =>
        obtain ⟨res, last⟩ := reply
        rw [hmore] at h
        cases h
        obtain ⟨hend, h⟩ := linked_of_moreOperands hne hsound (le_refl mid.length) hmore
        refine ⟨res, ?_, hend, rfl⟩
        obtain ⟨rfl, rfl⟩ | ⟨after, es, hkey, hes, rfl⟩ := h
        · exact .one hfirst
        · exact .more hfirst hkey hes
  · intro ⟨es, hes, hend, he⟩
    cases hes with
    | one hfirst =>
      rw [hfirst]
      simp only [Except.bind, moreOperands_stop _ _ hend, he]
      rfl
    | more hfirst hkey hes =>
      rw [hfirst]
      simp only [Except.bind, moreOperands_of_linked hne hsound hes hkey hend _ (le_refl _), he]
      rfl

end Connected

/-! ### Alternatives -/

/-- The operands of a conjunction. -/
abbrev Conjuncts (p : Parser Expr) : List Expr → List Char → List Char → Prop :=
  Linked ['a', 'n', 'd'] (Reads p)

/-- The alternatives of a disjunction, each with its operands. -/
abbrev Alternatives (p : Parser Expr) : List (List Expr) → List Char → List Char → Prop :=
  Linked ['o', 'r'] (Conjuncts p)

/-- The expression that alternatives are. -/
def disjunction (alternatives : List (List Expr)) : Expr :=
  group .or (alternatives.map (group .and))

/-- Alternatives with `and` between them, which binds tighter than the `or` on both sides of it. -/
def merge : List (List Expr) → List (List Expr) → List (List Expr)
  | [], ds => ds
  | [es], [] => [es]
  | [es], es' :: ds => (es ++ es') :: ds
  | es :: es' :: ds, ds' => es :: merge (es' :: ds) ds'

/-- Where one connective stands, no other does. -/
theorem keyword?_and_eq_none {cs after : List Char} (h : keyword? ['o', 'r'] cs = some after) :
    keyword? ['a', 'n', 'd'] cs = none := by
  cases cs with
  | nil => rfl
  | cons c cs =>
    have hc : c.toLower = 'o' := by
      by_contra hc
      simp [keyword?, dropWord?, hc] at h
    simp [keyword?, dropWord?, hc]

section Alternatives

variable {p q : Parser Expr} {inner : Parser Expr} {cs mid after rest : List Char}
  {es : List Expr} {ds ds' : List (List Expr)}

theorem Linked.merge (hds : Alternatives p ds cs mid)
    (hkey : keyword? ['a', 'n', 'd'] (skipGap mid) = some after)
    (hds' : Alternatives p ds' (skipGap after) rest) : Alternatives p (merge ds ds') cs rest := by
  induction hds with
  | one h =>
    cases hds' with
    | one h' => exact .one (h.append hkey h')
    | more h' hnext hrest => exact .more (h.append hkey h') hnext hrest
  | more h hfirst hmore ih =>
    obtain ⟨es', ds, rfl⟩ := List.exists_cons_of_ne_nil hmore.ne_nil
    exact .more h hfirst (ih hkey)

theorem orLevel_of_alternatives (hsound : Sound inner)
    (h : Alternatives (notLevel inner) ds cs rest)
    (hand : keyword? ['a', 'n', 'd'] (skipGap rest) = none)
    (hor : keyword? ['o', 'r'] (skipGap rest) = none) :
    orLevel inner cs = .ok (disjunction ds, rest) := by
  refine (connected_ok_iff .or (by simp) (andLevel_sound hsound)).mpr ⟨_, ?_, hor, rfl⟩
  exact h.map (A := fun rest => keyword? ['a', 'n', 'd'] (skipGap rest) = none)
    (fun _ _ => keyword?_and_eq_none) hand fun es cs rest hes hend =>
      (connected_ok_iff .and (by simp) (notLevel_sound hsound)).mpr ⟨es, hes, hend, rfl⟩

theorem alternatives_of_orLevel (hsound : Sound inner) {e : Expr}
    (h : orLevel inner cs = .ok (e, rest)) :
    ∃ ds, Alternatives (notLevel inner) ds cs rest ∧ e = disjunction ds := by
  obtain ⟨es, hes, -, rfl⟩ := (connected_ok_iff .or (by simp) (andLevel_sound hsound)).mp h
  suffices hds : ∃ ds, Alternatives (notLevel inner) ds cs rest ∧ es = ds.map (group .and) by
    obtain ⟨ds, hds, rfl⟩ := hds
    exact ⟨ds, hds, rfl⟩
  have hand (e : Expr) (cs rest : List Char) (h : andLevel inner cs = .ok (e, rest)) :
      ∃ operands, Conjuncts (notLevel inner) operands cs rest ∧ e = group .and operands := by
    obtain ⟨operands, hoperands, -, he⟩ :=
      (connected_ok_iff .and (by simp) (notLevel_sound hsound)).mp h
    exact ⟨operands, hoperands, he⟩
  clear h
  induction hes with
  | one h =>
    obtain ⟨operands, hoperands, rfl⟩ := hand _ _ _ h
    exact ⟨[operands], .one hoperands, rfl⟩
  | more h hkey _ ih =>
    obtain ⟨operands, hoperands, rfl⟩ := hand _ _ _ h
    obtain ⟨ds, hds, rfl⟩ := ih
    exact ⟨operands :: ds, .more hoperands hkey hds, rfl⟩

theorem Linked.alternatives_extend {t : List Char} (ht : ∀ c ∈ t.head?, isStop c) (hsound : Sound p)
    (hextends : Extends t Anywhere p q) (h : Alternatives p ds cs rest)
    (hrest : rest.head? ≠ some '(') : Alternatives q ds (cs ++ t) (rest ++ t) := by
  have hne (es : List Expr) (cs rest : List Char) (h : Conjuncts p es cs rest) : cs ≠ [] := by
    cases h with
    | one h => exact ne_nil_of_read hsound h
    | more h _ _ => exact ne_nil_of_read hsound h
  refine Linked.extend (by decide) (by simp) ht hne ?_ h hrest
  intro es cs rest hes hrest
  refine Linked.extend (by decide) (by simp) ht ?_ ?_ hes hrest
  · exact fun e cs rest h => ne_nil_of_read hsound h
  · exact fun e cs rest h hrest => hextends cs e rest h hrest trivial

end Alternatives

/-! ### Blocked text -/

/-- A blank that is no gap comes next. -/
def Jammed (rest : List Char) : Prop :=
  ∃ c ∈ (skipGap rest).head?, Text.isBlank c

/-- The words that join conditions. -/
def connectives : List (List Char) := [['a', 'n', 'd'], ['o', 'r']]

/-- Text of which no chain of operands gets to the end: an operand fails, or one of them stops in
front of a blank that is no gap. -/
inductive Blocked (words : List (List Char)) (p : Parser Expr) : List Char → Prop
  | fails {cs : List Char} (h : Fails p cs) : Blocked words p cs
  | stops {e : Expr} {cs rest : List Char} (h : Reads p e cs rest) (hrest : Jammed rest) :
      Blocked words p cs
  | more {e : Expr} {word cs mid after : List Char} (h : Reads p e cs mid) (hword : word ∈ words)
      (hkey : keyword? word (skipGap mid) = some after) (hafter : Blocked words p (skipGap after)) :
      Blocked words p cs

section BlockedText

variable {word : List Char} {p : Parser Expr} {inner : Parser Expr} {cs mid after rest : List Char}

theorem fails_iff : Fails p cs ↔ ∀ reply, p cs ≠ .ok reply := by
  unfold Fails
  cases p cs <;> simp

theorem Jammed.keyword?_eq_none {w : List Char} (hw : w.all Char.isLower) (hne : w ≠ [])
    (h : Jammed rest) : keyword? w (skipGap rest) = none := by
  obtain ⟨c, hc, hblank⟩ := h
  obtain ⟨cs, hcs⟩ := List.head?_eq_some_iff.mp hc
  have hstop : isStop c := by simp [isStop, hblank]
  rw [hcs]
  exact keyword?_cons_eq_none hw hne
    (not_class_of_isStop (p := fun c => c.toLower.isLower) (by decide) hstop) cs

theorem connected_one (op : Connective) (hne : word ≠ []) (hsound : Sound p) {e : Expr}
    (h : Reads p e cs rest) (hend : keyword? word (skipGap rest) = none) :
    connected op word p cs = .ok (e, rest) :=
  (connected_ok_iff op hne hsound).mpr ⟨[e], .one h, hend, rfl⟩

/-- One more operand in front of a chain. -/
theorem connected_more (op : Connective) (hne : word ≠ []) (hsound : Sound p) {first e : Expr}
    (hfirst : Reads p first cs mid) (hkey : keyword? word (skipGap mid) = some after)
    (h : connected op word p (skipGap after) = .ok (e, rest)) :
    ∃ e', connected op word p cs = .ok (e', rest) := by
  obtain ⟨es, hes, hend, -⟩ := (connected_ok_iff op hne hsound).mp h
  exact ⟨_, (connected_ok_iff op hne hsound).mpr ⟨first :: es, .more hfirst hkey hes, hend, rfl⟩⟩

theorem connected_more_fails (op : Connective) (hne : word ≠ []) (hsound : Sound p) {first : Expr}
    (hfirst : Reads p first cs mid) (hkey : keyword? word (skipGap mid) = some after)
    (h : Fails (connected op word p) (skipGap after)) : Fails (connected op word p) cs := by
  refine fails_iff.mpr fun (e, rest) hread => ?_
  obtain ⟨es, hes, hend, -⟩ := (connected_ok_iff op hne hsound).mp hread
  cases hes with
  | one h' =>
    cases hfirst.symm.trans h'
    rw [hend] at hkey
    cases hkey
  | more h' hkey' hes =>
    cases hfirst.symm.trans h'
    cases hkey.symm.trans hkey'
    exact fails_iff.mp h _ ((connected_ok_iff op hne hsound).mpr ⟨_, hes, hend, rfl⟩)

namespace Blocked

/-- The level of `and` is blocked with its operands. -/
theorem and_of_not (hsound : Sound inner) (h : Blocked connectives (notLevel inner) cs) :
    Blocked [['o', 'r']] (andLevel inner) cs := by
  have hnot := notLevel_sound hsound
  induction h with
  | fails h => exact .fails (h.connected .and _)
  | stops h hrest =>
    have hend := hrest.keyword?_eq_none (w := ['a', 'n', 'd']) (by decide) (by simp)
    exact .stops (connected_one .and (by simp) hnot h hend) hrest
  | more h hword hkey _ ih =>
    simp only [connectives, List.mem_cons, List.not_mem_nil, or_false] at hword
    obtain rfl | rfl := hword
    · cases ih with
      | fails hfails => exact .fails (connected_more_fails .and (by simp) hnot h hkey hfails)
      | stops hread hrest =>
        obtain ⟨e', he'⟩ := connected_more .and (by simp) hnot h hkey hread
        exact .stops he' hrest
      | more hread hword hnext hafter =>
        obtain ⟨e', he'⟩ := connected_more .and (by simp) hnot h hkey hread
        exact .more he' hword hnext hafter
    · have hend := keyword?_and_eq_none hkey
      exact .more (connected_one .and (by simp) hnot h hend) (by simp) hkey ih

/-- Blocked text is not read to its end. -/
theorem orLevel (hsound : Sound inner) (h : Blocked connectives (notLevel inner) cs) :
    Fails (orLevel inner) cs ∨ ∃ e rest, orLevel inner cs = .ok (e, rest) ∧ Jammed rest := by
  have hand := andLevel_sound hsound
  have hblocked := h.and_of_not hsound
  clear h
  induction hblocked with
  | fails h => exact .inl (h.connected .or _)
  | stops h hrest =>
    have hend := hrest.keyword?_eq_none (w := ['o', 'r']) (by decide) (by simp)
    exact .inr ⟨_, _, connected_one .or (by simp) hand h hend, hrest⟩
  | more h hword hkey _ ih =>
    obtain rfl := List.mem_singleton.mp hword
    obtain hfails | ⟨e, rest, hread, hrest⟩ := ih
    · exact .inl (connected_more_fails .or (by simp) hand h hkey hfails)
    · obtain ⟨e', he'⟩ := connected_more .or (by simp) hand h hkey hread
      exact .inr ⟨e', rest, he', hrest⟩

/-- Text is blocked that starts with alternatives, if it is where their last operand is read. -/
theorem of_alternatives {ds : List (List Expr)} (hds : Alternatives p ds cs rest)
    (h : ∀ e cs, Reads p e cs rest → Blocked connectives p cs) : Blocked connectives p cs := by
  have hconjuncts {es : List Expr} {cs mid : List Char} (hes : Conjuncts p es cs mid)
      (h : ∀ e cs, Reads p e cs mid → Blocked connectives p cs) : Blocked connectives p cs := by
    induction hes with
    | one hread => exact h _ _ hread
    | more hread hkey _ ih => exact .more hread (by simp [connectives]) hkey (ih h)
  induction hds with
  | one hes => exact hconjuncts hes h
  | more hes hkey _ ih =>
    exact hconjuncts hes fun e cs hread => .more hread (by simp [connectives]) hkey (ih h)

end Blocked

end BlockedText

end PathQuery.Expr
