import PathQuery.Proofs.Expr.Failure

/-!
Reading goes the same way when soft text follows. A level that stops within its text stops at the
same place then, so what an operand is read as does not depend on the connectives and brackets
around it.
-/

namespace PathQuery.Expr

/-! ### Chains -/

/-- What `p` reads, `q` reads when `t` follows. The rest may not start with a parenthesis, which may
be that of a call whose arguments could not be read, and has to satisfy `A`. -/
def Extends {α : Type} (t : List Char) (A : List Char → Prop) (p q : Parser α) : Prop :=
  ∀ cs x rest, p cs = .ok (x, rest) → rest.head? ≠ some '(' → A rest →
    q (cs ++ t) = .ok (x, rest ++ t)

theorem ne_nil_of_read {p : Parser Expr} (hp : Sound p) {cs rest : List Char} {e : Expr}
    (h : p cs = .ok (e, rest)) : cs ≠ [] := by
  rintro rfl
  exact absurd (hp.proper h).2 (by simp)

section Chains

variable {t : List Char} {A : List Char → Prop} {β γ : Type}
  {op? : List Char → Option (β × List Char)} {operand operand' : Parser Expr}
  {extend : γ → β → Expr → γ}

/-- Without an operator the loop ends where it is, with `t` behind it or not. -/
theorem chainLoop_stay
    (happend : ∀ cs, cs ≠ [] → op? (cs ++ t) = (op? cs).map fun (op, rest) => (op, rest ++ t))
    {m : Nat} {acc : γ} {cs : List Char} (hnone : op? (skipGap cs) = none)
    (hend : skipGap cs = [] → op? (skipGap t) = none) :
    chainLoop op? operand extend m acc (cs ++ t) = .ok (acc, cs ++ t) := by
  cases m with
  | zero => rfl
  | succ m =>
    have hnone' : op? (skipGap (cs ++ t)) = none := by
      by_cases hcs : skipGap cs = []
      · rw [skipGap_append_of_nil hcs, hend hcs]
      · rw [skipGap_append hcs, happend _ hcs, hnone]
        rfl
    simp only [chainLoop, hnone']

/-- A loop that reads on behind `t` as before. The place where it starts is one that its first
operand may end at. -/
theorem chainLoop_extends (hsound : Sound operand)
    (hop : ∀ cs op rest, op? cs = some (op, rest) → ProperEnd rest cs)
    (hopen : ∀ cs, op? ('(' :: cs) = none)
    (happend : ∀ cs, cs ≠ [] → op? (cs ++ t) = (op? cs).map fun (op, rest) => (op, rest ++ t))
    (hA : ∀ cs op rest, op? (skipGap cs) = some (op, rest) → A cs)
    (hextends : Extends t A operand operand')
    {n m : Nat} {acc res : γ} {cs rest : List Char} (hn : cs.length ≤ n) (hm : cs.length ≤ m)
    (hloop : chainLoop op? operand extend n acc cs = .ok (res, rest))
    (hrest : rest.head? ≠ some '(') (hArest : A rest)
    (hend : skipGap rest = [] → op? (skipGap t) = none) :
    chainLoop op? operand' extend m acc (cs ++ t) = .ok (res, rest ++ t) ∧
      cs.head? ≠ some '(' ∧ A cs := by
  induction n generalizing m acc cs with
  | zero =>
    obtain rfl : cs = [] := List.eq_nil_of_length_eq_zero (Nat.le_zero.mp hn)
    cases hloop
    have hnone : op? (skipGap []) = none := by
      cases h : op? (skipGap []) with
      | none => rfl
      | some found => exact absurd (hop _ _ _ h).2 (by simp [skipGap])
    exact ⟨chainLoop_stay happend hnone hend, hrest, hArest⟩
  | succ n ih =>
    unfold chainLoop at hloop
    cases hfound : op? (skipGap cs) with
    | none =>
      simp only [hfound] at hloop
      cases hloop
      exact ⟨chainLoop_stay happend hfound hend, hrest, hArest⟩
    | some found =>
      obtain ⟨op, after⟩ := found
      simp only [hfound] at hloop
      cases hread : operand (skipGap after) with
      | error stuck => simp [hread] at hloop
      | ok reply =>
        obtain ⟨x, mid⟩ := reply
        simp only [hread] at hloop
        have hproper : ProperEnd (skipGap after) cs :=
          .of_suffix (skipGap_suffix after) ((hop _ _ _ hfound).suffix_trans (skipGap_suffix cs))
        have hmid := (hsound.proper hread).2
        have hlength := hproper.2
        obtain ⟨m, rfl⟩ : ∃ k, m = k + 1 := ⟨m - 1, by omega⟩
        obtain ⟨hloop', hopen', hAmid⟩ := ih (m := m) (by omega) (by omega) hloop
        have hskip : skipGap cs ≠ [] := by
          intro hnil
          rw [hnil] at hfound
          exact absurd (hop _ _ _ hfound).2 (by simp)
        have hafter := ne_nil_of_read hsound hread
        refine ⟨?_, ?_, hA _ _ _ hfound⟩
        · unfold chainLoop
          rw [skipGap_append hskip, happend _ hskip, hfound]
          simp only [Option.map_some]
          rw [skipGap_append hafter, hextends _ _ _ hread hopen' hAmid]
          exact hloop'
        · intro hhead
          obtain ⟨cs', rfl⟩ := List.head?_eq_some_iff.mp hhead
          rw [skipGap_cons_of_not (by decide), hopen] at hfound
          cases hfound

end Chains

section Levels

variable {t : List Char} {operand operand' : Parser Expr}

/-- Nothing is asked of the rest. -/
abbrev Anywhere (_ : List Char) : Prop := True

/-- Something stands in the rest that is not a gap. -/
abbrev Inside (rest : List Char) : Prop := skipGap rest ≠ []

theorem leftward_extends {op? : List Char → Option (BinaryOp × List Char)}
    (hsound : Sound operand)
    (hop : ∀ cs op rest, op? cs = some (op, rest) → ProperEnd rest cs)
    (hopen : ∀ cs, op? ('(' :: cs) = none)
    (happend : ∀ cs, cs ≠ [] → op? (cs ++ t) = (op? cs).map fun (op, rest) => (op, rest ++ t))
    (hend : op? (skipGap t) = none) (h : Extends t Anywhere operand operand') :
    Extends t Anywhere (leftward op? operand) (leftward op? operand') := by
  intro cs e rest hread hrest _
  unfold leftward at hread ⊢
  cases hfirst : operand cs with
  | error stuck => simp [hfirst] at hread
  | ok reply =>
    obtain ⟨first, mid⟩ := reply
    simp only [hfirst] at hread
    obtain ⟨hloop, hmid, _⟩ := chainLoop_extends hsound hop hopen happend (fun _ _ _ _ => trivial) h
      (le_refl mid.length) (by simp : mid.length ≤ (mid ++ t).length) hread hrest trivial
      fun _ => hend
    rw [h cs first mid hfirst hmid trivial]
    exact hloop

theorem link_open {word : List Char} (hword : word.all Char.isLower) (hne : word ≠ [])
    (cs : List Char) : link word ('(' :: cs) = none := by
  rw [link, keyword?_cons_eq_none hword hne (by decide)]
  rfl

theorem link_append {word : List Char} (hword : word.all Char.isLower)
    (ht : ∀ c ∈ t.head?, isStop c) (cs : List Char) :
    link word (cs ++ t) = (link word cs).map fun (u, rest) => (u, rest ++ t) := by
  unfold link
  rw [keyword?_append hword ht]
  cases keyword? word cs <;> rfl

theorem inside_of_link {word : List Char} (hne : word ≠ []) (cs : List Char) (u : Unit)
    (rest : List Char) (h : link word (skipGap cs) = some (u, rest)) : Inside cs := by
  intro hnil
  rw [hnil] at h
  exact absurd (link_proper hne _ _ _ h).2 (by simp)

/-- A connective is looked for behind the last operand too, so the rest has to hold something. -/
theorem connected_extends (op : Connective) {word : List Char} (hword : word.all Char.isLower)
    (hne : word ≠ []) (ht : ∀ c ∈ t.head?, isStop c) {A : List Char → Prop}
    (hA : ∀ rest, Inside rest → A rest) (hsound : Sound operand)
    (h : Extends t A operand operand') :
    Extends t Inside (connected op word operand) (connected op word operand') := by
  intro cs e rest hread hrest hinside
  rw [connected_eq] at hread ⊢
  cases hfirst : operand cs with
  | error stuck =>
    rw [hfirst] at hread
    cases hread
  | ok reply =>
    obtain ⟨first, mid⟩ := reply
    rw [hfirst] at hread
    simp only [Except.bind] at hread
    cases hloop : moreOperands word operand mid.length [first] mid with
    | error stuck =>
      rw [hloop] at hread
      cases hread
    | ok reply =>
      obtain ⟨operands, after⟩ := reply
      rw [hloop] at hread
      cases hread
      obtain ⟨hloop', hmid, hAmid⟩ := chainLoop_extends hsound (link_proper hne)
        (link_open hword hne) (fun cs _ => link_append hword ht cs)
        (fun cs u rest hlink => hA cs (inside_of_link hne cs u rest hlink)) h
        (le_refl mid.length) (by simp : mid.length ≤ (mid ++ t).length) hloop hrest
        (hA _ hinside) fun hnil => absurd hnil hinside
      rw [h cs first mid hfirst hmid hAmid]
      simp only [Except.bind, hloop']
      rfl

theorem comparison_extends (ht : Soft t) (hsound : Sound operand)
    (h : Extends t Anywhere operand operand') :
    Extends t Anywhere (comparison operand) (comparison operand') := by
  intro cs e rest hread hrest _
  unfold comparison at hread ⊢
  cases hleft : operand cs with
  | error stuck => simp [hleft] at hread
  | ok reply =>
    obtain ⟨left, mid⟩ := reply
    simp only [hleft] at hread
    cases hop : compareOp? (skipGap mid) with
    | none =>
      simp only [hop] at hread
      cases hread
      have hnone : compareOp? (skipGap (rest ++ t)) = none := by
        by_cases hgap : skipGap rest = []
        · rw [skipGap_append_of_nil hgap, ht.compareOp?_eq_none]
        · rw [skipGap_append hgap, compareOp?_append ht hgap, hop]
          rfl
      rw [h cs e rest hleft hrest trivial]
      simp only [hnone]
    | some found =>
      obtain ⟨op, after⟩ := found
      simp only [hop] at hread
      cases hright : operand (skipGap after) with
      | error stuck => simp [hright] at hread
      | ok reply =>
        obtain ⟨right, last⟩ := reply
        simp only [hright] at hread
        cases hread
        have hmid : skipGap mid ≠ [] := by
          intro hnil
          rw [hnil] at hop
          cases hop
        have hopen : mid.head? ≠ some '(' := by
          intro hhead
          obtain ⟨mid', rfl⟩ := List.head?_eq_some_iff.mp hhead
          rw [skipGap_cons_of_not (by decide)] at hop
          simp [compareOp?, wordOp?, keywords?, keyword?, dropWord?] at hop
        have hafter := ne_nil_of_read hsound hright
        rw [h cs left mid hleft hopen trivial]
        simp only [skipGap_append hmid, compareOp?_append ht hmid, hop, Option.map_some,
          skipGap_append hafter]
        rw [h _ right rest hright hrest trivial]

theorem sign?_append {cs : List Char} (h : cs ≠ []) (t : List Char) :
    sign? (cs ++ t) = (sign? cs).map fun (op, rest) => (op, rest ++ t) := by
  obtain ⟨c, cs, rfl⟩ := List.exists_cons_of_ne_nil h
  unfold sign?
  rw [List.cons_append]
  split <;> simp_all

theorem signs_extends (hsound : Sound operand) (h : Extends t Anywhere operand operand')
    {n m : Nat} {cs rest : List Char} {e : Expr} (hn : cs.length ≤ n) (hm : cs.length ≤ m)
    (hread : signs operand n cs = .ok (e, rest)) (hrest : rest.head? ≠ some '(') :
    signs operand' m (cs ++ t) = .ok (e, rest ++ t) := by
  have hcs := ne_nil_of_read (signs_sound hsound n) hread
  have hpos := List.length_pos_iff.mpr hcs
  induction n generalizing m cs e with
  | zero => omega
  | succ n ih =>
    obtain ⟨m, rfl⟩ : ∃ k, m = k + 1 := ⟨m - 1, by omega⟩
    unfold signs at hread ⊢
    rw [sign?_append hcs]
    cases hs : sign? cs with
    | none =>
      simp only [hs] at hread
      exact h cs e rest hread hrest trivial
    | some found =>
      obtain ⟨op, after⟩ := found
      simp only [hs] at hread
      cases hinner : signs operand n (skipGap after) with
      | error stuck => simp [hinner] at hread
      | ok reply =>
        obtain ⟨x, last⟩ := reply
        simp only [hinner] at hread
        cases hread
        have hafter := ne_nil_of_read (signs_sound hsound n) hinner
        have hlength := (ProperEnd.of_suffix (skipGap_suffix after) (sign?_proper hs)).2
        have hrec := ih (m := m) (by omega) (by omega) hinner hafter
          (List.length_pos_iff.mpr hafter)
        simp only [Option.map_some, skipGap_append hafter, hrec]

/-- An operand never starts with `not`, so the word is one or the parse fails. -/
theorem negated_extends (hsound : Sound operand) (h : Extends t Anywhere operand operand')
    (ht : ∀ c ∈ t.head?, isStop c)
    (hnot : ∀ cs rest, keyword? ['n', 'o', 't'] cs = some rest → ∀ reply, operand cs ≠ .ok reply)
    {n m : Nat} {cs rest : List Char} {e : Expr} (hn : cs.length ≤ n) (hm : cs.length ≤ m)
    (hread : negated operand n cs = .ok (e, rest)) (hrest : rest.head? ≠ some '(') :
    negated operand' m (cs ++ t) = .ok (e, rest ++ t) := by
  have hcs := ne_nil_of_read (negated_sound hsound n) hread
  have hpos := List.length_pos_iff.mpr hcs
  induction n generalizing m cs e with
  | zero => omega
  | succ n ih =>
    obtain ⟨m, rfl⟩ : ∃ k, m = k + 1 := ⟨m - 1, by omega⟩
    unfold negated at hread ⊢
    rw [keyword?_append (by decide) ht]
    cases hk : keyword? ['n', 'o', 't'] cs with
    | none =>
      simp only [hk] at hread
      exact h cs e rest hread hrest trivial
    | some after =>
      simp only [hk] at hread
      cases hinner : negated operand n (skipGap after) with
      | error stuck =>
        simp only [hinner] at hread
        exact absurd hread (hnot cs after hk _)
      | ok reply =>
        obtain ⟨x, last⟩ := reply
        simp only [hinner] at hread
        cases hread
        have hafter := ne_nil_of_read (negated_sound hsound n) hinner
        have hlength := (ProperEnd.of_suffix (skipGap_suffix after)
          (keyword?_proper (by simp) hk)).2
        have hrec := ih (m := m) (by omega) (by omega) hinner hafter
          (List.length_pos_iff.mpr hafter)
        simp only [Option.map_some, skipGap_append hafter, hrec]

end Levels

/-! ### Brackets -/

section Brackets

variable {t : List Char} {inner inner' : Parser Expr} {close : Char}

theorem closing?_some_iff {cs rest : List Char} :
    closing? close cs = some rest ↔ skipGap cs = close :: rest := by
  unfold closing?
  split
  · next c after hcs =>
    rw [hcs]
    split
    · next hc =>
      rw [beq_iff_eq] at hc
      simp [hc]
    · next hc =>
      rw [beq_iff_eq] at hc
      simp [hc]
  · next hcs => simp [hcs]

theorem closing?_extends {cs rest : List Char} (h : closing? close cs = some rest) :
    closing? close (cs ++ t) = some (rest ++ t) := by
  rw [closing?_some_iff] at h ⊢
  rw [skipGap_append (by simp [h]), h, List.cons_append]

theorem trailingComma_stop {cs : List Char} (h : ∀ rest, skipGap cs = ',' :: rest → False) :
    trailingComma cs = (false, cs) := by
  unfold trailingComma
  split
  · next rest hrest => exact (h rest hrest).elim
  · rfl

/-- The end of a sequence: maybe a comma, and the closing bracket. -/
theorem trailingComma_closing {cs after : List Char}
    (h : closing? close (trailingComma cs).2 = some after) :
    (∃ rest, skipGap cs = ',' :: rest ∧ trailingComma cs = (true, rest) ∧
      skipGap rest = close :: after) ∨
    (trailingComma cs = (false, cs) ∧ skipGap cs = close :: after) := by
  rw [closing?_some_iff] at h
  by_cases hcomma : ∃ rest, skipGap cs = ',' :: rest
  · obtain ⟨rest, hrest⟩ := hcomma
    have htrailing : trailingComma cs = (true, rest) := by simp [trailingComma, hrest]
    rw [htrailing] at h
    exact .inl ⟨rest, hrest, htrailing, h⟩
  · have htrailing := trailingComma_stop fun rest hrest => hcomma ⟨rest, hrest⟩
    rw [htrailing] at h
    exact .inr ⟨htrailing, h⟩

theorem trailingComma_extends (hclose : close ≠ ',') {cs after : List Char}
    (h : closing? close (trailingComma cs).2 = some after) :
    trailingComma (cs ++ t) = ((trailingComma cs).1, (trailingComma cs).2 ++ t) := by
  rcases trailingComma_closing h with ⟨rest, hcs, htrailing, _⟩ | ⟨htrailing, hcs⟩
  · rw [htrailing]
    simp [trailingComma, skipGap_append (by simp [hcs] : skipGap cs ≠ []), hcs]
  · rw [htrailing]
    simp [trailingComma, skipGap_append (by simp [hcs] : skipGap cs ≠ []), hcs, hclose]

/-- Where a bracket is closed, the items before it end at a comma or at the bracket. -/
theorem skipGap_of_closed {n : Nat} {items : List Expr} {cs after : List Char}
    (h : closing? close (trailingComma (moreItems inner n items cs).2).2 = some after) :
    ∃ c rest, skipGap cs = c :: rest ∧ (c = ',' ∨ c = close) := by
  have stays {cs : List Char} (h : closing? close (trailingComma cs).2 = some after) :
      ∃ c rest, skipGap cs = c :: rest ∧ (c = ',' ∨ c = close) := by
    rcases trailingComma_closing h with ⟨rest, hcs, _⟩ | ⟨_, hcs⟩
    · exact ⟨_, _, hcs, .inl rfl⟩
    · exact ⟨_, _, hcs, .inr rfl⟩
  cases n with
  | zero => exact stays h
  | succ n =>
    unfold moreItems at h
    split at h
    · next rest hcs => exact ⟨_, _, hcs, .inl rfl⟩
    · exact stays h

theorem moreItems_stop (n : Nat) (items : List Expr) {cs : List Char}
    (h : ∀ rest, skipGap cs = ',' :: rest → False) : moreItems inner n items cs = (items, cs) := by
  cases n with
  | zero => rfl
  | succ n => simp [moreItems]

theorem sequence_one {cs rest : List Char} {e : Expr} (hread : inner cs = .ok (e, rest))
    (h : ∀ after, skipGap rest = ',' :: after → False) :
    sequence inner cs = (([e], false), rest) := by
  unfold sequence
  simp only [hread, moreItems_stop _ _ h, trailingComma_stop h]

theorem sequence_empty {cs : List Char} (hfails : Fails inner cs)
    (h : ∀ after, skipGap cs = ',' :: after → False) :
    sequence inner cs = (([], false), cs) := by
  obtain ⟨stuck, hstuck⟩ := hfails
  unfold sequence
  simp only [hstuck, trailingComma_stop h]

theorem inside_of_skipGap {cs rest : List Char} {c : Char} (h : skipGap cs = c :: rest) :
    Inside cs := by
  simp [Inside, h]

theorem head?_ne_of_skipGap {cs rest : List Char} {c : Char} (h : skipGap cs = c :: rest)
    (hc : c ≠ '(') : cs.head? ≠ some '(' := by
  intro hhead
  obtain ⟨cs', rfl⟩ := List.head?_eq_some_iff.mp hhead
  rw [skipGap_cons_of_not (by decide), List.cons.injEq] at h
  exact hc h.1.symm

/-- An opening bracket that is closed has something after it. -/
theorem skipGap_ne_nil_of_closed (hsound : Sound inner) {cs after : List Char}
    (hclosed : closing? close (sequence inner (skipGap cs)).2 = some after) : skipGap cs ≠ [] := by
  intro hnil
  rw [hnil] at hclosed
  have hread : ∀ reply, inner [] ≠ .ok reply := by
    rintro ⟨e, rest⟩ h
    exact absurd rfl (ne_nil_of_read hsound h)
  cases hinner : inner [] with
  | ok reply => exact hread reply hinner
  | error stuck =>
    simp only [sequence, hinner] at hclosed
    cases hclosed

variable (hsound : Sound inner) (hextends : Extends t Inside inner inner')
  (hfail : ∀ c cs, isDead c → Fails inner' (c :: cs)) (hclose : close = ')' ∨ close = ']')

include hsound hextends hfail hclose

theorem moreItems_extends {n m : Nat} {items : List Expr} {cs after : List Char}
    (hn : cs.length ≤ n) (hm : cs.length ≤ m)
    (hclosed : closing? close (trailingComma (moreItems inner n items cs).2).2 = some after) :
    moreItems inner' m items (cs ++ t) =
      ((moreItems inner n items cs).1, (moreItems inner n items cs).2 ++ t) := by
  have hcomma : close ≠ ',' := by rcases hclose with rfl | rfl <;> decide
  have hparen (c : Char) (hc : c = ',' ∨ c = close) : c ≠ '(' := by
    rcases hclose with rfl | rfl <;> rcases hc with rfl | rfl <;> decide
  induction n generalizing m items cs with
  | zero =>
    obtain rfl : cs = [] := List.eq_nil_of_length_eq_zero (Nat.le_zero.mp hn)
    obtain ⟨c, rest, hcs, _⟩ := skipGap_of_closed hclosed
    cases hcs
  | succ n ih =>
    obtain ⟨c, rest, hcs, hc⟩ := skipGap_of_closed hclosed
    have hskip := skipGap_append (inside_of_skipGap hcs) t
    have hlength : rest.length < cs.length := by
      have := (skipGap_suffix cs).length_le
      rw [hcs, List.length_cons] at this
      omega
    by_cases hcc : c = ','
    · subst hcc
      obtain ⟨m, rfl⟩ : ∃ k, m = k + 1 := ⟨m - 1, by omega⟩
      unfold moreItems at hclosed ⊢
      rw [hskip]
      simp only [hcs, List.cons_append] at hclosed ⊢
      cases hread : inner (skipGap rest) with
      | ok reply =>
        obtain ⟨e, mid⟩ := reply
        simp only [hread] at hclosed ⊢
        obtain ⟨d, last, hmid, hd⟩ := skipGap_of_closed hclosed
        have hmidlength : mid.length < rest.length :=
          Nat.lt_of_lt_of_le (hsound.proper hread).2 (skipGap_suffix rest).length_le
        have hread' := hextends _ e mid hread (head?_ne_of_skipGap hmid (hparen d hd))
          (inside_of_skipGap hmid)
        rw [skipGap_append (ne_nil_of_read hsound hread), hread']
        exact ih (by omega) (by omega) hclosed
      | error stuck =>
        simp only [hread] at hclosed ⊢
        rcases trailingComma_closing hclosed with ⟨rest', hcs', _, hrest⟩ | ⟨_, hcs'⟩
        · rw [hcs] at hcs'
          cases hcs'
          obtain ⟨stuck', hstuck⟩ := hfail close (after ++ t) (isDead_of_close hclose)
          rw [skipGap_append (inside_of_skipGap hrest), hrest, List.cons_append, hstuck]
        · rw [hcs, List.cons.injEq] at hcs'
          exact absurd hcs'.1.symm hcomma
    · have hstop (ds : List Char) (rest' : List Char) : c :: ds = ',' :: rest' → False := by
        intro h
        exact hcc (List.cons.inj h).1
      rw [moreItems_stop m items (by rw [hskip, hcs]; exact hstop _),
        moreItems_stop (n + 1) items (by rw [hcs]; exact hstop _)]

theorem sequence_extends {cs after : List Char} (hcs : skipGap cs = cs)
    (hclosed : closing? close (sequence inner cs).2 = some after) :
    sequence inner' (cs ++ t) = ((sequence inner cs).1, (sequence inner cs).2 ++ t) := by
  have hcomma : close ≠ ',' := by rcases hclose with rfl | rfl <;> decide
  unfold sequence at hclosed ⊢
  cases hread : inner cs with
  | ok reply =>
    obtain ⟨e, mid⟩ := reply
    simp only [hread] at hclosed ⊢
    obtain ⟨c, last, hmid, hc⟩ := skipGap_of_closed hclosed
    have hparen : c ≠ '(' := by
      rcases hclose with rfl | rfl <;> rcases hc with rfl | rfl <;> decide
    have hread' := hextends cs e mid hread (head?_ne_of_skipGap hmid hparen)
      (inside_of_skipGap hmid)
    have hmore := moreItems_extends hsound hextends hfail hclose (le_refl mid.length)
      (by simp : mid.length ≤ (mid ++ t).length) hclosed
    simp only [hread', hmore, trailingComma_extends hcomma hclosed]
  | error stuck =>
    simp only [hread] at hclosed ⊢
    obtain ⟨stuck', hstuck⟩ : Fails inner' (cs ++ t) := by
      rcases trailingComma_closing hclosed with ⟨rest, hrest, _⟩ | ⟨_, hrest⟩
      · rw [hcs] at hrest
        rw [hrest]
        exact hfail _ _ rfl
      · rw [hcs] at hrest
        rw [hrest]
        exact hfail _ _ (isDead_of_close hclose)
    simp only [hstuck, trailingComma_extends hcomma hclosed]

end Brackets

section Primary

/-- What the items between parentheses are read as. -/
def bracketed : List Expr × Bool → Expr
  | ([e], false) => e
  | (items, _) => .tuple items

theorem grouped?_eq (inner : Parser Expr) (cs : List Char) :
    grouped? inner cs = (closing? ')' (sequence inner (skipGap cs)).2).map
      fun rest => (bracketed (sequence inner (skipGap cs)).1, rest) := by
  unfold grouped?
  generalize sequence inner (skipGap cs) = body
  match body with
  | (([], _), _) => rfl
  | (([_], false), _) => rfl
  | (([_], true), _) => rfl
  | ((_ :: _ :: _, _), _) => rfl

theorem listed?_eq (inner : Parser Expr) (cs : List Char) :
    listed? inner cs = (closing? ']' (sequence inner (skipGap cs)).2).map
      fun rest => (.list (sequence inner (skipGap cs)).1.1, rest) :=
  rfl

theorem arguments?_eq (inner : Parser Expr) {cs : List Char}
    (h : ∀ rest, skipGap cs = '*' :: rest → False) :
    arguments? inner ('(' :: cs) = (closing? ')' (sequence inner (skipGap cs)).2).map
      fun rest => ((sequence inner (skipGap cs)).1.1, rest) := by
  rw [arguments?]
  split
  · next rest hrest => exact (h rest hrest).elim
  · rfl

theorem arguments?_eq_none (inner : Parser Expr) {cs : List Char}
    (h : ∀ rest, cs = '(' :: rest → False) : arguments? inner cs = none :=
  arguments?.eq_2 inner cs h

variable {t : List Char} {inner inner' : Parser Expr} (hsound : Sound inner)
  (hextends : Extends t Inside inner inner')
  (hfail : ∀ c cs, isDead c → Fails inner' (c :: cs))

include hsound hextends hfail

theorem sequence_extends_skipGap {close : Char} (hclose : close = ')' ∨ close = ']')
    {cs after : List Char} (hclosed : closing? close (sequence inner (skipGap cs)).2 = some after) :
    sequence inner' (skipGap (cs ++ t)) =
      ((sequence inner (skipGap cs)).1, (sequence inner (skipGap cs)).2 ++ t) := by
  rw [skipGap_append (skipGap_ne_nil_of_closed hsound hclosed)]
  exact sequence_extends hsound hextends hfail hclose (List.dropWhile_idempotent _ _) hclosed

theorem grouped?_extends {cs rest : List Char} {e : Expr}
    (h : grouped? inner cs = some (e, rest)) : grouped? inner' (cs ++ t) = some (e, rest ++ t) := by
  rw [grouped?_eq] at h ⊢
  obtain ⟨after, hclosed, hreply⟩ := Option.map_eq_some_iff.mp h
  cases hreply
  rw [sequence_extends_skipGap hsound hextends hfail (.inl rfl) hclosed, closing?_extends hclosed]
  rfl

theorem listed?_extends {cs rest : List Char} {e : Expr}
    (h : listed? inner cs = some (e, rest)) : listed? inner' (cs ++ t) = some (e, rest ++ t) := by
  rw [listed?_eq] at h ⊢
  obtain ⟨after, hclosed, hreply⟩ := Option.map_eq_some_iff.mp h
  cases hreply
  rw [sequence_extends_skipGap hsound hextends hfail (.inr rfl) hclosed, closing?_extends hclosed]
  rfl

theorem arguments?_extends {cs rest : List Char} {args : List Expr}
    (h : arguments? inner cs = some (args, rest)) :
    arguments? inner' (cs ++ t) = some (args, rest ++ t) := by
  cases cs with
  | nil => cases h
  | cons c cs =>
    by_cases hc : c = '('
    · subst hc
      by_cases hstar : ∃ after, skipGap cs = '*' :: after
      · obtain ⟨after, hafter⟩ := hstar
        have hskip := skipGap_append (inside_of_skipGap hafter) t
        simp only [arguments?, hafter] at h
        obtain ⟨_, hclosed, hreply⟩ := Option.map_eq_some_iff.mp h
        cases hreply
        simp only [List.cons_append, arguments?, hskip, hafter, closing?_extends hclosed,
          Option.map_some]
      · have hno : ∀ after, skipGap cs = '*' :: after → False := fun after h => hstar ⟨after, h⟩
        rw [arguments?_eq inner hno] at h
        obtain ⟨_, hclosed, hreply⟩ := Option.map_eq_some_iff.mp h
        cases hreply
        have hskip := skipGap_ne_nil_of_closed hsound hclosed
        have hno' : ∀ after, skipGap (cs ++ t) = '*' :: after → False := by
          intro after hafter
          obtain ⟨d, ds, hds⟩ := List.exists_cons_of_ne_nil hskip
          rw [skipGap_append hskip, hds, List.cons_append, List.cons.injEq] at hafter
          exact hno ds (by rw [hds, hafter.1])
        rw [List.cons_append, arguments?_eq inner' hno',
          sequence_extends_skipGap hsound hextends hfail (.inl rfl) hclosed,
          closing?_extends hclosed]
        rfl
    · simp [arguments?, hc] at h

theorem named_extends (ht : ∀ c ∈ t.head?, isStop c) :
    Extends t Anywhere (named inner) (named inner') := by
  intro cs e rest hread hrest _
  unfold named at hread ⊢
  rw [name?_append ht]
  cases hname : name? cs with
  | none => simp [hname] at hread
  | some found =>
    obtain ⟨name, after⟩ := found
    simp only [hname, Option.map_some] at hread ⊢
    cases hargs : arguments? inner after with
    | some reply =>
      obtain ⟨args, last⟩ := reply
      simp only [hargs] at hread
      cases hread
      rw [arguments?_extends hsound hextends hfail hargs]
    | none =>
      simp only [hargs] at hread
      cases hread
      have hopen : ∀ cs, after = '(' :: cs → False := by
        rintro cs rfl
        rw [segments_stop _ (by simp)] at hrest
        exact hrest rfl
      rw [arguments?_eq_none inner' (append_ne_cons (by decide) ht hopen)]
      simp only [segments_append ht (le_refl after.length)
        (by simp : after.length ≤ (after ++ t).length)]

theorem primary_extends (ht : ∀ c ∈ t.head?, isStop c) :
    Extends t Anywhere (primary inner) (primary inner') := by
  have quoted {q : Char} (hq : isStop q = false) {cs rest : List Char} {e : Expr}
      (h : (quotedText? q cs).map (fun reply => (ofQuoted reply.1, reply.2)) = some (e, rest)) :
      (quotedText? q (cs ++ t)).map (fun reply => (ofQuoted reply.1, reply.2)) =
        some (e, rest ++ t) := by
    obtain ⟨⟨text, _⟩, htext, hreply⟩ := Option.map_eq_some_iff.mp h
    cases hreply
    rw [quotedText?_extends hq ht htext]
    rfl
  intro cs e rest hread hrest _
  obtain ⟨c, cs, rfl⟩ := List.exists_cons_of_ne_nil (ne_nil_of_read (primary_sound hsound) hread)
  rw [List.cons_append]
  by_cases hc : c ∈ ['(', '[', '\x7b', '\'', '"']
  · simp only [List.mem_cons, List.not_mem_nil, or_false] at hc
    rcases hc with rfl | rfl | rfl | rfl | rfl
    · exact orStuck_ok_iff.mpr (grouped?_extends hsound hextends hfail (orStuck_ok_iff.mp hread))
    · exact orStuck_ok_iff.mpr (listed?_extends hsound hextends hfail (orStuck_ok_iff.mp hread))
    · obtain ⟨⟨name, _⟩, hname, hreply⟩ := Option.map_eq_some_iff.mp (orStuck_ok_iff.mp hread)
      cases hreply
      obtain ⟨hbraced, rfl⟩ := braced?_some hname
      refine orStuck_ok_iff.mpr ?_
      rw [List.append_assoc, List.cons_append, braced?_append hbraced]
      rfl
    · exact orStuck_ok_iff.mpr (quoted (by decide) (orStuck_ok_iff.mp hread))
    · exact orStuck_ok_iff.mpr (quoted (by decide) (orStuck_ok_iff.mp hread))
  · rw [primary_plain inner hc] at hread
    rw [primary_plain inner' hc, ← List.cons_append]
    by_cases hdigit : c.isDigit
    · rw [if_pos hdigit] at hread ⊢
      cases hread
      rw [numberText_append ht, List.drop_append_of_le_length (numberText_starts _).length_le]
    · rw [if_neg hdigit] at hread ⊢
      rw [constant?_append ht]
      cases hconstant : constant? (c :: cs) with
      | some reply =>
        simp only [hconstant] at hread
        cases hread
        rfl
      | none =>
        simp only [hconstant] at hread
        exact named_extends hsound hextends hfail ht _ _ _ hread hrest trivial

end Primary

/-! ### Whole expressions -/

section Whole

variable {t : List Char} {inner inner' : Parser Expr} (ht : Soft t) (hsound : Sound inner)
  (hextends : Extends t Inside inner inner')
  (hfail : ∀ c cs, isDead c → Fails inner' (c :: cs))

include ht hsound hextends hfail

theorem comparisonLevel_extends :
    Extends t Anywhere (comparisonLevel inner) (comparisonLevel inner') := by
  have hsigned : Extends t Anywhere (signedLevel inner) (signedLevel inner') :=
    fun cs _ _ hread hrest _ => signs_extends (primary_sound hsound)
      (primary_extends hsound hextends hfail ht.stop) (le_refl cs.length) (by simp) hread hrest
  have hproduct : Extends t Anywhere (productLevel inner) (productLevel inner') :=
    leftward_extends (signedLevel_sound hsound) (fun _ _ _ => productOp?_proper) (fun _ => rfl)
      (fun _ hcs => productOp?_append hcs t) ht.productOp?_eq_none hsigned
  have hsum : Extends t Anywhere (sumLevel inner) (sumLevel inner') :=
    leftward_extends (productLevel_sound hsound) (fun _ _ _ => sumOp?_proper) (fun _ => rfl)
      (fun _ hcs => sumOp?_append hcs t) ht.sumOp?_eq_none hproduct
  exact comparison_extends ht (sumLevel_sound hsound) hsum

theorem notLevel_extends : Extends t Anywhere (notLevel inner) (notLevel inner') := by
  have hnot (cs rest : List Char) (h : keyword? ['n', 'o', 't'] cs = some rest)
      (reply : Expr × List Char) : comparisonLevel inner cs ≠ .ok reply := by
    obtain ⟨stuck, hfails⟩ : Fails (comparisonLevel inner) cs := comparisonLevel_fails_of_not h
    rw [hfails]
    exact nofun
  exact fun cs _ _ hread hrest _ => negated_extends (comparisonLevel_sound hsound)
    (comparisonLevel_extends ht hsound hextends hfail) ht.stop hnot (le_refl cs.length) (by simp)
    hread hrest

theorem orLevel_extends : Extends t Inside (orLevel inner) (orLevel inner') := by
  have hand : Extends t Inside (andLevel inner) (andLevel inner') :=
    connected_extends .and (by decide) (by simp) ht.stop (fun _ _ => trivial)
      (notLevel_sound hsound) (notLevel_extends ht hsound hextends hfail)
  exact connected_extends .or (by decide) (by simp) ht.stop (fun _ h => h)
    (andLevel_sound hsound) hand

end Whole

/-- A deeper bound reads the same, and soft text behind it changes nothing. -/
theorem exprAt_extends {t : List Char} (ht : Soft t) {n m : Nat} (hnm : n ≤ m) :
    Extends t Inside (exprAt n) (exprAt m) := by
  induction n generalizing m with
  | zero => exact fun cs e rest hread => by cases hread
  | succ n ih =>
    obtain ⟨m, rfl⟩ : ∃ k, m = k + 1 := ⟨m - 1, by omega⟩
    exact orLevel_extends ht (exprAt_sound n) (ih (by omega)) fun _ cs hc => exprAt_fails m hc cs

theorem operand_extends {t : List Char} (ht : Soft t) {n m : Nat} (hnm : n ≤ m) :
    Extends t Anywhere (notLevel (exprAt n)) (notLevel (exprAt m)) :=
  notLevel_extends ht (exprAt_sound n) (exprAt_extends ht hnm) fun _ cs hc => exprAt_fails m hc cs

end PathQuery.Expr
