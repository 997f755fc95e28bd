import PathQuery.Proofs.Expr.Print

/-!
Reading inverts printing. An expression that stands where its tier is wanted is read by the level
of that tier, whatever follows that no operator of the level starts; a looser one stands in
parentheses there, and a tighter one is read by the levels in between as their only operand. Sums
and products group from the left, so for them the reading is stated as a loop that goes on.
-/

namespace PathQuery.Expr

/-! ### Levels -/

/-- The level that reads the expressions of a tier. -/
def levelAt (inner : Parser Expr) : Nat → Parser Expr
  | 0 => orLevel inner
  | 1 => andLevel inner
  | 2 => notLevel inner
  | 3 => comparisonLevel inner
  | 4 => sumLevel inner
  | 5 => productLevel inner
  | 6 => signedLevel inner
  | _ => primary inner

/-- The text can stand behind an expression of the tier `n`: no token runs into it, and no operator
of this tier or a tighter one starts it. -/
structure After (n : Nat) (t : List Char) : Prop where
  ends : Ends t
  product : n ≤ 5 → productOp? (skipGap t) = none
  sum : n ≤ 4 → sumOp? (skipGap t) = none
  comparison : n ≤ 3 → compareOp? (skipGap t) = none
  conjunction : n ≤ 1 → keyword? ['a', 'n', 'd'] (skipGap t) = none
  disjunction : n = 0 → keyword? ['o', 'r'] (skipGap t) = none

variable {inner : Parser Expr} {cs t : List Char} {e : Expr} {m n k : Nat}

theorem After.mono (h : After n t) (hnk : n ≤ k) : After k t :=
  ⟨h.ends, fun hk => h.product (by omega), fun hk => h.sum (by omega),
    fun hk => h.comparison (by omega), fun hk => h.conjunction (by omega),
    fun hk => h.disjunction (by omega)⟩

theorem after_nil : After 0 [] :=
  ⟨by simp [Ends], fun _ => rfl, fun _ => rfl, fun _ => rfl, fun _ => rfl, fun _ => rfl⟩

theorem after_closed {c : Char} (hc : c = ',' ∨ c = ')' ∨ c = ']') (t : List Char) :
    After 0 (c :: t) := by
  have hskip : skipGap (c :: t) = c :: t := by
    obtain rfl | rfl | rfl := hc <;> exact skipGap_cons_of_not (by decide) t
  constructor
  · intro d hd
    obtain rfl : c = d := by simpa using hd
    obtain rfl | rfl | rfl := hc <;> rfl
  all_goals
    intro _
    rw [hskip]
    obtain rfl | rfl | rfl := hc <;> rfl

theorem leftward_one {op? : List Char → Option (BinaryOp × List Char)} {operand : Parser Expr}
    (hop : op? (skipGap t) = none) (hread : operand cs = .ok (e, t)) :
    leftward op? operand cs = .ok (e, t) := by
  simp only [leftward, hread]
  cases t with
  | nil => rfl
  | cons d t => simp only [List.length_cons, chainLoop, hop]

theorem keyword?_not_eq_none (h : comparisonLevel inner cs = .ok (e, t)) :
    keyword? ['n', 'o', 't'] cs = none := by
  cases hkey : keyword? ['n', 'o', 't'] cs with
  | none => rfl
  | some rest =>
    have hfails : Fails (comparisonLevel inner) cs := comparisonLevel_fails_of_not hkey
    obtain ⟨stuck, hstuck⟩ := hfails
    rw [hstuck] at h
    cases h

theorem sign?_eq_none (h : primary inner cs = .ok (e, t)) : sign? cs = none := by
  have fails (c : Char) (hc : c = '-' ∨ c = '+') (rest : List Char) : cs ≠ c :: rest := by
    rintro rfl
    have hfails : Fails (primary inner) (c :: rest) := by
      obtain rfl | rfl := hc <;>
        exact primary_fails (by decide) (by decide) (by rfl) (by simp [name?, spelled, isNameStart])
    obtain ⟨stuck, hstuck⟩ := hfails
    rw [hstuck] at h
    cases h
  unfold sign?
  split
  · exact absurd rfl (fails '-' (.inl rfl) _)
  · exact absurd rfl (fails '+' (.inr rfl) _)
  · rfl

/-- What a level reads is also the only operand that the next looser level reads. -/
theorem levelAt_looser (hsound : Sound inner) (hn : n < 7) (ht : After n t)
    (h : levelAt inner (n + 1) cs = .ok (e, t)) : levelAt inner n cs = .ok (e, t) := by
  match n, hn with
  | 0, _ =>
    exact (connected_ok_iff .or (by simp) (andLevel_sound hsound)).mpr
      ⟨[e], .one h, ht.disjunction rfl, rfl⟩
  | 1, _ =>
    exact (connected_ok_iff .and (by simp) (notLevel_sound hsound)).mpr
      ⟨[e], .one h, ht.conjunction (by omega), rfl⟩
  | 2, _ =>
    exact (negated_of_none (keyword?_not_eq_none h) _).trans h
  | 3, _ =>
    have hsum : sumLevel inner cs = .ok (e, t) := h
    simp [levelAt, comparisonLevel, Expr.comparison, hsum, ht.comparison]
  | 4, _ => exact leftward_one (ht.sum (by omega)) h
  | 5, _ => exact leftward_one (ht.product (by omega)) h
  | 6, _ => exact (signs_of_none (sign?_eq_none h) _).trans h

theorem levelAt_of_le (hsound : Sound inner) (hnk : n ≤ k) (hk : k ≤ 7) (ht : After n t)
    (h : levelAt inner k cs = .ok (e, t)) : levelAt inner n cs = .ok (e, t) := by
  induction hnk using Nat.decreasingInduction with
  | self => exact h
  | of_succ i hi ih => exact levelAt_looser hsound (by omega) ht (ih (ht.mono (by omega)))

/-! ### Expressions that are read back -/

/-- The expression is read back from its text, whatever can stand behind it. -/
structure ReadsBack (e : Expr) : Prop where
  solid : Solid (chars e)
  reads : ∀ m t, (chars e).length ≤ m → After e.tier t →
    levelAt (exprAt m) e.tier (chars e ++ t) = .ok (e, t)

theorem primary_enclosed (h : inner (cs ++ ')' :: t) = .ok (e, ')' :: t)) (hcs : Solid cs) :
    primary inner ('(' :: (cs ++ ')' :: t)) = .ok (e, t) := by
  have hclose : skipGap (')' :: t) = ')' :: t := skipGap_cons_of_not (by decide) t
  have hsequence := sequence_one h (by simp [hclose])
  refine orStuck_ok_iff.mpr ?_
  rw [grouped?_eq, hcs.skipGap, hsequence, closing?_some_iff.mpr hclose]
  rfl

namespace ReadsBack

theorem solid_charsAt (h : ReadsBack e) (n : Nat) : Solid (charsAt n e) :=
  h.solid.enclosed _

theorem exprAt (h : ReadsBack e) (hm : (chars e).length < m) (ht : After 0 t) :
    exprAt m (chars e ++ t) = .ok (e, t) := by
  obtain ⟨m, rfl⟩ : ∃ k, m = k + 1 := ⟨m - 1, by omega⟩
  exact levelAt_of_le (exprAt_sound m) (Nat.zero_le _) (tier_le e) ht
    (h.reads m t (by omega) (ht.mono (Nat.zero_le _)))

/-- In any position an expression is read by the level that the position asks for. -/
theorem levelAt (h : ReadsBack e) (hn : n ≤ 7) (hm : (charsAt n e).length ≤ m) (ht : After n t) :
    levelAt (Expr.exprAt m) n (charsAt n e ++ t) = .ok (e, t) := by
  by_cases htier : n ≤ e.tier
  · rw [charsAt_of_le htier] at hm ⊢
    exact levelAt_of_le (exprAt_sound m) htier (tier_le e) ht (h.reads m t hm (ht.mono htier))
  · rw [charsAt_of_lt (by omega)] at hm ⊢
    simp only [List.length_append, List.length_cons, List.length_nil] at hm
    have hinner := h.exprAt (m := m) (by omega) (after_closed (.inr (.inl rfl)) t)
    have hprimary := primary_enclosed hinner h.solid
    have htext : '(' :: chars e ++ [')'] ++ t = '(' :: (chars e ++ ')' :: t) := by simp
    rw [htext]
    exact levelAt_of_le (exprAt_sound m) hn (Nat.le_refl 7) ht hprimary

end ReadsBack

/-! ### Sums and products -/

/-- The operators of a tier. -/
def opAt : Nat → List Char → Option (BinaryOp × List Char)
  | 4 => sumOp?
  | _ => productOp?

theorem opAt_symbol (op : BinaryOp) (cs : List Char) :
    opAt op.tier (op.symbol :: cs) = some (op, cs) := by
  cases op <;> rfl

/-- After `e`, reading goes on with further operators of the tier `k`. -/
def GoesOn (k : Nat) (e : Expr) : Prop :=
  ∀ m t, (charsAt k e).length ≤ m → After (k + 1) t → ∃ n, t.length ≤ n ∧
    levelAt (exprAt m) k (charsAt k e ++ t) =
      chainLoop (opAt k) (levelAt (exprAt m) (k + 1)) (fun left op right => .binary op left right)
        n e t

theorem levelAt_leftward (inner : Parser Expr) (hk : k = 4 ∨ k = 5) :
    levelAt inner k = leftward (opAt k) (levelAt inner (k + 1)) := by
  obtain rfl | rfl := hk <;> rfl

/-- An operand of a tighter tier, or in parentheses, is the first one. -/
theorem ReadsBack.goesOn (h : ReadsBack e) (hk : k = 4 ∨ k = 5) (htier : e.tier ≠ k) :
    GoesOn k e := by
  intro m t hm ht
  have hsame : charsAt k e = charsAt (k + 1) e := by
    by_cases hlt : e.tier < k
    · rw [charsAt_of_lt hlt, charsAt_of_lt (by omega)]
    · rw [charsAt_of_le (by omega), charsAt_of_le (by omega)]
  rw [hsame] at hm ⊢
  have hread := h.levelAt (by omega) hm ht
  refine ⟨t.length, Nat.le_refl _, ?_⟩
  rw [levelAt_leftward _ hk]
  simp only [leftward, hread]

theorem not_isGap_symbol (op : BinaryOp) : isGap op.symbol = false := by
  cases op <;> rfl

theorem skipGap_space (cs : List Char) : skipGap (' ' :: cs) = skipGap cs :=
  List.dropWhile_cons_of_pos rfl

theorem ends_space (cs : List Char) : Ends (' ' :: cs) := by
  intro c hc
  obtain rfl : ' ' = c := by simpa using hc
  rfl

/-- Behind an operand of the tier stands no tighter operator. -/
theorem after_symbol (op : BinaryOp) (cs : List Char) :
    After (op.tier + 1) (' ' :: op.symbol :: cs) := by
  have hskip : skipGap (' ' :: op.symbol :: cs) = op.symbol :: cs := by
    rw [skipGap_space, skipGap_cons_of_not (not_isGap_symbol op)]
  have hproduct (hle : op.tier + 1 ≤ 5) : productOp? (op.symbol :: cs) = none := by
    cases op with
    | add | sub => rfl
    | mul | div | mod => exact absurd hle (by decide)
  have htier : 4 ≤ op.tier := by cases op <;> decide
  rw [← hskip] at hproduct
  exact ⟨ends_space _, hproduct, by omega, by omega, by omega, by omega⟩

theorem GoesOn.binary {op : BinaryOp} {left right : Expr} (hl : GoesOn op.tier left)
    (hr : ReadsBack right) : GoesOn op.tier (.binary op left right) := by
  intro m t hm ht
  have htext : charsAt op.tier (.binary op left right) =
      charsAt op.tier left ++ ' ' :: op.symbol :: ' ' :: charsAt (op.tier + 1) right := by
    rw [charsAt_of_le (by simp [tier]), chars]
    rfl
  rw [htext] at hm ⊢
  simp only [List.length_append, List.length_cons] at hm
  obtain ⟨n, hn, hloop⟩ := hl m (' ' :: op.symbol :: ' ' :: (charsAt (op.tier + 1) right ++ t))
    (by omega) (after_symbol op _)
  have hread := hr.levelAt (m := m) (n := op.tier + 1) (by cases op <;> decide) (by omega) ht
  simp only [List.length_append, List.length_cons] at hn
  obtain ⟨n, rfl⟩ : ∃ k, n = k + 1 := ⟨n - 1, by omega⟩
  refine ⟨n, by omega, ?_⟩
  simp only [List.append_assoc, List.cons_append]
  rw [hloop, chainLoop, skipGap_space, skipGap_cons_of_not (not_isGap_symbol op), opAt_symbol]
  simp only [skipGap_space, (hr.solid_charsAt _).skipGap, hread]

theorem chainLoop_stop {α β γ : Type} {op? : List Char → Option (β × List Char)}
    {operand : Parser α} {extend : γ → β → α → γ} {acc : γ} (h : op? (skipGap t) = none) (n : Nat) :
    chainLoop op? operand extend n acc t = .ok (acc, t) := by
  cases n with
  | zero => rfl
  | succ n => simp only [chainLoop, h]

theorem opAt_after {op : BinaryOp} (ht : After op.tier t) : opAt op.tier (skipGap t) = none := by
  cases op with
  | add | sub => exact ht.sum (by decide)
  | mul | div | mod => exact ht.product (by decide)

theorem GoesOn.readsBack {op : BinaryOp} {left right : Expr}
    (h : GoesOn op.tier (.binary op left right)) (hl : ReadsBack left) (hr : ReadsBack right) :
    ReadsBack (.binary op left right) := by
  constructor
  · have hbetween := (hl.solid_charsAt op.tier).between [' ', op.symbol, ' ']
      (hr.solid_charsAt (op.tier + 1))
    rw [List.append_assoc] at hbetween
    rw [chars]
    exact hbetween
  · intro m t hm ht
    have htext : charsAt op.tier (.binary op left right) = chars (.binary op left right) :=
      charsAt_of_le (by simp [tier])
    obtain ⟨n, -, hloop⟩ := h m t (by rw [htext]; exact hm) (ht.mono (by simp [tier]))
    rw [htext] at hloop
    exact hloop.trans (chainLoop_stop (opAt_after ht) n)

/-! ### Items between brackets -/

/-- The items behind the first one, each after a comma. -/
def tailChars (es : List Expr) : List Char :=
  es.flatMap fun e => ',' :: ' ' :: chars e

theorem intercalate_eq (e : Expr) (es : List Expr) :
    [',', ' '].intercalate (charsAll 0 (e :: es)) = chars e ++ tailChars es := by
  induction es generalizing e with
  | nil => simp [charsAll, tailChars, enclosed]
  | cons e' es ih =>
    have hmore := ih e'
    rw [charsAll_eq] at hmore ⊢
    rw [List.map_cons, List.map_cons, List.intercalate_cons_cons, charsAt_zero]
    rw [List.map_cons] at hmore
    rw [hmore]
    simp [tailChars]

theorem after_tailChars (es : List Expr) (ht : After 0 t) : After 0 (tailChars es ++ t) := by
  cases es with
  | nil => exact ht
  | cons e es => exact after_closed (.inl rfl) _

/-- Items are read one after the other, up to where no further item follows. -/
theorem moreItems_print {es : List Expr} (hes : ∀ e ∈ es, ReadsBack e)
    (hm : ∀ e ∈ es, (chars e).length < m) (ht : After 0 t)
    (hstop : ∀ n items, moreItems (exprAt m) n items t = (items, t)) (items : List Expr)
    (hn : es.length ≤ n) : moreItems (exprAt m) n items (tailChars es ++ t) = (items ++ es, t) := by
  induction es generalizing items n with
  | nil => simpa [tailChars] using hstop n items
  | cons e es ih =>
    obtain ⟨n, rfl⟩ : ∃ k, n = k + 1 := ⟨n - 1, by simp at hn; omega⟩
    have he := hes e (by simp)
    have hread := he.exprAt (hm e (by simp)) (after_tailChars es ht)
    have htext : tailChars (e :: es) ++ t = ',' :: ' ' :: (chars e ++ (tailChars es ++ t)) := by
      simp [tailChars]
    have hmore := ih (fun x hx => hes x (List.mem_cons_of_mem e hx))
      (fun x hx => hm x (List.mem_cons_of_mem e hx)) (items ++ [e]) (n := n)
      (by simp at hn; omega)
    rw [htext, moreItems, skipGap_cons_of_not (by decide)]
    simp only [skipGap_space, he.solid.skipGap, hread, hmore, List.append_assoc,
      List.singleton_append]

theorem length_le_tailChars (es : List Expr) : es.length ≤ (tailChars es).length := by
  induction es with
  | nil => exact Nat.le_refl 0
  | cons e es ih =>
    simp only [tailChars, List.flatMap_cons, List.length_append, List.length_cons] at ih ⊢
    omega

theorem skipGap_close {close : Char} (hclose : close = ')' ∨ close = ']') (t : List Char) :
    skipGap (close :: t) = close :: t := by
  obtain rfl | rfl := hclose <;> exact skipGap_cons_of_not (by decide) t

theorem moreItems_closed {close : Char} (hclose : close = ')' ∨ close = ']') (t : List Char)
    (n : Nat) (items : List Expr) :
    moreItems (exprAt m) n items (close :: t) = (items, close :: t) := by
  refine moreItems_stop n items ?_
  rw [skipGap_close hclose]
  obtain rfl | rfl := hclose <;> simp

/-- A comma right before the closing parenthesis is left where it is. -/
theorem moreItems_comma (t : List Char) (n : Nat) (items : List Expr) :
    moreItems (exprAt m) n items (',' :: ')' :: t) = (items, ',' :: ')' :: t) := by
  cases n with
  | zero => rfl
  | succ n =>
    obtain ⟨stuck, hstuck⟩ := exprAt_fails m (c := ')') rfl t
    rw [moreItems, skipGap_cons_of_not (by decide)]
    simp only [skipGap_cons_of_not (by decide : isGap ')' = false), hstuck]

theorem length_chars_le_of_mem {es : List Expr} (he : e ∈ es) :
    (chars e).length ≤ ([',', ' '].intercalate (charsAll 0 es)).length := by
  cases es with
  | nil => cases he
  | cons e' es =>
    rw [intercalate_eq, List.length_append]
    rcases List.mem_cons.mp he with rfl | he
    · omega
    · have hmem : chars e <:+: tailChars es := by
        obtain ⟨before, after, rfl⟩ := List.append_of_mem he
        refine ⟨tailChars before ++ [',', ' '], tailChars after, ?_⟩
        simp [tailChars]
      have := hmem.length_le
      omega

/-- Items and what closes them. -/
theorem sequence_print {es : List Expr} (hes : ∀ e ∈ es, ReadsBack e)
    (hm : ([',', ' '].intercalate (charsAll 0 es)).length < m) {close : Char}
    (hclose : close = ')' ∨ close = ']') (t : List Char) :
    sequence (exprAt m) ([',', ' '].intercalate (charsAll 0 es) ++ close :: t) =
      ((es, false), close :: t) := by
  have hcomma : ∀ rest, skipGap (close :: t) = ',' :: rest → False := by
    rw [skipGap_close hclose]
    obtain rfl | rfl := hclose <;> simp
  cases es with
  | nil =>
    exact sequence_empty (exprAt_fails m (isDead_of_close hclose) t) hcomma
  | cons e es =>
    have hbound (x : Expr) (hx : x ∈ e :: es) : (chars x).length < m := by
      have := length_chars_le_of_mem hx
      omega
    have hafter : After 0 (close :: t) := after_closed (.inr hclose) t
    have hread := (hes e (by simp)).exprAt (hbound e (by simp)) (after_tailChars es hafter)
    have hlength := length_le_tailChars es
    have hmore := moreItems_print (fun x hx => hes x (List.mem_cons_of_mem e hx))
      (fun x hx => hbound x (List.mem_cons_of_mem e hx)) hafter (moreItems_closed hclose t) [e]
      (n := (tailChars es ++ close :: t).length) (by simp; omega)
    rw [intercalate_eq, List.append_assoc]
    simp only [sequence, hread, hmore, trailingComma_stop hcomma, List.singleton_append]

theorem sequence_print_one (h : ReadsBack e) (hm : (chars e).length < m) (t : List Char) :
    sequence (exprAt m) (chars e ++ ',' :: ')' :: t) = (([e], true), ')' :: t) := by
  have hread := h.exprAt hm (after_closed (.inl rfl) (')' :: t))
  have htrailing : trailingComma (',' :: ')' :: t) = (true, ')' :: t) := by
    simp [trailingComma, skipGap_cons_of_not (by decide : isGap ',' = false)]
  simp only [sequence, hread, moreItems_comma, htrailing]

/-- Items start as an operand does, and without items the bracket is closed at once. -/
theorem skipGap_items {es : List Expr} (hes : ∀ e ∈ es, ReadsBack e) {close : Char}
    (hclose : close = ')' ∨ close = ']') (t : List Char) :
    skipGap ([',', ' '].intercalate (charsAll 0 es) ++ close :: t) =
      [',', ' '].intercalate (charsAll 0 es) ++ close :: t ∧
    ∀ rest, [',', ' '].intercalate (charsAll 0 es) ++ close :: t ≠ '*' :: rest := by
  cases es with
  | nil =>
    obtain rfl | rfl := hclose <;>
      exact ⟨skipGap_cons_of_not (by decide) t, by simp [charsAll]⟩
  | cons e es =>
    obtain ⟨c, rest, hcs, hdead, hstar⟩ := (hes e (by simp)).solid.starts
    rw [intercalate_eq, hcs]
    exact ⟨skipGap_cons_of_not (isGap_of_not_isDead hdead) _, by simp [hstar]⟩

/-! ### Every form -/

theorem Solid.of_isName {name : String} (h : IsName name) : Solid name.toList := by
  refine solid_of_all h.1 fun c hc => ?_
  have hrest := h.isNameRest c hc
  constructor
  · by_contra hdead
    have hends : Ends [c] := by
      intro d hd
      obtain rfl : c = d := by simpa using hd
      simpa using hdead
    rw [hends.isNameRest c rfl] at hrest
    cases hrest
  · rintro rfl
    cases hrest

/-- The rest of a path starts with a point, or is what follows it. -/
theorem head?_segments (names : List String) {p : Char → Bool} (hdot : p '.' = false)
    (ht : ∀ c ∈ t.head?, p c = false) :
    ∀ c ∈ (names.flatMap (fun name => '.' :: name.toList) ++ t).head?, p c = false := by
  cases names with
  | nil => exact ht
  | cons name names =>
    intro c hc
    obtain rfl : '.' = c := by simpa using hc
    exact hdot

theorem length_le_segments (names : List String) :
    names.length ≤ (names.flatMap fun name => '.' :: name.toList).length := by
  induction names with
  | nil => exact Nat.le_refl 0
  | cons name names ih =>
    simp only [List.flatMap_cons, List.length_append, List.length_cons]
    omega

/-- Where a name stands, neither a bracket, nor a quote, nor a digit, nor a constant does. -/
theorem primary_of_isName {name : String} (h : IsName name)
    (ht : ∀ c ∈ t.head?, Text.isNameChar c = false) (inner : Parser Expr) :
    primary inner (name.toList ++ t) = named inner (name.toList ++ t) := by
  have hconstant := constant?_of_isName h ht
  obtain ⟨c, cs, hcs, hc, -⟩ := h.exists_cons
  have hplain : c ∉ ['(', '[', '\x7b', '\'', '"'] := by
    intro hmem
    simp only [List.mem_cons, List.not_mem_nil, or_false] at hmem
    obtain rfl | rfl | rfl | rfl | rfl := hmem <;> cases hc
  rw [hcs, List.cons_append] at hconstant ⊢
  rw [primary_plain inner hplain, not_isDigit_of_isNameStart hc, hconstant]
  rfl

theorem readsBack_path {head : String} {rest : List String} (hhead : IsName head)
    (hrest : ∀ name ∈ rest, IsName name) : ReadsBack (.path head rest) := by
  constructor
  · rw [chars]
    rcases List.eq_nil_or_concat rest with rfl | ⟨before, last, rfl⟩
    · simpa using Solid.of_isName hhead
    · have hlast := Solid.of_isName (hrest last (by simp))
      have hbetween := (Solid.of_isName hhead).between
        (before.flatMap (fun name => '.' :: name.toList) ++ ['.']) hlast
      simpa using hbetween
  · intro m t _ ht
    have hname := name?_append_of_isName hhead
      (head?_segments rest (by decide) ht.ends.isNameRest)
    have hopen : ∀ after, rest.flatMap (fun name => '.' :: name.toList) ++ t = '(' :: after →
        False := by
      intro after heq
      have hparen := head?_segments rest (p := (· == '(')) (by decide)
        (ht.ends.not_class (by decide) (by decide) (by decide)) '(' (by rw [heq]; rfl)
      cases hparen
    have hlength := length_le_segments rest
    have hsegments := segments_print hrest ht.ends
      (n := (rest.flatMap (fun name => '.' :: name.toList) ++ t).length)
      (by rw [List.length_append]; omega)
    rw [chars, List.append_assoc]
    refine (primary_of_isName hhead
      (head?_segments rest (by decide) ht.ends.isNameChar) (exprAt m)).trans ?_
    simp only [named, hname, arguments?_eq_none _ hopen, hsegments, String.ofList_toList]

theorem readsBack_number {text : String} (h : IsNumber text.toList) :
    ReadsBack (.number text) := by
  obtain ⟨whole, part, power, htext, hwhole, hpart, hpower⟩ := id h
  have hsolid {ds : List Char} (hds : IsDigits ds) : Solid ds := by
    refine solid_of_all hds.1 fun c hc => ?_
    have hdigit := hds.2 c hc
    constructor
    · by_contra hdead
      have hends : Ends [c] := by simpa [Ends] using hdead
      rw [hends.isDigit c rfl] at hdigit
      cases hdigit
    · rintro rfl
      cases hdigit
  constructor
  · rw [chars, htext]
    rcases hpower with rfl | ⟨mark, sign, ds, rfl, -, -, hds⟩
    · rcases hpart with rfl | ⟨ds, rfl, hds⟩
      · simpa using hsolid hwhole
      · simpa using (hsolid hwhole).between ['.'] (hsolid hds)
    · simpa using (hsolid hwhole).between (part ++ mark :: sign) (hsolid hds)
  · intro m t _ ht
    have hnumber := numberText_append_of_isNumber h ht.ends
    obtain ⟨c, cs, hcs⟩ := List.exists_cons_of_ne_nil hwhole.1
    have hc : c.isDigit := hwhole.2 c (by simp [hcs])
    have hplain : c ∉ ['(', '[', '\x7b', '\'', '"'] := by
      intro hmem
      simp only [List.mem_cons, List.not_mem_nil, or_false] at hmem
      obtain rfl | rfl | rfl | rfl | rfl := hmem <;> cases hc
    obtain ⟨rest, hrest⟩ : ∃ rest, text.toList = c :: rest := ⟨_, by rw [htext, hcs]; rfl⟩
    rw [chars]
    rw [hrest, List.cons_append] at hnumber ⊢
    refine (primary_plain (exprAt m) hplain _).trans ?_
    rw [if_pos hc, hnumber, ← hrest, String.ofList_toList, ← List.cons_append, ← hrest,
      List.drop_left]

theorem readsBack_str {text : String}
    (h : ∀ name, IsBracedName name → text.toList ≠ '\x7b' :: name ++ ['\x7d']) :
    ReadsBack (.str text) := by
  constructor
  · exact solid_bracketed (by decide) (by decide) (by decide) _
  · intro m t _ ht
    have htext : chars (.str text) ++ t = '\'' :: (escaped text.toList ++ '\'' :: t) := by
      simp [chars]
    rw [htext]
    refine orStuck_ok_iff.mpr ?_
    simp only [quotedText?_escaped _ ht.ends, Option.map_some, ofQuoted_of_readable h]

theorem readsBack_constant {c : Char} (htier : e.tier = 7) (hsolid : Solid (chars e))
    (hcs : chars e = c :: cs) (hplain : c ∉ ['(', '[', '\x7b', '\'', '"'])
    (hdigit : c.isDigit = false)
    (hread : ∀ t, (∀ c ∈ t.head?, Text.isNameChar c = false) →
      constant? (chars e ++ t) = some (e, t)) : ReadsBack e := by
  refine ⟨hsolid, ?_⟩
  intro m t _ ht
  have hconstant := hread t ht.ends.isNameChar
  rw [htier]
  rw [hcs, List.cons_append] at hconstant ⊢
  refine (primary_plain (exprAt m) hplain _).trans ?_
  rw [hdigit, hconstant]
  rfl

/-- A keyword that no character of a longer name follows. -/
theorem keyword?_append_of_dropWord? {word text : List Char} (h : dropWord? word text = some [])
    (ht : ∀ c ∈ t.head?, Text.isNameChar c = false) : keyword? word (text ++ t) = some t := by
  have hdrop : dropWord? word (text ++ t) = some t := by
    induction word generalizing text with
    | nil =>
      cases h
      rfl
    | cons a word ih =>
      cases text with
      | nil => cases h
      | cons c text =>
        simp only [List.cons_append, dropWord?] at h ⊢
        split at h
        · next hc => rw [if_pos hc, ih h]
        · cases h
  unfold keyword?
  rw [hdrop]
  cases t with
  | nil => rfl
  | cons c t => simp [ht c rfl]

theorem readsBack_bool (b : Bool) : ReadsBack (.bool b) := by
  cases b with
  | true =>
    refine readsBack_constant rfl
      ⟨⟨'t', _, rfl, by decide, by decide⟩, ⟨['t', 'r', 'u'], 'e', rfl, by decide⟩⟩ rfl
      (by decide) (by decide) ?_
    intro t ht
    have htrue : keyword? ['t', 'r', 'u', 'e'] (chars (.bool true) ++ t) = some t :=
      keyword?_append_of_dropWord? (by decide) ht
    rw [constant?, htrue]
  | false =>
    refine readsBack_constant rfl
      ⟨⟨'f', _, rfl, by decide, by decide⟩, ⟨['f', 'a', 'l', 's'], 'e', rfl, by decide⟩⟩ rfl
      (by decide) (by decide) ?_
    intro t ht
    have htrue : keyword? ['t', 'r', 'u', 'e'] (chars (.bool false) ++ t) = none := rfl
    have hfalse : keyword? ['f', 'a', 'l', 's', 'e'] (chars (.bool false) ++ t) = some t :=
      keyword?_append_of_dropWord? (by decide) ht
    rw [constant?, htrue, hfalse]

theorem readsBack_null : ReadsBack .null := by
  refine readsBack_constant rfl
    ⟨⟨'n', _, rfl, by decide, by decide⟩, ⟨['n', 'u', 'l'], 'l', rfl, by decide⟩⟩ rfl
    (by decide) (by decide) ?_
  intro t ht
  have htrue : keyword? ['t', 'r', 'u', 'e'] (chars .null ++ t) = none := rfl
  have hfalse : keyword? ['f', 'a', 'l', 's', 'e'] (chars .null ++ t) = none := rfl
  have hnone : keyword? ['n', 'o', 'n', 'e'] (chars .null ++ t) = none := rfl
  have hnull : keyword? ['n', 'u', 'l', 'l'] (chars .null ++ t) = some t :=
    keyword?_append_of_dropWord? (by decide) ht
  rw [constant?, htrue, hfalse, hnone, hnull]
  rfl

theorem readsBack_placeholder {name : String} (h : IsBracedName name.toList) :
    ReadsBack (.placeholder name) := by
  constructor
  · exact solid_bracketed (by decide) (by decide) (by decide) _
  · intro m t _ ht
    have htext : chars (.placeholder name) ++ t = '\x7b' :: (name.toList ++ '\x7d' :: t) := by
      simp [chars]
    rw [htext]
    refine orStuck_ok_iff.mpr ?_
    simp only [braced?_append h, Option.map_some, String.ofList_toList]

/-- A call is read back if its arguments are. -/
theorem readsBack_of_arguments {name : String} {args : List Expr} (hname : IsName name)
    (hargs : ∀ m t, ([',', ' '].intercalate (charsAll 0 args)).length < m →
      arguments? (exprAt m) ('(' :: ([',', ' '].intercalate (charsAll 0 args) ++ ')' :: t)) =
        some (args, t)) : ReadsBack (.call name args) := by
  constructor
  · rw [chars]
    obtain ⟨c, cs, hcs, hdead⟩ := (Solid.of_isName hname).starts
    rw [hcs]
    exact ⟨⟨c, _, rfl, hdead⟩, ⟨_, ')', rfl, by decide⟩⟩
  · intro m t hm ht
    simp only [chars, List.length_append, List.length_cons, List.length_nil] at hm
    have htext : chars (.call name args) ++ t = name.toList ++ '(' ::
        ([',', ' '].intercalate (charsAll 0 args) ++ ')' :: t) := by simp [chars]
    have hopen {p : Char → Bool} (hp : p '(' = false) (cs : List Char) :
        ∀ c ∈ ('(' :: cs).head?, p c = false := by simpa using hp
    have hfound := name?_append_of_isName hname (hopen (by decide)
      ([',', ' '].intercalate (charsAll 0 args) ++ ')' :: t))
    rw [htext]
    refine (primary_of_isName hname (hopen (by decide) _) (exprAt m)).trans ?_
    simp only [named, hfound, hargs m t (by omega), String.ofList_toList]

theorem readsBack_call {name : String} {args : List Expr} (hname : IsName name)
    (hargs : ∀ a ∈ args, ReadsBack a) : ReadsBack (.call name args) := by
  refine readsBack_of_arguments hname fun m t hm => ?_
  obtain ⟨hskip, hstar⟩ := skipGap_items hargs (.inl rfl) t
  rw [arguments?_eq (exprAt m) (by rw [hskip]; exact fun rest => hstar rest), hskip,
    sequence_print hargs hm (.inl rfl), closing?_some_iff.mpr (skipGap_close (.inl rfl) t)]
  rfl

theorem readsBack_callAll {name : String} (hname : IsName name) :
    ReadsBack (.call name [.star]) := by
  refine readsBack_of_arguments hname fun m t _ => ?_
  have hstar : skipGap ('*' :: ')' :: t) = '*' :: ')' :: t := skipGap_cons_of_not (by decide) _
  have hclosed : closing? ')' (')' :: t) = some t :=
    closing?_some_iff.mpr (skipGap_close (.inl rfl) t)
  simp [charsAll, chars, tier, enclosed, arguments?, hstar, hclosed]

theorem bracketed_of_length {items : List Expr} (h : items.length ≠ 1) :
    bracketed (items, false) = .tuple items := by
  match items, h with
  | [], _ => rfl
  | _ :: _ :: _, _ => rfl

/-- A tuple of one element keeps a comma, which tells it from an expression in parentheses. -/
theorem readsBack_tuple {items : List Expr} (h : ∀ e ∈ items, ReadsBack e) :
    ReadsBack (.tuple items) := by
  have hclosed (t : List Char) : closing? ')' (')' :: t) = some t :=
    closing?_some_iff.mpr (skipGap_close (.inl rfl) t)
  by_cases hone : items.length = 1
  · obtain ⟨e, rfl⟩ := List.length_eq_one_iff.mp hone
    have he := h e (by simp)
    have htext : chars (.tuple [e]) = '(' :: (chars e ++ [',']) ++ [')'] := by
      simp [chars, charsAll, enclosed]
    constructor
    · rw [htext]
      exact solid_bracketed (by decide) (by decide) (by decide) _
    · intro m t hm ht
      rw [htext] at hm ⊢
      simp only [List.length_append, List.length_cons, List.length_nil] at hm
      have hcs : '(' :: (chars e ++ [',']) ++ [')'] ++ t = '(' :: (chars e ++ ',' :: ')' :: t) := by
        simp
      rw [hcs]
      refine orStuck_ok_iff.mpr ?_
      rw [grouped?_eq, he.solid.skipGap, sequence_print_one he (by omega), hclosed]
      rfl
  · have htext : chars (.tuple items) =
        '(' :: [',', ' '].intercalate (charsAll 0 items) ++ [')'] := by simp [chars, hone]
    constructor
    · rw [htext]
      exact solid_bracketed (by decide) (by decide) (by decide) _
    · intro m t hm ht
      rw [htext] at hm ⊢
      simp only [List.length_append, List.length_cons, List.length_nil] at hm
      have hcs : '(' :: [',', ' '].intercalate (charsAll 0 items) ++ [')'] ++ t =
          '(' :: ([',', ' '].intercalate (charsAll 0 items) ++ ')' :: t) := by simp
      rw [hcs]
      refine orStuck_ok_iff.mpr ?_
      rw [grouped?_eq, (skipGap_items h (.inl rfl) t).1, sequence_print h (by omega) (.inl rfl),
        hclosed, bracketed_of_length hone]
      rfl

theorem readsBack_list {items : List Expr} (h : ∀ e ∈ items, ReadsBack e) :
    ReadsBack (.list items) := by
  constructor
  · exact solid_bracketed (by decide) (by decide) (by decide) _
  · intro m t hm ht
    simp only [chars, List.length_append, List.length_cons, List.length_nil] at hm
    have htext : chars (.list items) ++ t =
        '[' :: ([',', ' '].intercalate (charsAll 0 items) ++ ']' :: t) := by simp [chars]
    rw [htext]
    refine orStuck_ok_iff.mpr ?_
    rw [listed?_eq, (skipGap_items h (.inr rfl) t).1, sequence_print h (by omega) (.inr rfl),
      closing?_some_iff.mpr (skipGap_close (.inr rfl) t)]
    rfl

/-- A comparison is read back from its symbols; what follows `is` must not start with `not`. -/
theorem compareOp?_symbols (op : CompareOp) (hskip : skipGap cs = cs)
    (hnot : keyword? ['n', 'o', 't'] cs = none) :
    compareOp? (op.symbols ++ ' ' :: cs) = some (op, ' ' :: cs) := by
  have hword {word : List Char} (h : dropWord? word word = some []) (cs : List Char) :
      keyword? word (word ++ ' ' :: cs) = some (' ' :: cs) := by
    refine keyword?_append_of_dropWord? h fun c hc => ?_
    obtain rfl : ' ' = c := by simpa using hc
    decide
  have his (cs : List Char) : keyword? ['i', 's'] ('i' :: 's' :: ' ' :: cs) = some (' ' :: cs) :=
    hword (by decide) cs
  have hin : keyword? ['i', 'n'] ('i' :: 'n' :: ' ' :: cs) = some (' ' :: cs) :=
    hword (by decide) cs
  have hnotWord (cs : List Char) :
      keyword? ['n', 'o', 't'] ('n' :: 'o' :: 't' :: ' ' :: cs) = some (' ' :: cs) :=
    hword (by decide) cs
  have hgap (cs : List Char) : gap? (' ' :: cs) = some (skipGap cs) := rfl
  have hnext {c : Char} (hc : isGap c = false) (cs : List Char) : skipGap (c :: cs) = c :: cs :=
    skipGap_cons_of_not hc cs
  cases op with
  | eq | ne | lt | le | gt | ge => rfl
  | is => simp [CompareOp.symbols, compareOp?, wordOp?, keywords?, his, hgap, hskip, hnot]
  | isNot =>
    simp [CompareOp.symbols, compareOp?, wordOp?, keywords?, his, hgap,
      hnext (by decide : isGap 'n' = false), hnotWord]
  | isIn =>
    have hother : keyword? ['i', 's'] ('i' :: 'n' :: ' ' :: cs) = none := rfl
    have hother' : keyword? ['n', 'o', 't'] ('i' :: 'n' :: ' ' :: cs) = none := rfl
    simp [CompareOp.symbols, compareOp?, wordOp?, keywords?, hother, hother', hin]
  | notIn =>
    have hother (cs : List Char) : keyword? ['i', 's'] ('n' :: cs) = none := rfl
    simp [CompareOp.symbols, compareOp?, wordOp?, keywords?, hother, hnotWord, hgap,
      hnext (by decide : isGap 'i' = false), hin]

theorem skipGap_symbols (op : CompareOp) (cs : List Char) :
    skipGap (' ' :: op.symbols ++ ' ' :: cs) = op.symbols ++ ' ' :: cs := by
  cases op <;> rfl

theorem after_symbols (op : CompareOp) (cs : List Char) :
    After 4 (' ' :: op.symbols ++ ' ' :: cs) := by
  have hproduct : productOp? (op.symbols ++ ' ' :: cs) = none := by cases op <;> rfl
  have hsum : sumOp? (op.symbols ++ ' ' :: cs) = none := by cases op <;> rfl
  rw [← skipGap_symbols] at hproduct hsum
  exact ⟨ends_space _, fun _ => hproduct, fun _ => hsum, by omega, by omega, by omega⟩

theorem chars_compare (op : CompareOp) (left right : Expr) :
    chars (.compare op left right) =
      charsAt 4 left ++ (' ' :: op.symbols ++ [' ']) ++ charsAt 4 right := by
  simp [chars, charsAt]

theorem readsBack_compare (op : CompareOp) {left right : Expr} (hl : ReadsBack left)
    (hr : ReadsBack right) : ReadsBack (.compare op left right) := by
  constructor
  · rw [chars_compare]
    exact (hl.solid_charsAt 4).between _ (hr.solid_charsAt 4)
  · intro m t hm ht
    rw [chars_compare] at hm ⊢
    simp only [List.length_append, List.length_cons, List.length_nil] at hm
    have hcs : charsAt 4 left ++ (' ' :: op.symbols ++ [' ']) ++ charsAt 4 right ++ t =
        charsAt 4 left ++ (' ' :: op.symbols ++ ' ' :: (charsAt 4 right ++ t)) := by simp
    have hleft : sumLevel (exprAt m) _ = _ :=
      hl.levelAt (m := m) (n := 4) (by decide) (by omega)
        (after_symbols op (charsAt 4 right ++ t))
    have hright : sumLevel (exprAt m) (charsAt 4 right ++ t) = .ok (right, t) :=
      hr.levelAt (m := m) (n := 4) (by decide) (by omega) (ht.mono (by simp [tier]))
    have hnot := keyword?_not_eq_none
      (levelAt_looser (n := 3) (exprAt_sound m) (by decide) ht hright)
    have hskip := (hr.solid_charsAt 4).skipGap t
    have hop : compareOp? (skipGap (' ' :: op.symbols ++ ' ' :: (charsAt 4 right ++ t))) =
        some (op, ' ' :: (charsAt 4 right ++ t)) := by
      rw [skipGap_symbols, compareOp?_symbols op hskip hnot]
    rw [hcs]
    change comparison _ _ = _
    simp only [comparison, hleft, hop, skipGap_space, hskip, hright]

theorem after_separator (op : Connective) (cs : List Char) :
    After (op.tier + 1) (op.separator ++ cs) := by
  have hproduct : productOp? (op.word ++ ' ' :: cs) = none := by cases op <;> rfl
  have hsum : sumOp? (op.word ++ ' ' :: cs) = none := by cases op <;> rfl
  have hcompare : compareOp? (op.word ++ ' ' :: cs) = none := by cases op <;> rfl
  have hand (hle : op.tier + 1 ≤ 1) : keyword? ['a', 'n', 'd'] (op.word ++ ' ' :: cs) = none := by
    cases op with
    | and => exact absurd hle (by decide)
    | or => rfl
  rw [← skipGap_separator] at hproduct hsum hcompare hand
  exact ⟨ends_space _, fun _ => hproduct, fun _ => hsum, fun _ => hcompare, hand, by omega⟩

theorem linked_print (op : Connective) {es : List Expr} (hne : es ≠ [])
    (hes : ∀ e ∈ es, ReadsBack e)
    (hm : (op.separator.intercalate (charsAll (op.tier + 1) es)).length ≤ m)
    (ht : After (op.tier + 1) t) :
    Linked op.word (Reads (levelAt (exprAt m) (op.tier + 1))) es
      (op.separator.intercalate (charsAll (op.tier + 1) es) ++ t) t := by
  have htier : op.tier + 1 ≤ 7 := by cases op <;> decide
  induction es with
  | nil => exact absurd rfl hne
  | cons e es ih =>
    have he := hes e (by simp)
    cases es with
    | nil =>
      rw [charsAll_eq, List.map_singleton, List.intercalate_singleton] at hm ⊢
      exact .one (he.levelAt htier hm ht)
    | cons e' es =>
      rw [charsAll_eq, List.map_cons, List.map_cons, List.intercalate_cons_cons, ← List.map_cons,
        ← charsAll_eq] at hm ⊢
      simp only [List.length_append] at hm
      have hmore := ih (by simp) (fun x hx => hes x (List.mem_cons_of_mem e hx)) (by omega)
      have hsolid : Solid (op.separator.intercalate (charsAll (op.tier + 1) (e' :: es))) := by
        refine Solid.intercalate (by simp [charsAll]) ?_
        rw [charsAll_eq]
        intro part hpart
        obtain ⟨x, hx, rfl⟩ := List.mem_map.mp hpart
        exact (hes x (List.mem_cons_of_mem e hx)).solid_charsAt _
      simp only [List.append_assoc]
      refine .more (he.levelAt htier (by omega) (after_separator op _))
        (by rw [skipGap_separator]; exact keyword?_word op _) ?_
      rw [skipGap_space, hsolid.skipGap]
      exact hmore

theorem readsBack_logical (op : Connective) {operands : List Expr} (hlength : 2 ≤ operands.length)
    (h : ∀ e ∈ operands, ReadsBack e) : ReadsBack (.logical op operands) := by
  have hne : operands ≠ [] := by rintro rfl; simp at hlength
  constructor
  · rw [chars]
    refine Solid.intercalate ?_ ?_
    · rw [charsAll_eq]
      simpa using hne
    · rw [charsAll_eq]
      intro part hpart
      obtain ⟨x, hx, rfl⟩ := List.mem_map.mp hpart
      exact (h x hx).solid_charsAt _
  · intro m t hm ht
    rw [chars] at hm ⊢
    have hlinked := linked_print op hne h hm (ht.mono (Nat.le_succ _))
    have hgroup : Expr.logical op operands = group op operands := by
      match operands, hlength with
      | _ :: _ :: _, _ => rfl
    rw [tier] at ht ⊢
    cases op with
    | and =>
      exact (connected_ok_iff .and (by simp) (notLevel_sound (exprAt_sound m))).mpr
        ⟨operands, hlinked, ht.conjunction (by decide), hgroup⟩
    | or =>
      exact (connected_ok_iff .or (by simp) (andLevel_sound (exprAt_sound m))).mpr
        ⟨operands, hlinked, ht.disjunction rfl, hgroup⟩

theorem head?_ne_open (ht : Ends t) : t.head? ≠ some '(' := by
  intro hhead
  have hdead := ht '(' hhead
  cases hdead

/-- Reading without an additional text. -/
theorem extends_refl (p : Parser Expr) : Extends [] Anywhere p p := by
  intro cs x rest h _ _
  rw [List.append_nil, List.append_nil]
  exact h

theorem readsBack_not (h : ReadsBack e) : ReadsBack (.unary .not e) := by
  have htext : chars (.unary .not e) = 'n' :: 'o' :: 't' :: ' ' :: charsAt 2 e := by
    rw [chars]
    rfl
  have hsolid := h.solid_charsAt 2
  constructor
  · rw [htext]
    obtain ⟨rest, c, hrest, hc⟩ := hsolid.ends
    exact ⟨⟨'n', _, rfl, by decide, by decide⟩,
      ⟨'n' :: 'o' :: 't' :: ' ' :: rest, c, by simp [hrest], hc⟩⟩
  · intro m t hm ht
    rw [htext] at hm ⊢
    simp only [List.length_cons] at hm
    have hread : negated (comparisonLevel (exprAt m)) _ _ = _ :=
      h.levelAt (n := 2) (by decide) (by omega) ht
    have hkey : keyword? ['n', 'o', 't'] ('n' :: 'o' :: 't' :: ' ' :: (charsAt 2 e ++ t)) =
        some (' ' :: (charsAt 2 e ++ t)) := by
      have hblank : Text.isNameChar ' ' = false := by decide
      simp [keyword?, dropWord?, hblank]
    have hfails (cs rest : List Char) (hnot : keyword? ['n', 'o', 't'] cs = some rest)
        (reply : Expr × List Char) : comparisonLevel (exprAt m) cs ≠ .ok reply := by
      have hfails : Fails (comparisonLevel (exprAt m)) cs := comparisonLevel_fails_of_not hnot
      obtain ⟨stuck, hstuck⟩ := hfails
      simp [hstuck]
    have hmore {k : Nat} (hk : (charsAt 2 e ++ t).length ≤ k) :=
      negated_extends (comparisonLevel_sound (exprAt_sound m)) (extends_refl _) (by simp) hfails
        (Nat.le_refl _) hk hread (head?_ne_open ht.ends)
    simp only [List.append_nil] at hmore
    change negated _ _ ('n' :: 'o' :: 't' :: ' ' :: (charsAt 2 e ++ t)) = _
    rw [List.cons_append, List.length_cons, negated, hkey]
    simp only [skipGap_space, hsolid.skipGap]
    rw [hmore (by simp only [List.cons_append, List.length_cons]; omega)]

theorem readsBack_sign {op : UnaryOp} {sign : Char} (hop : ∀ cs, sign? (sign :: cs) = some (op, cs))
    (htier : (Expr.unary op e).tier = 6) (htext : chars (.unary op e) = sign :: charsAt 6 e)
    (hsign : isDead sign = false ∧ sign ≠ '*') (h : ReadsBack e) : ReadsBack (.unary op e) := by
  have hsolid := h.solid_charsAt 6
  constructor
  · rw [htext]
    exact hsolid.cons hsign.1 hsign.2
  · intro m t hm ht
    rw [htext] at hm ⊢
    rw [htier] at ht ⊢
    simp only [List.length_cons] at hm
    have hread : signs (primary (exprAt m)) _ _ = _ :=
      h.levelAt (n := 6) (by decide) (by omega) ht
    have hmore := signs_extends (primary_sound (exprAt_sound m)) (extends_refl _)
      (Nat.le_refl _) (Nat.le_refl _) hread (head?_ne_open ht.ends)
    rw [List.append_nil, List.append_nil] at hmore
    change signs _ _ _ = _
    simp only [List.cons_append, List.length_cons, signs, hop, hsolid.skipGap, hmore]

theorem readsBack_unary (op : UnaryOp) (h : ReadsBack e) : ReadsBack (.unary op e) := by
  cases op with
  | not => exact readsBack_not h
  | neg => exact readsBack_sign (fun _ => rfl) rfl (by rw [chars]; rfl) (by decide) h
  | pos => exact readsBack_sign (fun _ => rfl) rfl (by rw [chars]; rfl) (by decide) h

/-! ### The round trip -/

theorem ReadsBack.goesOn_tighter (h : ReadsBack e) (htier : e.tier ≠ 4 ∧ e.tier ≠ 5) :
    ReadsBack e ∧ GoesOn 4 e ∧ GoesOn 5 e :=
  ⟨h, h.goesOn (.inl rfl) htier.1, h.goesOn (.inr rfl) htier.2⟩

theorem Readable.readsBack (h : Readable e) : ReadsBack e ∧ GoesOn 4 e ∧ GoesOn 5 e := by
  induction h with
  | path hhead hrest => exact (readsBack_path hhead hrest).goesOn_tighter (by simp [tier])
  | number h => exact (readsBack_number h).goesOn_tighter (by simp [tier])
  | str h => exact (readsBack_str h).goesOn_tighter (by simp [tier])
  | bool b => exact (readsBack_bool b).goesOn_tighter (by simp [tier])
  | null => exact readsBack_null.goesOn_tighter (by simp [tier])
  | placeholder h => exact (readsBack_placeholder h).goesOn_tighter (by simp [tier])
  | callAll hname => exact (readsBack_callAll hname).goesOn_tighter (by simp [tier])
  | call hname _ ih =>
    exact (readsBack_call hname fun a ha => (ih a ha).1).goesOn_tighter (by simp [tier])
  | @binary op left right _ _ ihl ihr =>
    have hloop : GoesOn op.tier left := by
      cases op with
      | add | sub => exact ihl.2.1
      | mul | div | mod => exact ihl.2.2
    have hgoes := hloop.binary ihr.1
    have hreads := hgoes.readsBack ihl.1 ihr.1
    refine ⟨hreads, ?_, ?_⟩
    · by_cases htier : op.tier = 4
      · rw [← htier]
        exact hgoes
      · exact hreads.goesOn (.inl rfl) htier
    · by_cases htier : op.tier = 5
      · rw [← htier]
        exact hgoes
      · exact hreads.goesOn (.inr rfl) htier
  | compare op _ _ ihl ihr =>
    exact (readsBack_compare op ihl.1 ihr.1).goesOn_tighter (by simp [tier])
  | logical op hlength _ ih =>
    exact (readsBack_logical op hlength fun x hx => (ih x hx).1).goesOn_tighter
      (by cases op <;> simp [tier, Connective.tier])
  | unary op _ ih =>
    exact (readsBack_unary op ih.1).goesOn_tighter (by cases op <;> simp [tier])
  | tuple _ ih => exact (readsBack_tuple fun x hx => (ih x hx).1).goesOn_tighter (by simp [tier])
  | list _ ih => exact (readsBack_list fun x hx => (ih x hx).1).goesOn_tighter (by simp [tier])

/-- The text of an expression is read as that expression, if it can be read from any text. -/
theorem parse_print_iff (e : Expr) : parse (print e) = .ok e ↔ Readable e := by
  constructor
  · exact parse_readable
  · intro h
    have hreads := h.readsBack.1
    have hread := hreads.exprAt (Nat.lt_succ_self _) after_nil
    rw [List.append_nil] at hread
    have htrim : Text.trimChars (print e).toList = chars e := by
      rw [print, String.toList_ofList, hreads.solid.trimChars]
    simp [parse, htrim, expression, hread, Text.trimStart]

end PathQuery.Expr
