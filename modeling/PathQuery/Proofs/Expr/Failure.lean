import PathQuery.Proofs.Expr.Soft

/-!
Where reading fails. No operand starts with a blank, a comma or a closing bracket, nor with `not`,
and what an operand fails on the levels above it fail on.
-/

namespace PathQuery.Expr

theorem primary_plain (inner : Parser Expr) {c : Char}
    (hc : c ∉ ['(', '[', '\x7b', '\'', '"']) (cs : List Char) :
    primary inner (c :: cs) =
      if c.isDigit then
        .ok (.number (.ofList (numberText (c :: cs))), (c :: cs).drop (numberText (c :: cs)).length)
      else
        match constant? (c :: cs) with
        | some reply => .ok reply
        | none => named inner (c :: cs) := by
  simp only [List.mem_cons, List.not_mem_nil, or_false, not_or] at hc
  obtain ⟨h1, h2, h3, h4, h5⟩ := hc
  exact primary.eq_6 inner c cs h1 h2 h3 h4 h5

theorem orStuck_ok_iff {cs rest : List Char} {e : Expr} {reply : Option (Expr × List Char)} :
    orStuck cs reply = .ok (e, rest) ↔ reply = some (e, rest) := by
  cases reply <;> simp [orStuck]

/-- Characters that no operand starts with: blanks, the comma and the closing brackets. -/
def isDead (c : Char) : Bool :=
  isStop c || c == ',' || c == ']'

theorem isDead_of_close {close : Char} (h : close = ')' ∨ close = ']') : isDead close := by
  obtain rfl | rfl := h <;> rfl

/-- Nothing can be read at the start of this text. -/
def Fails (p : Parser Expr) (cs : List Char) : Prop :=
  ∃ stuck, p cs = .error stuck

section Failure

variable {operand inner : Parser Expr} {cs : List Char}

theorem Fails.leftward (op? : List Char → Option (BinaryOp × List Char)) (h : Fails operand cs) :
    Fails (leftward op? operand) cs := by
  obtain ⟨stuck, h⟩ := h
  exact ⟨stuck, by simp [Expr.leftward, h]⟩

theorem Fails.comparison (h : Fails operand cs) : Fails (comparison operand) cs := by
  obtain ⟨stuck, h⟩ := h
  exact ⟨stuck, by simp [Expr.comparison, h]⟩

theorem Fails.connected (op : Connective) (word : List Char) (h : Fails operand cs) :
    Fails (connected op word operand) cs := by
  obtain ⟨stuck, h⟩ := h
  exact ⟨stuck, by simp [Expr.connected, h]⟩

theorem signs_of_none (h : sign? cs = none) (n : Nat) : signs operand n cs = operand cs := by
  cases n with
  | zero => rfl
  | succ n => simp [signs, h]

theorem negated_of_none (h : keyword? ['n', 'o', 't'] cs = none) (n : Nat) :
    negated operand n cs = operand cs := by
  cases n with
  | zero => rfl
  | succ n => simp [negated, h]

theorem Fails.comparisonLevel (hsign : sign? cs = none) (h : Fails (primary inner) cs) :
    Fails (comparisonLevel inner) cs := by
  have hsigned : Fails (signedLevel inner) cs := by
    unfold Fails signedLevel
    rwa [signs_of_none hsign]
  exact ((hsigned.leftward productOp?).leftward sumOp?).comparison

theorem primary_fails {c : Char} {cs : List Char} (hc : c ∉ ['(', '[', '\x7b', '\'', '"'])
    (hdigit : c.isDigit = false) (hconstant : constant? (c :: cs) = none)
    (hname : name? (c :: cs) = none) : Fails (primary inner) (c :: cs) := by
  refine ⟨c :: cs, ?_⟩
  rw [primary_plain inner hc, hdigit, hconstant]
  simp [named, hname]

/-- What none of an operand's first characters is. -/
theorem starts_of_isDead {c : Char} (hc : isDead c) :
    (['(', '[', '\x7b', '\'', '"', '-', '+'].contains c || c.isDigit || isNameStart c ||
      ['t', 'f', 'n'].contains c.toLower) = false := by
  simp only [isDead, Bool.or_eq_true, beq_iff_eq] at hc
  obtain (hstop | rfl) | rfl := hc
  · exact not_class_of_isStop
      (p := fun c => ['(', '[', '\x7b', '\'', '"', '-', '+'].contains c || c.isDigit ||
        isNameStart c || ['t', 'f', 'n'].contains c.toLower) (by decide) hstop
  · decide
  · decide

theorem notLevel_fails (inner : Parser Expr) {c : Char} (hc : isDead c) (cs : List Char) :
    Fails (notLevel inner) (c :: cs) := by
  have hstarts := starts_of_isDead hc
  simp only [Bool.or_eq_false_iff, List.contains_eq_mem, decide_eq_false_iff_not, List.mem_cons,
    List.not_mem_nil, or_false, not_or] at hstarts
  obtain ⟨⟨⟨⟨h1, h2, h3, h4, h5, hminus, hplus⟩, hdigit⟩, hname⟩, ht, hf, hn⟩ := hstarts
  have hprimary : Fails (primary inner) (c :: cs) := by
    refine primary_fails (by simp [h1, h2, h3, h4, h5]) hdigit ?_ ?_
    · simp [constant?, keyword?, dropWord?, ht, hf, hn]
    · simp [name?, spelled, hname]
  have hsign : sign? (c :: cs) = none := by
    simp [sign?, hminus, hplus]
  have hnot : keyword? ['n', 'o', 't'] (c :: cs) = none := by
    simp [keyword?, dropWord?, hn]
  unfold Fails notLevel
  rw [negated_of_none hnot]
  exact hprimary.comparisonLevel hsign

theorem exprAt_fails (n : Nat) {c : Char} (hc : isDead c) (cs : List Char) :
    Fails (exprAt n) (c :: cs) := by
  cases n with
  | zero => exact ⟨c :: cs, rfl⟩
  | succ n => exact ((notLevel_fails (exprAt n) hc cs).connected .and _).connected .or _

theorem toNat_of_isAlpha {c : Char} (h : c.isAlpha) :
    (65 ≤ c.toNat ∧ c.toNat ≤ 90) ∨ (97 ≤ c.toNat ∧ c.toNat ≤ 122) := by
  delta Char.isAlpha Char.isUpper Char.isLower at h
  simpa [UInt32.le_iff_toNat_le] using h

theorem toLower_of_not_isUpper {c : Char} (h : ¬ c.isUpper) : c.toLower = c := by
  unfold Char.toLower
  exact dif_neg fun hrange => h (by delta Char.isUpper; simpa using hrange)

theorem isAlpha_of_toLower {c a : Char} (h : c.toLower = a) (ha : a.isLower) : c.isAlpha := by
  by_cases hupper : c.isUpper
  · exact (Bool.or_eq_true _ _).mpr (.inl hupper)
  · rw [← h, toLower_of_not_isUpper hupper] at ha
    exact (Bool.or_eq_true _ _).mpr (.inr ha)

theorem toNat_of_isNameRest {c : Char} (h : isNameRest c) : c.toNat < 128 := by
  simp only [isNameRest, Char.isAlphanum, Bool.or_eq_true, beq_iff_eq] at h
  rcases h with (h | h) | rfl
  · have := toNat_of_isAlpha h
    omega
  · simp [Char.isDigit, UInt32.le_iff_toNat_le] at h
    omega
  · decide

theorem isNameChar_of_isNameRest {c : Char} (h : isNameRest c) : Text.isNameChar c := by
  rw [Text.isNameChar, Text.isAlphanumeric, if_pos (toNat_of_isNameRest h)]
  exact h

/-- No operand starts with `not`, which is no name. -/
theorem comparisonLevel_fails_of_not {rest : List Char}
    (h : keyword? ['n', 'o', 't'] cs = some rest) : Fails (comparisonLevel inner) cs := by
  obtain ⟨hdrop, hhead⟩ := keyword?_eq_some h
  obtain _ | ⟨a, _ | ⟨b, _ | ⟨c, cs⟩⟩⟩ := cs <;> simp [dropWord?] at hdrop
  obtain ⟨ha, hb, hc, rfl⟩ := hdrop
  have hstart : isNameStart a := by
    simp [isNameStart, isAlpha_of_toLower ha (by decide)]
  have hrest {d : Char} (hd : d.isAlpha) : isNameRest d := by
    simp [isNameRest, Char.isAlphanum, hd]
  have hend : cs.takeWhile isNameRest = [] := by
    cases cs with
    | nil => rfl
    | cons d cs =>
      have hd : ¬ isNameRest d := fun hd => by
        simpa [hhead d rfl] using isNameChar_of_isNameRest hd
      simp [hd]
  have hspelled : spelled (a :: b :: c :: cs) = [a, b, c] := by
    simp [spelled, hstart, hrest (isAlpha_of_toLower hb (by decide)),
      hrest (isAlpha_of_toLower hc (by decide)), hend]
  have hname : name? (a :: b :: c :: cs) = none := by
    simp [name?, hspelled, isReserved, ha, hb, hc, reserved]
  have hletter (d : Char) (hd : d.toLower ≠ 'n') : a ≠ d := by
    rintro rfl
    exact hd ha
  refine Fails.comparisonLevel ?_ (primary_fails ?_ ?_ ?_ hname)
  · simp [sign?, hletter]
  · simp [hletter]
  · have hletters := toNat_of_isAlpha (isAlpha_of_toLower ha (by decide))
    simp [Char.isDigit, UInt32.le_iff_toNat_le]
    omega
  · simp [constant?, keyword?, dropWord?, ha, hb, hc]

end Failure

end PathQuery.Expr
