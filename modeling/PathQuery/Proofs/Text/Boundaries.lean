import PathQuery.Text.Class

/-!
Sets of code points by their boundaries. Membership changes only at a boundary, so what two sets
have to do with each other is decided by walking along both lists at once. Names in braces and words
go by different sets: numbers that are neither letters nor decimal digits are in names only, and so
is what is new on their side; marks that are no letters and connecting characters are in words only.
-/

namespace PathQuery.Text

/-- Whether `p` holds at every number for membership in two sets, when the flags tell membership
before the boundaries that are left. The first number bounds the steps. -/
def holdsFrom (p : Bool → Bool → Bool) : Nat → Bool → Bool → List Nat → List Nat → Bool
  | 0, _, _, _, _ => false
  | _ + 1, x, y, [], [] => p x y
  | k + 1, x, y, _ :: as, [] => p x y && holdsFrom p k (!x) y as []
  | k + 1, x, y, [], _ :: bs => p x y && holdsFrom p k x (!y) [] bs
  | k + 1, x, y, a :: as, b :: bs =>
    p x y &&
      if a < b then holdsFrom p k (!x) y as (b :: bs)
      else if b < a then holdsFrom p k x (!y) (a :: as) bs
      else holdsFrom p k (!x) (!y) as bs

/-- Whether `p` holds at every number for membership in the sets `as` and `bs`. -/
def holdsThroughout (p : Bool → Bool → Bool) (as bs : List Nat) : Bool :=
  holdsFrom p (as.length + bs.length + 1) false false as bs

theorem xor_inside_of_lt {a n : Nat} (as : List Nat) (x : Bool) (h : n < a) :
    (x ^^ inside (a :: as) n) = x := by
  simp [inside, h]

theorem xor_inside_of_le {a n : Nat} (as : List Nat) (x : Bool) (h : a ≤ n) :
    (x ^^ inside (a :: as) n) = (!x ^^ inside as n) := by
  simp [inside, Nat.not_lt.mpr h]

theorem holdsFrom_sound {p : Bool → Bool → Bool} {k : Nat} {x y : Bool} {as bs : List Nat}
    (h : holdsFrom p k x y as bs) (n : Nat) : p (x ^^ inside as n) (y ^^ inside bs n) := by
  fun_induction holdsFrom p k x y as bs with
  | case1 => cases h
  | case2 => simpa [inside] using h
  | case3 k x y a as ih =>
    rw [Bool.and_eq_true] at h
    rcases Nat.lt_or_ge n a with hn | hn
    · rw [xor_inside_of_lt as x hn, inside, Bool.xor_false]
      exact h.1
    · rw [xor_inside_of_le as x hn]
      exact ih h.2
  | case4 k x y b bs ih =>
    rw [Bool.and_eq_true] at h
    rcases Nat.lt_or_ge n b with hn | hn
    · rw [xor_inside_of_lt bs y hn, inside, Bool.xor_false]
      exact h.1
    · rw [xor_inside_of_le bs y hn]
      exact ih h.2
  | case5 k x y a as b bs ihfirst ihsecond ihboth =>
    rw [Bool.and_eq_true] at h
    obtain ⟨hnow, hnext⟩ := h
    by_cases hn : n < a ∧ n < b
    · rw [xor_inside_of_lt as x hn.1, xor_inside_of_lt bs y hn.2]
      exact hnow
    split at hnext
    · rw [xor_inside_of_le as x (by omega)]
      exact ihfirst hnext
    · split at hnext
      · rw [xor_inside_of_le bs y (by omega)]
        exact ihsecond hnext
      · rw [xor_inside_of_le as x (by omega), xor_inside_of_le bs y (by omega)]
        exact ihboth hnext

theorem holdsThroughout_sound {p : Bool → Bool → Bool} {as bs : List Nat}
    (h : holdsThroughout p as bs) (n : Nat) : p (inside as n) (inside bs n) := by
  simpa using holdsFrom_sound h n

/-! ### The tables -/

theorem number_of_decimalDigit {n : Nat} (h : inside decimalDigit n) : inside number n := by
  have hsubset : holdsThroughout (fun x y => !x || y) decimalDigit number := by decide +kernel
  simpa [h] using holdsThroughout_sound hsubset n

theorem not_mark_of_number {n : Nat} (h : inside number n) : inside mark n = false := by
  have hdisjoint : holdsThroughout (fun x y => !x || !y) number mark := by decide +kernel
  simpa [h] using holdsThroughout_sound hdisjoint n

theorem not_number_of_connector {n : Nat} (h : inside connector n) : inside number n = false := by
  have hdisjoint : holdsThroughout (fun x y => !x || !y) connector number := by decide +kernel
  simpa [h] using holdsThroughout_sound hdisjoint n

theorem not_alphabetic_of_connector {n : Nat} (h : inside connector n) :
    inside alphabetic n = false := by
  have hdisjoint : holdsThroughout (fun x y => !x || !y) connector alphabetic := by decide +kernel
  simpa [h] using holdsThroughout_sound hdisjoint n

/-- Characters of names that are in no word: numbers that are neither letters nor decimal digits,
and new letters and numbers. -/
def isNameOnly (c : Char) : Bool :=
  128 ≤ c.toNat && (inside number c.toNat && !inside alphabetic c.toNat &&
    !inside decimalDigit c.toNat || inside recent c.toNat &&
      (inside alphabetic c.toNat || inside number c.toNat))

/-- Characters of words that are in no name: marks that are no letters, and connecting characters,
unless they are new. -/
def isWordOnly (c : Char) : Bool :=
  128 ≤ c.toNat && !inside recent c.toNat &&
    (inside mark c.toNat && !inside alphabetic c.toNat || inside connector c.toNat)

/-- In the basic alphabet names and words have the same characters. -/
theorem isNameChar_basic {c : Char} (h : c.toNat < 128) : isNameChar c = isWordChar c := by
  rw [isNameChar, isAlphanumeric, isWordChar, if_pos h, if_pos h]

theorem isNameChar_beyond {c : Char} (h : 128 ≤ c.toNat) :
    isNameChar c = (inside alphabetic c.toNat || inside number c.toNat) := by
  have hline : c ≠ '_' := by
    rintro rfl
    exact absurd h (by decide)
  simp [isNameChar, isAlphanumeric, Nat.not_lt.mpr h, hline]

theorem isNameOnly_eq (c : Char) : isNameOnly c = (isNameChar c && !isWordChar c) := by
  rcases Nat.lt_or_ge c.toNat 128 with hc | hc
  · simp [isNameOnly, isNameChar_basic hc, Nat.not_le.mpr hc]
  · have hmark := @not_mark_of_number c.toNat
    have hconnector := @not_number_of_connector c.toNat
    rw [isNameOnly, isNameChar_beyond hc, isWordChar, if_neg (Nat.not_lt.mpr hc)]
    grind

theorem isWordOnly_eq (c : Char) : isWordOnly c = (isWordChar c && !isNameChar c) := by
  rcases Nat.lt_or_ge c.toNat 128 with hc | hc
  · simp [isWordOnly, isNameChar_basic hc, Nat.not_le.mpr hc]
  · have hdigit := @number_of_decimalDigit c.toNat
    have hmark := @not_mark_of_number c.toNat
    have hconnector := @not_number_of_connector c.toNat
    have hletter := @not_alphabetic_of_connector c.toNat
    rw [isWordOnly, isNameChar_beyond hc, isWordChar, if_neg (Nat.not_lt.mpr hc)]
    grind

end PathQuery.Text
