import PathQuery.Proofs.Expr.Range
import PathQuery.Proofs.Lists
import Mathlib.Data.List.DropRight

/-!
Soft text: text that no token can run into and that no operator tighter than `and` starts. Where
soft text follows, keywords, operators, names and literals are found as without it.
-/

namespace PathQuery.Expr

/-! ### Soft text -/

/-- Blanks and the closing parenthesis end every token. -/
def isStop (c : Char) : Bool :=
  Text.isBlank c || c == ')'

/-- The characters with which an operator starts that binds tighter than `and`. -/
def startsOperator (c : Char) : Bool :=
  ['*', '/', '%', '+', '-', '=', '!', '<', '>', 'i', 'n'].contains c.toLower

/-- Text that does not change how the text before it is read. -/
structure Soft (t : List Char) : Prop where
  stop : ∀ c ∈ t.head?, isStop c
  next : ∀ c ∈ (skipGap t).head?, startsOperator c = false

/-- The code points of the characters that end tokens. -/
def stops : List Nat :=
  [0x20, 0x9, 0xA, 0xB, 0xC, 0xD, 0x85, 0xA0, 0x1680, 0x2000, 0x2001, 0x2002, 0x2003, 0x2004,
    0x2005, 0x2006, 0x2007, 0x2008, 0x2009, 0x200A, 0x2028, 0x2029, 0x202F, 0x205F, 0x3000, 0x29]

theorem toNat_mem_stops {c : Char} (h : isStop c) : c.toNat ∈ stops := by
  simp only [isStop, Text.isBlank, Bool.or_eq_true, Bool.and_eq_true, beq_iff_eq,
    decide_eq_true_eq] at h
  simp only [stops, List.mem_cons, List.not_mem_nil, or_false]
  rcases h with h | rfl
  · grind
  · decide

/-- A class of characters that the stops are not in. -/
theorem not_class_of_isStop {p : Char → Bool} (hp : ∀ n ∈ stops, p (Char.ofNat n) = false)
    {c : Char} (hc : isStop c) : p c = false := by
  have h := hp c.toNat (toNat_mem_stops hc)
  rwa [Char.ofNat_toNat] at h

theorem isStop_of_isBlank {c : Char} (h : Text.isBlank c) : isStop c := by
  simp [isStop, h]

theorem isBlank_of_isGap {c : Char} (h : isGap c) : Text.isBlank c := by
  simp only [isGap, Bool.or_eq_true, beq_iff_eq] at h
  obtain ((rfl | rfl) | rfl) | rfl := h <;> decide

theorem skipGap_append {cs : List Char} (h : skipGap cs ≠ []) (t : List Char) :
    skipGap (cs ++ t) = skipGap cs ++ t := by
  unfold skipGap at h ⊢
  rw [List.dropWhile_append, if_neg (by simpa using h)]

theorem skipGap_append_of_nil {cs : List Char} (h : skipGap cs = []) (t : List Char) :
    skipGap (cs ++ t) = skipGap t := by
  unfold skipGap at h ⊢
  rw [List.dropWhile_append, if_pos (by simp [h])]

theorem skipGap_cons_of_not {c : Char} (hc : isGap c = false) (cs : List Char) :
    skipGap (c :: cs) = c :: cs :=
  List.dropWhile_cons_of_neg (by simp [hc])

/-! ### Keywords -/

section Words

variable {word t : List Char}

theorem dropWord?_append (hword : word.all Char.isLower) (ht : ∀ c ∈ t.head?, isStop c)
    (cs : List Char) : dropWord? word (cs ++ t) = (dropWord? word cs).map (· ++ t) := by
  induction word generalizing cs with
  | nil => rfl
  | cons a word ih =>
    cases cs with
    | nil =>
      cases t with
      | nil => rfl
      | cons c t =>
        have hc : c.toLower.isLower = false :=
          not_class_of_isStop (p := fun c => c.toLower.isLower) (by decide) (ht c rfl)
        have hne : c.toLower ≠ a := by
          rintro rfl
          rw [List.all_eq_true.mp hword c.toLower (by simp)] at hc
          cases hc
        simp [dropWord?, hne]
    | cons c cs =>
      simp only [List.cons_append, dropWord?]
      split
      · rw [List.all_cons, Bool.and_eq_true] at hword
        exact ih hword.2 cs
      · rfl

theorem keyword?_append (hword : word.all Char.isLower) (ht : ∀ c ∈ t.head?, isStop c)
    (cs : List Char) : keyword? word (cs ++ t) = (keyword? word cs).map (· ++ t) := by
  have hname (c : Char) (hc : c ∈ t.head?) : Text.isNameChar c = false :=
    not_class_of_isStop (by decide +kernel) (ht c hc)
  unfold keyword?
  rw [dropWord?_append hword ht]
  cases dropWord? word cs with
  | none => rfl
  | some rest =>
    cases rest with
    | nil =>
      cases t with
      | nil => rfl
      | cons c t => simp [hname c rfl]
    | cons c rest =>
      simp only [Option.map_some, List.cons_append]
      split <;> rfl

theorem keyword?_nil (hne : word ≠ []) : keyword? word [] = none := by
  obtain ⟨a, word, rfl⟩ := List.exists_cons_of_ne_nil hne
  rfl

theorem keyword?_cons_eq_none (hword : word.all Char.isLower) (hne : word ≠ []) {c : Char}
    (hc : c.toLower.isLower = false) (cs : List Char) : keyword? word (c :: cs) = none := by
  obtain ⟨a, word, rfl⟩ := List.exists_cons_of_ne_nil hne
  have hca : c.toLower ≠ a := by
    intro h
    rw [h, List.all_eq_true.mp hword a List.mem_cons_self] at hc
    cases hc
  simp [keyword?, dropWord?, hca]

end Words

/-! ### Operators -/

section Operators

variable {t : List Char}

theorem productOp?_append {cs : List Char} (h : cs ≠ []) (t : List Char) :
    productOp? (cs ++ t) = (productOp? cs).map fun (op, rest) => (op, rest ++ t) := by
  obtain ⟨c, cs, rfl⟩ := List.exists_cons_of_ne_nil h
  unfold productOp?
  rw [List.cons_append]
  split <;> simp_all

theorem sumOp?_append {cs : List Char} (h : cs ≠ []) (t : List Char) :
    sumOp? (cs ++ t) = (sumOp? cs).map fun (op, rest) => (op, rest ++ t) := by
  obtain ⟨c, cs, rfl⟩ := List.exists_cons_of_ne_nil h
  unfold sumOp?
  rw [List.cons_append]
  split <;> simp_all

/-- The second word may not be found in the text that follows. -/
theorem keywords?_append {first second : List Char} (hfirst : first.all Char.isLower)
    (hsecond : second.all Char.isLower) (hne : second ≠ []) (ht : ∀ c ∈ t.head?, isStop c)
    (hnext : keyword? second (skipGap t) = none) (cs : List Char) :
    keywords? first second (cs ++ t) = (keywords? first second cs).map (· ++ t) := by
  have hnil := keyword?_nil hne
  simp only [keywords?]
  rw [keyword?_append hfirst ht]
  cases keyword? first cs with
  | none => rfl
  | some mid =>
    cases mid with
    | nil =>
      cases t with
      | nil => rfl
      | cons c t =>
        by_cases hc : isGap c
        · have hskip : skipGap (c :: t) = skipGap t := List.dropWhile_cons_of_pos hc
          rw [hskip] at hnext
          simpa [gap?, hc] using hnext
        · simp [gap?, hc]
    | cons c mid =>
      by_cases hc : isGap c
      · by_cases hmid : skipGap mid = []
        · simp [gap?, hc, hmid, skipGap_append_of_nil hmid, hnil, hnext]
        · simp [gap?, hc, skipGap_append hmid, keyword?_append hsecond ht]
      · simp [gap?, hc]

theorem Soft.keyword?_eq_none {a : Char} (ht : Soft t)
    (ha : a ∈ ['*', '/', '%', '+', '-', '=', '!', '<', '>', 'i', 'n']) (word : List Char) :
    keyword? (a :: word) (skipGap t) = none := by
  cases hcs : skipGap t with
  | nil => rfl
  | cons c cs =>
    have hc : c.toLower ≠ a := by
      rintro rfl
      have hnext := ht.next c (by simp [hcs])
      simp only [startsOperator, List.contains_eq_mem, decide_eq_false_iff_not] at hnext
      exact hnext ha
    simp [keyword?, dropWord?, hc]

theorem wordOp?_append (ht : Soft t) (cs : List Char) :
    wordOp? (cs ++ t) = (wordOp? cs).map fun (op, rest) => (op, rest ++ t) := by
  have hnot := ht.keyword?_eq_none (a := 'n') (by simp) ['o', 't']
  have hin := ht.keyword?_eq_none (a := 'i') (by simp) ['n']
  unfold wordOp?
  rw [keywords?_append (by decide) (by decide) (by simp) ht.stop hnot,
    keywords?_append (by decide) (by decide) (by simp) ht.stop hin,
    keyword?_append (by decide) ht.stop, keyword?_append (by decide) ht.stop]
  cases keywords? ['i', 's'] ['n', 'o', 't'] cs with
  | some rest => rfl
  | none =>
    cases keyword? ['i', 's'] cs with
    | some rest => rfl
    | none =>
      cases keywords? ['n', 'o', 't'] ['i', 'n'] cs with
      | some rest => rfl
      | none =>
        cases keyword? ['i', 'n'] cs with
        | some rest => rfl
        | none => rfl

theorem append_ne_cons {d : Char} (hd : isStop d = false) (ht : ∀ c ∈ t.head?, isStop c)
    {cs : List Char} (h : ∀ rest, cs = d :: rest → False) (rest : List Char) :
    cs ++ t = d :: rest → False := by
  intro heq
  cases cs with
  | nil =>
    have hstop := ht d (by simp [show t = d :: rest from heq])
    rw [hd] at hstop
    cases hstop
  | cons c cs =>
    rw [List.cons_append, List.cons.injEq] at heq
    exact h cs (by rw [heq.1])

/-- An operator of one character does not become one of two. -/
theorem compareOp?_append (ht : Soft t) {cs : List Char} (h : cs ≠ []) :
    compareOp? (cs ++ t) = (compareOp? cs).map fun (op, rest) => (op, rest ++ t) := by
  fun_cases compareOp? cs with
  | case1 => rfl
  | case2 => rfl
  | case3 => rfl
  | case4 => rfl
  | case5 => rfl
  | case6 cs hgt heq =>
    have hgt' := append_ne_cons (by decide) ht.stop hgt
    have heq' := append_ne_cons (by decide) ht.stop heq
    simp [compareOp?]
  | case7 cs heq =>
    have heq' := append_ne_cons (by decide) ht.stop heq
    simp [compareOp?]
  | case8 cs heq =>
    have heq' := append_ne_cons (by decide) ht.stop heq
    simp [compareOp?]
  | case9 cs _ hne _ _ _ hlt hgt heq =>
    have hne' (rest : List Char) : cs ++ t = '!' :: '=' :: rest → False := by
      intro hcs
      obtain ⟨c, cs, rfl⟩ := List.exists_cons_of_ne_nil h
      rw [List.cons_append, List.cons.injEq] at hcs
      exact append_ne_cons (by decide) ht.stop
        (fun rest hrest => hne rest (by rw [hrest, hcs.1])) rest hcs.2
    have hlt' := append_ne_cons (by decide) ht.stop hlt
    have hgt' := append_ne_cons (by decide) ht.stop hgt
    have heq' := append_ne_cons (by decide) ht.stop heq
    rw [← wordOp?_append ht]
    exact compareOp?.eq_9 _ (fun _ => heq' _) hne' (fun _ => hlt' _) (fun _ => hlt' _)
      (fun _ => hgt' _) hlt' hgt' heq'

/-- A character that starts no operator is none of those that operators are spelled with. -/
theorem Soft.skipGap_ne (ht : Soft t) {a : Char}
    (ha : a ∈ ['*', '/', '%', '+', '-', '=', '!', '<', '>', 'i', 'n']) (hlower : a.toLower = a)
    (rest : List Char) : skipGap t = a :: rest → False := by
  intro heq
  have hnext := ht.next a (by simp [heq])
  simp only [startsOperator, hlower, List.contains_eq_mem, decide_eq_false_iff_not] at hnext
  exact hnext ha

theorem Soft.productOp?_eq_none (ht : Soft t) : productOp? (skipGap t) = none :=
  productOp?.eq_4 _ (ht.skipGap_ne (by simp) rfl) (ht.skipGap_ne (by simp) rfl)
    (ht.skipGap_ne (by simp) rfl)

theorem Soft.sumOp?_eq_none (ht : Soft t) : sumOp? (skipGap t) = none :=
  sumOp?.eq_3 _ (ht.skipGap_ne (by simp) rfl) (ht.skipGap_ne (by simp) rfl)

theorem Soft.compareOp?_eq_none (ht : Soft t) : compareOp? (skipGap t) = none := by
  have hlt := ht.skipGap_ne (a := '<') (by simp) rfl
  have hgt := ht.skipGap_ne (a := '>') (by simp) rfl
  have heq := ht.skipGap_ne (a := '=') (by simp) rfl
  have hne := ht.skipGap_ne (a := '!') (by simp) rfl
  rw [compareOp?.eq_9 _ (fun _ => heq _) (fun _ => hne _) (fun _ => hlt _) (fun _ => hlt _)
    (fun _ => hgt _) hlt hgt heq]
  simp [wordOp?, keywords?, ht.keyword?_eq_none]

end Operators

/-! ### Tokens -/

section Tokens

variable {t : List Char}

theorem spelled_append (ht : ∀ c ∈ t.head?, isStop c) (cs : List Char) :
    spelled (cs ++ t) = spelled cs := by
  cases cs with
  | nil =>
    cases t with
    | nil => rfl
    | cons c t =>
      have hc : isNameStart c = false := not_class_of_isStop (by decide) (ht c rfl)
      simp [spelled, hc]
  | cons c cs =>
    have hrest : ∀ c ∈ t.head?, isNameRest c = false :=
      fun c hc => not_class_of_isStop (by decide) (ht c hc)
    simp only [List.cons_append, spelled, Lists.takeWhile_append_of_head hrest]

theorem name?_append (ht : ∀ c ∈ t.head?, isStop c) (cs : List Char) :
    name? (cs ++ t) = (name? cs).map fun (name, rest) => (name, rest ++ t) := by
  simp only [name?, spelled_append ht, List.drop_append_of_le_length (spelled_starts cs).length_le]
  split <;> rfl

theorem segments_stop (m : Nat) {cs : List Char} (h : ∀ rest, cs = '.' :: rest → False) :
    segments m cs = ([], cs) := by
  cases m with
  | zero => rfl
  | succ m => simp [segments]

theorem segments_append (ht : ∀ c ∈ t.head?, isStop c) {n m : Nat} {cs : List Char}
    (hn : cs.length ≤ n) (hm : cs.length ≤ m) :
    segments m (cs ++ t) = ((segments n cs).1, (segments n cs).2 ++ t) := by
  induction n generalizing m cs with
  | zero =>
    obtain rfl : cs = [] := List.eq_nil_of_length_eq_zero (Nat.le_zero.mp hn)
    exact segments_stop m (append_ne_cons (by decide) ht (by simp))
  | succ n ih =>
    by_cases hdot : ∃ rest, cs = '.' :: rest
    · obtain ⟨rest, rfl⟩ := hdot
      simp only [List.length_cons] at hn hm
      obtain ⟨m, rfl⟩ : ∃ k, m = k + 1 := ⟨m - 1, by omega⟩
      simp only [List.cons_append, segments, name?_append ht]
      cases hname : name? rest with
      | none => rfl
      | some found =>
        obtain ⟨name, after⟩ := found
        have hlength : after.length ≤ rest.length := by
          rw [(name?_some hname).2, List.length_append]
          omega
        simp only [Option.map_some, ih (m := m) (by omega : after.length ≤ n) (by omega)]
    · have hno : ∀ rest, cs = '.' :: rest → False := fun rest h => hdot ⟨rest, h⟩
      rw [segments_stop m (append_ne_cons (by decide) ht hno), segments_stop (n + 1) hno]

theorem places_append (ht : ∀ c ∈ t.head?, isStop c) (cs : List Char) :
    places (cs ++ t) = places cs := by
  have hdigit : ∀ c ∈ t.head?, c.isDigit = false :=
    fun c hc => not_class_of_isStop (by decide) (ht c hc)
  by_cases hdot : ∃ rest, cs = '.' :: rest
  · obtain ⟨rest, rfl⟩ := hdot
    simp only [List.cons_append, places, Lists.takeWhile_append_of_head hdigit]
  · have hno : ∀ rest, cs = '.' :: rest → False := fun rest h => hdot ⟨rest, h⟩
    rw [places.eq_2 _ (append_ne_cons (by decide) ht hno), places.eq_2 _ hno]

theorem exponent_append (ht : ∀ c ∈ t.head?, isStop c) (cs : List Char) :
    exponent (cs ++ t) = exponent cs := by
  have hdigit : ∀ c ∈ t.head?, c.isDigit = false :=
    fun c hc => not_class_of_isStop (by decide) (ht c hc)
  cases cs with
  | nil =>
    cases t with
    | nil => rfl
    | cons c t =>
      have hmark : (c == 'e' || c == 'E') = false :=
        not_class_of_isStop (p := fun c => c == 'e' || c == 'E') (by decide) (ht c rfl)
      simp only [List.nil_append, exponent, hmark]
      rfl
  | cons c rest =>
    simp only [List.cons_append, exponent]
    split
    · by_cases hplus : ∃ after, rest = '+' :: after
      · obtain ⟨after, rfl⟩ := hplus
        simp [Lists.takeWhile_append_of_head hdigit]
      · by_cases hminus : ∃ after, rest = '-' :: after
        · obtain ⟨after, rfl⟩ := hminus
          simp [Lists.takeWhile_append_of_head hdigit]
        · have hp : ∀ after, rest = '+' :: after → False := fun after h => hplus ⟨after, h⟩
          have hm : ∀ after, rest = '-' :: after → False := fun after h => hminus ⟨after, h⟩
          have hp' := append_ne_cons (by decide) ht hp
          have hm' := append_ne_cons (by decide) ht hm
          simp [Lists.takeWhile_append_of_head hdigit]
    · rfl

theorem places_starts (cs : List Char) : places cs <+: cs := by
  unfold places
  split
  · next rest =>
    dsimp only
    split
    · exact List.nil_prefix
    · exact List.cons_prefix_cons.mpr ⟨rfl, List.takeWhile_prefix _⟩
  · exact List.nil_prefix

theorem exponent_starts (cs : List Char) : exponent cs <+: cs := by
  cases cs with
  | nil => exact List.nil_prefix
  | cons c rest =>
    simp only [exponent]
    split
    · by_cases hplus : ∃ after, rest = '+' :: after
      · obtain ⟨after, rfl⟩ := hplus
        simp only [List.length_singleton, List.drop_succ_cons, List.drop_zero]
        split
        · exact List.nil_prefix
        · simpa using List.takeWhile_prefix _
      · by_cases hminus : ∃ after, rest = '-' :: after
        · obtain ⟨after, rfl⟩ := hminus
          simp only [List.length_singleton, List.drop_succ_cons, List.drop_zero]
          split
          · exact List.nil_prefix
          · simpa using List.takeWhile_prefix _
        · have hp : ∀ after, rest = '+' :: after → False := fun after h => hplus ⟨after, h⟩
          have hm : ∀ after, rest = '-' :: after → False := fun after h => hminus ⟨after, h⟩
          simp only [List.length_nil, List.drop_zero]
          split
          · exact List.nil_prefix
          · simpa using List.takeWhile_prefix _
    · exact List.nil_prefix

theorem numberText_starts (cs : List Char) : numberText cs <+: cs := by
  have hwhole : cs.takeWhile Char.isDigit <+: cs := List.takeWhile_prefix _
  refine Lists.starts_append (Lists.starts_append hwhole (places_starts _)) ?_
  rw [List.length_append]
  exact exponent_starts _

theorem numberText_append (ht : ∀ c ∈ t.head?, isStop c) (cs : List Char) :
    numberText (cs ++ t) = numberText cs := by
  have hdigit : ∀ c ∈ t.head?, c.isDigit = false :=
    fun c hc => not_class_of_isStop (by decide) (ht c hc)
  have hwhole : cs.takeWhile Char.isDigit <+: cs := List.takeWhile_prefix _
  have hpart := Lists.starts_append hwhole (places_starts _)
  simp only [numberText, Lists.takeWhile_append_of_head hdigit,
    List.drop_append_of_le_length hwhole.length_le, places_append ht]
  rw [← List.length_append, List.drop_append_of_le_length hpart.length_le, exponent_append ht]

theorem constant?_append (ht : ∀ c ∈ t.head?, isStop c) (cs : List Char) :
    constant? (cs ++ t) = (constant? cs).map fun (e, rest) => (e, rest ++ t) := by
  unfold constant?
  rw [keyword?_append (by decide) ht, keyword?_append (by decide) ht,
    keyword?_append (by decide) ht, keyword?_append (by decide) ht]
  cases keyword? ['t', 'r', 'u', 'e'] cs with
  | some rest => rfl
  | none =>
    cases keyword? ['f', 'a', 'l', 's', 'e'] cs with
    | some rest => rfl
    | none =>
      cases keyword? ['n', 'o', 'n', 'e'] cs with
      | some rest => rfl
      | none =>
        cases keyword? ['n', 'u', 'l', 'l'] cs with
        | some rest => rfl
        | none => rfl

theorem quotedText?_extends {q : Char} (hq : isStop q = false) (ht : ∀ c ∈ t.head?, isStop c)
    {cs text rest : List Char} (h : quotedText? q cs = some (text, rest)) :
    quotedText? q (cs ++ t) = some (text, rest ++ t) := by
  fun_induction quotedText? q cs generalizing text rest with
  | case1 => cases h
  | case2 c hc d after hd ih =>
    obtain ⟨⟨text', rest'⟩, hread, hreply⟩ := Option.map_eq_some_iff.mp h
    cases hreply
    simp [quotedText?, hc, hd, ih hread]
  | case3 c hc d after hd =>
    cases h
    simp [quotedText?, hc, hd]
  | case4 c hc =>
    cases h
    cases t with
    | nil => simp [quotedText?, hc]
    | cons d t =>
      have hd : (d == q) = false := by
        rw [beq_eq_false_iff_ne]
        rintro rfl
        rw [ht d rfl] at hq
        cases hq
      simp [quotedText?, hc, hd]
  | case5 c hc d after hescape ih =>
    obtain ⟨⟨text', rest'⟩, hread, hreply⟩ := Option.map_eq_some_iff.mp h
    cases hreply
    have hescape' : (c == '\\' && escapes q (d :: (after ++ t))) = true := hescape
    simp only [List.cons_append, quotedText?, hc, hescape', ih hread]
    rfl
  | case6 c hc hescape => cases h
  | case7 c after hc hescape ih =>
    obtain ⟨⟨text', rest'⟩, hread, hreply⟩ := Option.map_eq_some_iff.mp h
    cases hreply
    cases after with
    | nil => cases hread
    | cons d after =>
      have hescape' : ¬ (c == '\\' && escapes q (d :: (after ++ t))) = true := hescape
      have ih' : quotedText? q (d :: (after ++ t)) = some (text', rest ++ t) := ih hread
      rw [List.cons_append, List.cons_append, quotedText?, if_neg hc, if_neg hescape', ih']
      rfl

end Tokens

end PathQuery.Expr
