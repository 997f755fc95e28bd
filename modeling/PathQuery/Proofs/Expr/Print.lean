import PathQuery.Proofs.Expr.Splice

/-!
Expressions as text, with parentheses only where a position asks for a tighter operator than the
one that stands there. The tokens of such a text are read back one by one, if what follows cannot
run into them.
-/

namespace PathQuery

/-- How tightly an operator binds: `or` is at 0, `and` at 1, `not` at 2, comparisons are at 3. -/
def Connective.tier : Connective → Nat
  | .or => 0
  | .and => 1

/-- Sums are at 4 and products at 5, below the signs at 6 and the primary forms at 7. -/
def BinaryOp.tier : BinaryOp → Nat
  | .add | .sub => 4
  | .mul | .div | .mod => 5

def BinaryOp.symbol : BinaryOp → Char
  | .add => '+'
  | .sub => '-'
  | .mul => '*'
  | .div => '/'
  | .mod => '%'

def CompareOp.symbols : CompareOp → List Char
  | .eq => ['=', '=']
  | .ne => ['!', '=']
  | .lt => ['<']
  | .le => ['<', '=']
  | .gt => ['>']
  | .ge => ['>', '=']
  | .is => ['i', 's']
  | .isNot => ['i', 's', ' ', 'n', 'o', 't']
  | .isIn => ['i', 'n']
  | .notIn => ['n', 'o', 't', ' ', 'i', 'n']

namespace Expr

/-! ### The printer -/

def tier : Expr → Nat
  | .logical op _ => op.tier
  | .unary .not _ => 2
  | .compare .. => 3
  | .binary op .. => op.tier
  | .unary .. => 6
  | _ => 7

/-- Quotes and backslashes written twice. -/
def escaped : List Char → List Char
  | [] => []
  | c :: cs => if c == '\'' || c == '\\' then c :: c :: escaped cs else c :: escaped cs

def enclosed (needed : Bool) (cs : List Char) : List Char :=
  if needed then '(' :: cs ++ [')'] else cs

mutual

def chars : Expr → List Char
  | .path head rest => head.toList ++ rest.flatMap fun name => '.' :: name.toList
  | .number text => text.toList
  | .str text => '\'' :: escaped text.toList ++ ['\'']
  | .bool b => if b then ['t', 'r', 'u', 'e'] else ['f', 'a', 'l', 's', 'e']
  | .null => ['n', 'u', 'l', 'l']
  | .placeholder name => '\x7b' :: name.toList ++ ['\x7d']
  | .star => ['*']
  | .call name args => name.toList ++ '(' :: [',', ' '].intercalate (charsAll 0 args) ++ [')']
  | .binary op left right =>
    enclosed (left.tier < op.tier) (chars left) ++ ' ' :: op.symbol :: ' ' ::
      enclosed (right.tier < op.tier + 1) (chars right)
  | .compare op left right =>
    enclosed (left.tier < 4) (chars left) ++ ' ' :: op.symbols ++ ' ' ::
      enclosed (right.tier < 4) (chars right)
  | .logical op operands => op.separator.intercalate (charsAll (op.tier + 1) operands)
  | .unary .not operand =>
    'n' :: 'o' :: 't' :: ' ' :: enclosed (operand.tier < 2) (chars operand)
  | .unary .neg operand => '-' :: enclosed (operand.tier < 6) (chars operand)
  | .unary .pos operand => '+' :: enclosed (operand.tier < 6) (chars operand)
  | .tuple items =>
    '(' :: [',', ' '].intercalate (charsAll 0 items) ++
      (if items.length == 1 then [',', ')'] else [')'])
  | .list items => '[' :: [',', ' '].intercalate (charsAll 0 items) ++ [']']

/-- Each expression as it stands where an operator of the tier `n` or a tighter one is wanted. -/
def charsAll (n : Nat) : List Expr → List (List Char)
  | [] => []
  | e :: rest => enclosed (e.tier < n) (chars e) :: charsAll n rest

end

/-- The text of an expression. -/
def print (e : Expr) : String :=
  .ofList e.chars

/-- An expression where an operator of the tier `n` or a tighter one is wanted. -/
def charsAt (n : Nat) (e : Expr) : List Char :=
  enclosed (e.tier < n) (chars e)

theorem charsAll_eq (n : Nat) (es : List Expr) : charsAll n es = es.map (charsAt n) := by
  induction es with
  | nil => rfl
  | cons e es ih => rw [charsAll, ih]; rfl

theorem charsAt_zero (e : Expr) : charsAt 0 e = chars e := by
  simp [charsAt, enclosed]

theorem charsAt_of_le {n : Nat} {e : Expr} (h : n ≤ e.tier) : charsAt n e = chars e := by
  simp [charsAt, enclosed, Nat.not_lt.mpr h]

theorem charsAt_of_lt {n : Nat} {e : Expr} (h : e.tier < n) :
    charsAt n e = '(' :: chars e ++ [')'] := by
  simp [charsAt, enclosed, h]

theorem tier_le (e : Expr) : e.tier ≤ 7 := by
  cases e with
  | logical op _ => cases op <;> simp [tier, Connective.tier]
  | binary op _ _ => cases op <;> simp [tier, BinaryOp.tier]
  | unary op _ => cases op <;> simp [tier]
  | _ => simp [tier]

/-! ### Edges of a text -/

/-- A text whose first character an operand may start with and whose last one is no blank. -/
structure Solid (cs : List Char) : Prop where
  starts : ∃ c rest, cs = c :: rest ∧ isDead c = false ∧ c ≠ '*'
  ends : ∃ rest c, cs = rest ++ [c] ∧ Text.isBlank c = false

theorem not_isBlank_of_not_isDead {c : Char} (h : isDead c = false) : Text.isBlank c = false := by
  simp only [isDead, isStop, Bool.or_eq_false_iff] at h
  exact h.1.1.1

theorem isGap_of_not_isDead {c : Char} (h : isDead c = false) : isGap c = false := by
  by_contra hgap
  have hblank := isBlank_of_isGap (Bool.not_eq_false _ ▸ hgap)
  rw [not_isBlank_of_not_isDead h] at hblank
  cases hblank

theorem solid_of_all {cs : List Char} (hne : cs ≠ [])
    (h : ∀ c ∈ cs, isDead c = false ∧ c ≠ '*') : Solid cs := by
  constructor
  · obtain ⟨c, rest, rfl⟩ := List.exists_cons_of_ne_nil hne
    exact ⟨c, rest, rfl, h c (by simp)⟩
  · refine ⟨cs.dropLast, cs.getLast hne, (List.dropLast_append_getLast hne).symm, ?_⟩
    exact not_isBlank_of_not_isDead (h _ (List.getLast_mem hne)).1

theorem Solid.between {u v : List Char} (hu : Solid u) (mid : List Char) (hv : Solid v) :
    Solid (u ++ mid ++ v) := by
  obtain ⟨c, rest, rfl, hc⟩ := hu.starts
  obtain ⟨rest', d, rfl, hd⟩ := hv.ends
  exact ⟨⟨c, _, rfl, hc⟩, ⟨_, d, (List.append_assoc _ _ _).symm, hd⟩⟩

theorem Solid.concat {cs : List Char} (h : Solid cs) (mid : List Char) {c : Char}
    (hc : Text.isBlank c = false) : Solid (cs ++ (mid ++ [c])) := by
  obtain ⟨first, rest, rfl, hfirst⟩ := h.starts
  exact ⟨⟨first, _, rfl, hfirst⟩, ⟨_, c, (List.append_assoc _ _ _).symm, hc⟩⟩

theorem solid_bracketed {first last : Char} (hfirst : isDead first = false) (hstar : first ≠ '*')
    (hlast : Text.isBlank last = false) (cs : List Char) : Solid (first :: cs ++ [last]) :=
  ⟨⟨first, _, rfl, hfirst, hstar⟩, ⟨first :: cs, last, rfl, hlast⟩⟩

theorem Solid.cons {c : Char} {cs : List Char} (hc : isDead c = false) (hstar : c ≠ '*')
    (h : Solid cs) : Solid (c :: cs) := by
  obtain ⟨rest, d, rfl, hd⟩ := h.ends
  exact ⟨⟨c, _, rfl, hc, hstar⟩, ⟨c :: rest, d, rfl, hd⟩⟩

theorem Solid.enclosed {cs : List Char} (h : Solid cs) (needed : Bool) :
    Solid (enclosed needed cs) := by
  cases needed with
  | false => exact h
  | true => exact solid_bracketed (by decide) (by decide) (by decide) cs

theorem Solid.intercalate {sep : List Char} {parts : List (List Char)} (hne : parts ≠ [])
    (h : ∀ p ∈ parts, Solid p) : Solid (sep.intercalate parts) := by
  induction parts with
  | nil => exact absurd rfl hne
  | cons p rest ih =>
    cases rest with
    | nil =>
      rw [List.intercalate_singleton]
      exact h p (by simp)
    | cons q rest =>
      rw [List.intercalate_cons_cons]
      exact (h p (by simp)).between sep (ih (by simp) fun x hx => h x (List.mem_cons_of_mem p hx))

theorem Solid.skipGap {cs : List Char} (h : Solid cs) (t : List Char) :
    skipGap (cs ++ t) = cs ++ t := by
  obtain ⟨c, rest, rfl, hc, -⟩ := h.starts
  exact skipGap_cons_of_not (isGap_of_not_isDead hc) _

theorem Solid.trimChars {cs : List Char} (h : Solid cs) : Text.trimChars cs = cs := by
  have hstart : Text.trimStart cs = cs := by
    obtain ⟨c, rest, rfl, hc, -⟩ := h.starts
    exact List.dropWhile_cons_of_neg (by simp [not_isBlank_of_not_isDead hc])
  obtain ⟨rest, c, hcs, hc⟩ := h.ends
  rw [Text.trimChars, hstart, Text.trimEnd, hcs]
  simp [hc]

/-! ### Tokens -/

/-- No token runs into this text. -/
def Ends (t : List Char) : Prop :=
  ∀ c ∈ t.head?, isDead c

/-- A class of characters without those that end a token. -/
theorem Ends.not_class {p : Char → Bool} {t : List Char} (ht : Ends t)
    (hstop : ∀ n ∈ stops, p (Char.ofNat n) = false) (hcomma : p ',' = false)
    (hclose : p ']' = false) : ∀ c ∈ t.head?, p c = false := by
  intro c hc
  have hdead := ht c hc
  simp only [isDead, Bool.or_eq_true, beq_iff_eq] at hdead
  obtain (h | rfl) | rfl := hdead
  · exact not_class_of_isStop hstop h
  · exact hcomma
  · exact hclose

theorem Ends.ne_cons {t : List Char} (ht : Ends t) {c : Char} (hc : isDead c = false)
    (rest : List Char) : t ≠ c :: rest := by
  rintro rfl
  rw [ht c rfl] at hc
  cases hc

theorem Ends.isNameChar {t : List Char} (ht : Ends t) :
    ∀ c ∈ t.head?, Text.isNameChar c = false :=
  ht.not_class (by decide +kernel) (by decide) (by decide)

theorem Ends.isNameRest {t : List Char} (ht : Ends t) : ∀ c ∈ t.head?, isNameRest c = false :=
  ht.not_class (by decide) (by decide) (by decide)

theorem Ends.isDigit {t : List Char} (ht : Ends t) : ∀ c ∈ t.head?, c.isDigit = false :=
  ht.not_class (by decide) (by decide) (by decide)

theorem IsName.exists_cons {name : String} (h : IsName name) :
    ∃ c rest, name.toList = c :: rest ∧ isNameStart c ∧ ∀ d ∈ rest, isNameRest d := by
  obtain ⟨c, rest, hcs⟩ := List.exists_cons_of_ne_nil h.1
  have hspelled := h.2.1
  rw [hcs, spelled] at hspelled
  split at hspelled
  · next hc =>
    rw [List.cons.injEq] at hspelled
    exact ⟨c, rest, hcs, hc, List.takeWhile_eq_self_iff.mp hspelled.2⟩
  · cases hspelled

theorem isNameRest_of_isNameStart {c : Char} (h : isNameStart c) : isNameRest c := by
  simp only [isNameStart, isNameRest, Char.isAlphanum, Bool.or_eq_true] at h ⊢
  tauto

theorem not_isDigit_of_isNameStart {c : Char} (h : isNameStart c) : c.isDigit = false := by
  simp only [isNameStart, Bool.or_eq_true, beq_iff_eq] at h
  rcases h with h | rfl
  · have hrange := toNat_of_isAlpha h
    delta Char.isDigit
    simp only [Bool.and_eq_false_iff, decide_eq_false_iff_not, UInt32.le_iff_toNat_le]
    change ¬ 48 ≤ c.toNat ∨ ¬ c.toNat ≤ 57
    omega
  · decide

theorem IsName.isNameRest {name : String} (h : IsName name) :
    ∀ c ∈ name.toList, isNameRest c := by
  obtain ⟨c, rest, hcs, hc, hrest⟩ := h.exists_cons
  rw [hcs]
  exact List.forall_mem_cons.mpr ⟨isNameRest_of_isNameStart hc, hrest⟩

theorem name?_append_of_isName {name : String} (h : IsName name) {t : List Char}
    (ht : ∀ c ∈ t.head?, Expr.isNameRest c = false) :
    name? (name.toList ++ t) = some (name.toList, t) := by
  have hspelled : spelled (name.toList ++ t) = name.toList := by
    obtain ⟨c, rest, hcs, hc, hrest⟩ := h.exists_cons
    rw [hcs, List.cons_append, spelled, if_pos hc, Lists.takeWhile_append_of_head ht,
      List.takeWhile_eq_self_iff.mpr hrest]
  simp [name?, hspelled, h.1, h.2.2]

theorem dropWord?_eq_some {word cs rest : List Char} (h : dropWord? word cs = some rest) :
    ∃ w, cs = w ++ rest ∧ w.map Char.toLower = word := by
  induction word generalizing cs with
  | nil =>
    cases h
    exact ⟨[], rfl, rfl⟩
  | cons a word ih =>
    cases cs with
    | nil => cases h
    | cons c cs =>
      simp only [dropWord?] at h
      split at h
      · next hc =>
        obtain ⟨w, rfl, hw⟩ := ih h
        exact ⟨c :: w, rfl, by rw [List.map_cons, hw, beq_iff_eq.mp hc]⟩
      · cases h

/-- No keyword is read where a name stands. -/
theorem keyword?_of_isName {word : List Char} (hword : word ∈ reserved) {name : String}
    (h : IsName name) {t : List Char} (ht : ∀ c ∈ t.head?, Text.isNameChar c = false) :
    keyword? word (name.toList ++ t) = none := by
  cases hkey : keyword? word (name.toList ++ t) with
  | none => rfl
  | some rest =>
    exfalso
    obtain ⟨hdrop, hend⟩ := keyword?_eq_some hkey
    obtain ⟨w, hw, rfl⟩ := dropWord?_eq_some hdrop
    have hreserved : w ≠ name.toList := by
      rintro rfl
      have hname := h.2.2
      simp only [isReserved, List.contains_eq_mem, decide_eq_false_iff_not] at hname
      exact hname hword
    -- The keyword ends inside the name, or goes on beyond it.
    obtain ⟨as, rfl, rfl⟩ | ⟨bs, hname, rfl⟩ := List.append_eq_append_iff.mp hw
    · cases as with
      | nil => exact hreserved (by simp)
      | cons c as =>
        have hc : c.toLower.isLower := by
          have hlower : reserved.all fun v => v.all Char.isLower := by decide
          exact List.all_eq_true.mp (List.all_eq_true.mp hlower _ hword) _ (by simp)
        have halpha := isAlpha_of_toLower rfl hc
        have hchar := isNameChar_of_isNameRest (isNameRest_of_isNameStart (c := c)
          (by simp [isNameStart, halpha]))
        rw [ht c rfl] at hchar
        cases hchar
    · cases bs with
      | nil => exact hreserved (by simp [hname])
      | cons c bs =>
        have hchar := isNameChar_of_isNameRest (h.isNameRest c (by simp [hname]))
        rw [hend c rfl] at hchar
        cases hchar

theorem constant?_of_isName {name : String} (h : IsName name) {t : List Char}
    (ht : ∀ c ∈ t.head?, Text.isNameChar c = false) : constant? (name.toList ++ t) = none := by
  have none_of (word : List Char) (hword : word ∈ reserved) :
      keyword? word (name.toList ++ t) = none := keyword?_of_isName hword h ht
  simp [constant?, none_of _ (by decide : ['t', 'r', 'u', 'e'] ∈ reserved),
    none_of _ (by decide : ['f', 'a', 'l', 's', 'e'] ∈ reserved),
    none_of _ (by decide : ['n', 'o', 'n', 'e'] ∈ reserved),
    none_of _ (by decide : ['n', 'u', 'l', 'l'] ∈ reserved)]

theorem segments_print {names : List String} (h : ∀ name ∈ names, IsName name) {t : List Char}
    (ht : Ends t) {n : Nat} (hn : names.length ≤ n) :
    segments n (names.flatMap (fun name => '.' :: name.toList) ++ t) = (names, t) := by
  induction names generalizing n with
  | nil => exact segments_stop n fun rest => ht.ne_cons (by decide) rest
  | cons name names ih =>
    obtain ⟨n, rfl⟩ : ∃ k, n = k + 1 := ⟨n - 1, by simp at hn; omega⟩
    have hnext : ∀ c ∈ (names.flatMap (fun name => '.' :: name.toList) ++ t).head?,
        Expr.isNameRest c = false := by
      cases names with
      | nil => exact ht.isNameRest
      | cons next names =>
        intro c hc
        obtain rfl : '.' = c := by simpa using hc
        decide
    have hrest := ih (fun x hx => h x (List.mem_cons_of_mem name hx)) (n := n)
      (by simp at hn; omega)
    rw [List.flatMap_cons, List.cons_append, List.cons_append, List.append_assoc, segments,
      name?_append_of_isName (h name (by simp)) hnext]
    simp [hrest]

theorem IsDigits.takeWhile_append {ds : List Char} (h : IsDigits ds) {t : List Char}
    (ht : ∀ c ∈ t.head?, c.isDigit = false) : (ds ++ t).takeWhile Char.isDigit = ds := by
  rw [Lists.takeWhile_append_of_head ht, List.takeWhile_eq_self_iff.mpr h.2]

theorem exponent_append_of_isExponent {power : List Char} (h : IsExponent power) {t : List Char}
    (ht : Ends t) : exponent (power ++ t) = power := by
  rcases h with rfl | ⟨mark, sign, ds, rfl, hmark, hsign, hds⟩
  · cases t with
    | nil => rfl
    | cons c t =>
      have hc := ht.not_class (p := fun c => c == 'e' || c == 'E') (by decide) (by decide)
        (by decide) c rfl
      simp only [List.nil_append, exponent, hc]
      rfl
  · have hdigits := hds.takeWhile_append ht.isDigit
    obtain ⟨d, ds, rfl⟩ := List.exists_cons_of_ne_nil hds.1
    have hd : d.isDigit := hds.2 d (by simp)
    have hplus : d ≠ '+' := by rintro rfl; cases hd
    have hminus : d ≠ '-' := by rintro rfl; cases hd
    rw [List.cons_append] at hdigits
    rcases hmark with rfl | rfl <;> rcases hsign with rfl | rfl | rfl <;>
      simp [exponent, hdigits, hplus, hminus]

theorem exponent_head {power : List Char} (h : IsExponent power) {t : List Char}
    {p : Char → Bool} (he : p 'e' = false) (hE : p 'E' = false)
    (hp : ∀ c ∈ t.head?, p c = false) : ∀ c ∈ (power ++ t).head?, p c = false := by
  rcases h with rfl | ⟨mark, sign, ds, rfl, hmark, -, -⟩
  · exact hp
  · intro c hc
    obtain rfl : mark = c := by simpa using hc
    rcases hmark with rfl | rfl
    · exact he
    · exact hE

theorem numberText_append_of_isNumber {text : List Char} (h : IsNumber text) {t : List Char}
    (ht : Ends t) : numberText (text ++ t) = text := by
  obtain ⟨whole, part, power, rfl, hwhole, hpart, hpower⟩ := h
  have hpowerHead : ∀ c ∈ (power ++ t).head?, (c.isDigit || c == '.') = false :=
    exponent_head (p := fun c => c.isDigit || c == '.') hpower (by decide) (by decide)
      (ht.not_class (p := fun c => c.isDigit || c == '.') (by decide) (by decide) (by decide))
  have hplaces : places (part ++ (power ++ t)) = part := by
    rcases hpart with rfl | ⟨ds, rfl, hds⟩
    · cases hcs : power ++ t with
      | nil => rfl
      | cons c cs =>
        have hc := hpowerHead c (by simp [hcs])
        have hdot : c ≠ '.' := by rintro rfl; cases hc
        simp [places, hdot]
    · have hdigits := hds.takeWhile_append (t := power ++ t)
        fun c hc => (Bool.or_eq_false_iff.mp (hpowerHead c hc)).1
      simp [places, hdigits, hds.1]
  have hwholeHead : ∀ c ∈ (part ++ (power ++ t)).head?, c.isDigit = false := by
    rcases hpart with rfl | ⟨ds, rfl, -⟩
    · exact fun c hc => (Bool.or_eq_false_iff.mp (hpowerHead c hc)).1
    · intro c hc
      obtain rfl : '.' = c := by simpa using hc
      decide
  have hdigits := hwhole.takeWhile_append hwholeHead
  have hdrop :
      (whole ++ (part ++ (power ++ t))).drop (whole.length + part.length) = power ++ t := by
    rw [← List.append_assoc whole, ← List.length_append, List.drop_left]
  simp only [numberText, List.append_assoc, hdigits, List.drop_left, hplaces, hdrop,
    exponent_append_of_isExponent hpower ht]

theorem quotedText?_escaped (cs : List Char) {t : List Char} (ht : Ends t) :
    quotedText? '\'' (escaped cs ++ '\'' :: t) = some (cs, t) := by
  induction cs with
  | nil =>
    cases t with
    | nil => rfl
    | cons c t =>
      have hc : c ≠ '\'' := by
        rintro rfl
        exact ht.ne_cons (by decide) t rfl
      simp [escaped, quotedText?, hc]
  | cons c cs ih =>
    by_cases hquote : c = '\''
    · subst hquote
      simp [escaped, quotedText?, ih]
    · by_cases hslash : c = '\\'
      · subst hslash
        simp [escaped, quotedText?, escapes, ih]
      · have hplain : escaped (c :: cs) = c :: escaped cs := by simp [escaped, hquote, hslash]
        rw [hplain, List.cons_append, quotedText?.eq_def]
        simp [hquote, hslash, ih]

theorem ofQuoted_of_readable {text : String}
    (h : ∀ name, IsBracedName name → text.toList ≠ '\x7b' :: name ++ ['\x7d']) :
    ofQuoted text.toList = .str text := by
  have hplain : Expr.str (.ofList text.toList) = .str text := by rw [String.ofList_toList]
  unfold ofQuoted
  split
  · next rest hcs =>
    split
    · next name hb =>
      obtain ⟨hname, rfl⟩ := braced?_some hb
      exact absurd hcs (h name hname)
    · exact hplain
  · exact hplain

end Expr
end PathQuery
