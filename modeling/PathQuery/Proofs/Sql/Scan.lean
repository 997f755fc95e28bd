import PathQuery.Template

/-!
Reading SQL from left to right, with literals in single and identifiers in double quotes. A text is
settled when it ends outside quotes and nothing there ends a statement or starts a comment. The
scan by modes decides this one character at a time, so that it goes through texts that are put
together from pieces.
-/

namespace PathQuery.Sql

/-- What stands outside quotes, when the text starts inside `quote` or outside. A quote written
twice inside quotes does not end them; a quoted part leaves its opening quote. -/
def bareFrom : Option Char → List Char → Option (List Char)
  | none, [] => some []
  | some _, [] => none
  | none, c :: cs =>
    if c == '\'' || c == '"' then (bareFrom (some c) cs).map (c :: ·)
    else (bareFrom none cs).map (c :: ·)
  | some q, c :: cs =>
    if c == q then
      match cs with
      | [] => some []
      | d :: rest => if d == q then bareFrom (some q) rest else bareFrom none (d :: rest)
    else bareFrom (some q) cs

/-- What of a text stands outside quotes, unless it ends inside. -/
def bare (sql : String) : Option (List Char) :=
  bareFrom none sql.toList

/-- Nothing that ends a statement or starts a comment. -/
def Harmless (cs : List Char) : Prop :=
  ';' ∉ cs ∧ ¬ ['-', '-'] <:+: cs ∧ ¬ ['/', '*'] <:+: cs

/-- Outside its quotes, which are closed, the text is harmless. -/
def Settled (sql : String) : Prop :=
  ∃ cs, bare sql = some cs ∧ Harmless cs

/-! ### Scanning by modes -/

/-- Where a scan is: outside quotes, there after a dash or a slash, inside quotes, or past
something harmful. -/
inductive Mode where
  | plain | dash | slash | literal | ident | broken
deriving DecidableEq

namespace Mode

def isOpen : Mode → Bool
  | .plain | .dash | .slash => true
  | _ => false

/-- The mode after a character outside quotes. -/
def outside (m : Mode) (c : Char) : Mode :=
  if c == '\'' then .literal
  else if c == '"' then .ident
  else if c == ';' then .broken
  else if c == '-' then if m == .dash then .broken else .dash
  else if c == '*' then if m == .slash then .broken else .plain
  else if c == '/' then .slash
  else .plain

def next (m : Mode) (c : Char) : Mode :=
  match m with
  | .literal => if c == '\'' then .plain else .literal
  | .ident => if c == '"' then .plain else .ident
  | .broken => .broken
  | m => m.outside c

/-- The mode after any character that means nothing outside quotes. -/
def settle : Mode → Mode
  | .dash | .slash => .plain
  | m => m

end Mode

def scan (m : Mode) (cs : List Char) : Mode :=
  cs.foldl Mode.next m

theorem scan_cons (m : Mode) (c : Char) (cs : List Char) : scan m (c :: cs) = scan (m.next c) cs :=
  rfl

theorem scan_append (m : Mode) (u v : List Char) : scan m (u ++ v) = scan (scan m u) v :=
  List.foldl_append

theorem scan_broken (cs : List Char) : scan .broken cs = .broken := by
  induction cs with
  | nil => rfl
  | cons c cs ih => rw [scan_cons]; exact ih

theorem harmless_cons {c : Char} {cs : List Char} :
    Harmless (c :: cs) ↔ c ≠ ';' ∧ (c = '-' → cs.head? ≠ some '-') ∧
      (c = '/' → cs.head? ≠ some '*') ∧ Harmless cs := by
  have starts (a b : Char) : [a, b] <+: c :: cs ↔ c = a ∧ cs.head? = some b := by
    cases cs with
    | nil => simp
    | cons d rest => simp [List.cons_prefix_cons, eq_comm]
  simp only [Harmless, List.mem_cons, List.infix_cons_iff, starts]
  constructor
  · rintro ⟨hsemi, hdash, hslash⟩
    refine ⟨fun he => hsemi (.inl he.symm), fun he hh => hdash (.inl ⟨he, hh⟩),
      fun he hh => hslash (.inl ⟨he, hh⟩), fun h => hsemi (.inr h), fun h => hdash (.inr h),
      fun h => hslash (.inr h)⟩
  · rintro ⟨hsemi, hdash, hslash, hmem, hdashes, hslashes⟩
    refine ⟨?_, ?_, ?_⟩
    · rintro (he | h)
      · exact hsemi he.symm
      · exact hmem h
    · rintro (⟨he, hh⟩ | h)
      · exact hdash he hh
      · exact hdashes h
    · rintro (⟨he, hh⟩ | h)
      · exact hslash he hh
      · exact hslashes h

theorem harmless_nil : Harmless [] := by
  simp [Harmless]

/-- The character that an open mode remembers. -/
def Mode.pending : Mode → List Char
  | .dash => ['-']
  | .slash => ['/']
  | _ => []

/-- The mode inside a quote. -/
def Mode.within (q : Char) : Mode :=
  if q == '\'' then .literal else .ident

theorem harmless_pending {m : Mode} {c : Char} {cs : List Char} (hdash : m = .dash → c ≠ '-')
    (hslash : m = .slash → c ≠ '*') (h : Harmless (c :: cs)) : Harmless (m.pending ++ c :: cs) := by
  cases m with
  | dash => exact harmless_cons.mpr ⟨by simp, fun _ => by simpa using hdash rfl, by simp, h⟩
  | slash => exact harmless_cons.mpr ⟨by simp, by simp, fun _ => by simpa using hslash rfl, h⟩
  | plain => exact h
  | literal => exact h
  | ident => exact h
  | broken => exact h

theorem next_of_isOpen {m : Mode} (hm : m.isOpen) (c : Char) : m.next c = m.outside c := by
  cases m <;> first | rfl | cases hm

theorem next_within {q : Char} (hq : q = '\'' ∨ q = '"') (c : Char) :
    (Mode.within q).next c = if c == q then .plain else .within q := by
  rcases hq with rfl | rfl <;> rfl

theorem not_isOpen_within (q : Char) : (Mode.within q).isOpen = false := by
  unfold Mode.within
  split <;> rfl

theorem bareFrom_closed {q d : Char} {cs : List Char} (hd : d ≠ q) :
    bareFrom (some q) (q :: d :: cs) = bareFrom none (d :: cs) := by
  rw [bareFrom.eq_def]
  simp only [beq_self_eq_true, if_true, beq_iff_eq, if_neg hd]

theorem bareFrom_inner {q c : Char} {cs : List Char} (hc : c ≠ q) :
    bareFrom (some q) (c :: cs) = bareFrom (some q) cs := by
  rw [bareFrom.eq_def]
  simp only [beq_iff_eq, if_neg hc]

/-- One character outside quotes, the rest being known. -/
theorem bareFrom_open {m : Mode} {c : Char} {cs : List Char} (hm : m.isOpen)
    (hrest : ∀ m', m'.isOpen → (scan m' cs).isOpen →
      ∃ b, bareFrom none cs = some b ∧ Harmless (m'.pending ++ b))
    (hquote : ∀ q, q = '\'' ∨ q = '"' → (scan (.within q) cs).isOpen →
      ∃ b, bareFrom (some q) cs = some b ∧ Harmless b)
    (h : (scan m (c :: cs)).isOpen) :
    ∃ b, bareFrom none (c :: cs) = some b ∧ Harmless (m.pending ++ b) := by
  rw [scan_cons, next_of_isOpen hm] at h
  by_cases hc : c = '\'' ∨ c = '"'
  · have hmode : m.outside c = .within c := by rcases hc with rfl | rfl <;> rfl
    rw [hmode] at h
    obtain ⟨b, hb, hharmless⟩ := hquote c hc h
    refine ⟨c :: b, by rcases hc with rfl | rfl <;> simp [bareFrom, hb], ?_⟩
    apply harmless_pending
    · rcases hc with rfl | rfl <;> simp
    · rcases hc with rfl | rfl <;> simp
    · rw [harmless_cons]
      rcases hc with rfl | rfl <;> simp [hharmless]
  · rw [not_or] at hc
    have hbare : bareFrom none (c :: cs) = (bareFrom none cs).map (c :: ·) := by
      simp [bareFrom, hc.1, hc.2]
    simp only [Mode.outside, beq_iff_eq, if_neg hc.1, if_neg hc.2] at h
    by_cases hsemi : c = ';'
    · rw [if_pos hsemi, scan_broken] at h
      cases h
    rw [if_neg hsemi] at h
    by_cases hdash : c = '-'
    · subst hdash
      by_cases hmd : m = .dash
      · simp only [if_true, if_pos hmd, scan_broken] at h
        cases h
      · simp only [if_true, if_neg hmd] at h
        obtain ⟨b, hb, hharmless⟩ := hrest .dash rfl h
        refine ⟨'-' :: b, by rw [hbare, hb]; rfl, ?_⟩
        exact harmless_pending (fun he => absurd he hmd) (fun _ => by decide) hharmless
    rw [if_neg hdash] at h
    by_cases hstar : c = '*'
    · subst hstar
      by_cases hms : m = .slash
      · simp only [if_true, if_pos hms, scan_broken] at h
        cases h
      · simp only [if_true, if_neg hms] at h
        obtain ⟨b, hb, hharmless⟩ := hrest .plain rfl h
        refine ⟨'*' :: b, by rw [hbare, hb]; rfl, ?_⟩
        refine harmless_pending (fun _ => by decide) (fun he => absurd he hms) ?_
        exact harmless_cons.mpr ⟨by simp, by simp, by simp, hharmless⟩
    rw [if_neg hstar] at h
    by_cases hslash : c = '/'
    · subst hslash
      obtain ⟨b, hb, hharmless⟩ := hrest .slash rfl h
      refine ⟨'/' :: b, by rw [hbare, hb]; rfl, ?_⟩
      exact harmless_pending (fun _ => by decide) (fun _ => by decide) hharmless
    · rw [if_neg hslash] at h
      obtain ⟨b, hb, hharmless⟩ := hrest .plain rfl h
      refine ⟨c :: b, by rw [hbare, hb]; rfl, ?_⟩
      refine harmless_pending (fun _ => hdash) (fun _ => hstar) ?_
      exact harmless_cons.mpr ⟨hsemi, fun he => absurd he hdash, fun he => absurd he hslash,
        hharmless⟩

/-- A scan that ends open has met nothing harmful outside quotes. The induction is on the length,
since a quote written twice takes two characters. -/
theorem bareFrom_of_scan (n : Nat) : ∀ cs : List Char, cs.length ≤ n →
    (∀ m : Mode, m.isOpen → (scan m cs).isOpen →
      ∃ b, bareFrom none cs = some b ∧ Harmless (m.pending ++ b)) ∧
    (∀ q, q = '\'' ∨ q = '"' → (scan (.within q) cs).isOpen →
      ∃ b, bareFrom (some q) cs = some b ∧ Harmless b) := by
  induction n with
  | zero =>
    intro cs hcs
    obtain rfl := List.length_eq_zero_iff.mp (Nat.le_zero.mp hcs)
    refine ⟨?_, ?_⟩
    · intro m hm _
      refine ⟨[], rfl, ?_⟩
      cases m <;> simp [Mode.pending, harmless_cons, harmless_nil]
    · intro q _ h
      simp only [scan, List.foldl_nil, not_isOpen_within] at h
      cases h
  | succ n ih =>
    intro cs hcs
    cases cs with
    | nil => exact ih [] (Nat.zero_le n)
    | cons c cs =>
      have hlen : cs.length ≤ n := Nat.le_of_succ_le_succ hcs
      refine ⟨fun m hm h => bareFrom_open hm (ih cs hlen).1 (ih cs hlen).2 h, ?_⟩
      intro q hq h
      rw [scan_cons, next_within hq] at h
      by_cases hc : c = q
      · subst hc
        simp only [beq_self_eq_true, if_true] at h
        cases cs with
        | nil => exact ⟨[], by simp [bareFrom], harmless_nil⟩
        | cons d rest =>
          by_cases hd : d = c
          · subst hd
            have hmode : Mode.next .plain d = .within d := by rcases hq with rfl | rfl <;> rfl
            rw [scan_cons, hmode] at h
            obtain ⟨b, hb, hharmless⟩ := (ih rest (by simp at hlen; omega)).2 d hq h
            exact ⟨b, by simp [bareFrom, hb], hharmless⟩
          · obtain ⟨b, hb, hharmless⟩ := (ih (d :: rest) hlen).1 .plain rfl h
            exact ⟨b, by rw [bareFrom_closed hd, hb], hharmless⟩
      · simp only [beq_iff_eq, if_neg hc] at h
        obtain ⟨b, hb, hharmless⟩ := (ih cs hlen).2 q hq h
        exact ⟨b, by rw [bareFrom_inner hc, hb], hharmless⟩

theorem settled_of_scan {sql : String} (h : (scan .plain sql.toList).isOpen) : Settled sql :=
  (bareFrom_of_scan _ sql.toList (Nat.le_refl _)).1 .plain rfl h

end PathQuery.Sql
