import PathQuery.Proofs.Template.Binding
import PathQuery.Sqlite

/-!
What parameters keep of the values that they are made of. The text of a date is read back as the
date, whatever the year, and the text of a date and time as the same to the second. So two values of
one kind become the same parameter only if they are equal, except for the fractions of a second.
-/

namespace PathQuery

namespace Calendar

variable {width n : Nat} {rest : List Char}

/-! ### Numbers -/

theorem toList_padded (width n : Nat) :
    (padded width n).toList =
      List.replicate (width - (Text.digits n).length) '0' ++ Text.digits n := by
  rw [padded, String.toList_ofList]

theorem length_padded (h : (Text.digits n).length ≤ width) :
    (padded width n).toList.length = width := by
  rw [toList_padded, List.length_append, List.length_replicate, Nat.sub_add_cancel h]

theorem isDigit_of_mem_padded {c : Char} (h : c ∈ (padded width n).toList) : c.isDigit := by
  rw [toList_padded, List.mem_append] at h
  rcases h with h | h
  · rw [(List.mem_replicate.mp h).2]
    rfl
  · exact Nat.isDigit_of_mem_toDigits (by decide) (by decide) h

theorem digitsValue_padded (width n : Nat) : Text.digitsValue (padded width n).toList = n := by
  have hzeros (k : Nat) (ds : List Char) :
      Text.digitsValue (List.replicate k '0' ++ ds) = Text.digitsValue ds := by
    induction k with
    | zero => rfl
    | succ k ih => exact ih
  have hdigits := Splice.toNat?_digits n
  unfold Text.toNat? at hdigits
  split at hdigits
  · rw [toList_padded, hzeros]
    exact Option.some.inj hdigits
  · cases hdigits

theorem not_isBlank_of_isDigit {c : Char} (h : c.isDigit) : Text.isBlank c = false := by
  simp only [Char.isDigit, Bool.and_eq_true, decide_eq_true_eq, UInt32.le_iff_toNat_le] at h
  have hcode : 48 ≤ c.toNat ∧ c.toNat ≤ 57 := h
  simp [Text.isBlank]
  omega

theorem trimStart_cons {c : Char} (hc : Text.isBlank c = false) (cs : List Char) :
    Text.trimStart (c :: cs) = c :: cs :=
  List.dropWhile_cons_of_neg (by simp [hc])

/-- A number is read up to its width or up to what is no digit. -/
theorem readNumber?_append {ds : List Char} (hne : ds ≠ []) (hdigits : ∀ c ∈ ds, c.isDigit)
    (hend : ds.length = width ∨ ds.length ≤ width ∧ ∀ c ∈ rest.head?, c.isDigit = false) :
    readNumber? width (ds ++ rest) = some (Text.digitsValue ds, rest) := by
  have htrim : Text.trimStart (ds ++ rest) = ds ++ rest := by
    obtain ⟨c, ds, rfl⟩ := List.exists_cons_of_ne_nil hne
    exact trimStart_cons (not_isBlank_of_isDigit (hdigits c List.mem_cons_self)) _
  have htake : ((ds ++ rest).takeWhile Char.isDigit).take width = ds := by
    rw [List.takeWhile_append_of_pos hdigits]
    rcases hend with rfl | ⟨hwidth, hhead⟩
    · rw [List.take_left]
    · have hnone : rest.takeWhile Char.isDigit = [] := by
        cases rest with
        | nil => rfl
        | cons c rest => exact List.takeWhile_cons_of_neg (by simp [hhead c rfl])
      rw [hnone, List.append_nil, List.take_of_length_le hwidth]
  simp [readNumber?, htrim, htake, hne]

theorem padded_ne_nil (width n : Nat) : (padded width n).toList ≠ [] := by
  simp [toList_padded, Text.digits, Nat.toDigits_ne_nil]

theorem readNumber?_padded {k : Nat} (hend : (padded k n).toList.length = width ∨
      (padded k n).toList.length ≤ width ∧ ∀ c ∈ rest.head?, c.isDigit = false) :
    readNumber? width ((padded k n).toList ++ rest) = some (n, rest) := by
  rw [readNumber?_append (padded_ne_nil k n) (fun _ => isDigit_of_mem_padded) hend,
    digitsValue_padded]

/-- Two digits are read whatever follows. -/
theorem readNumber?_two (h : n < 100) (rest : List Char) :
    readNumber? 2 ((padded 2 n).toList ++ rest) = some (n, rest) :=
  have hdigits : (Text.digits n).length ≤ 2 :=
    (Nat.length_toDigits_le_iff (by decide) (by decide)).mpr h
  readNumber?_padded (.inl (length_padded hdigits))

theorem expect?_cons {c : Char} (hc : Text.isBlank c = false) (rest : List Char) :
    expect? c (c :: rest) = some rest := by
  simp [expect?, trimStart_cons hc]

/-! ### Dates -/

/-- The year as it is written. -/
def yearText (year : Int) : String :=
  if 0 ≤ year && year ≤ 9999 then padded 4 year.toNat
  else (if year < 0 then "-" else "+") ++ padded 4 year.natAbs

theorem readYear?_minus (cs : List Char) :
    readYear? ('-' :: cs) =
      (readNumber? cs.length cs).map fun read => (-(read.1 : Int), read.2) := by
  unfold readYear?
  rw [trimStart_cons (by decide)]
  rfl

theorem readYear?_plus (cs : List Char) :
    readYear? ('+' :: cs) =
      (readNumber? cs.length cs).map fun read => ((read.1 : Int), read.2) := by
  unfold readYear?
  rw [trimStart_cons (by decide)]
  rfl

theorem readYear?_digit {c : Char} (hc : c.isDigit) (cs : List Char) :
    readYear? (c :: cs) = (readNumber? 4 (c :: cs)).map fun read => ((read.1 : Int), read.2) := by
  unfold readYear?
  rw [trimStart_cons (not_isBlank_of_isDigit hc)]
  split
  · next heq =>
    cases heq
    cases hc
  · next heq =>
    cases heq
    cases hc
  · rfl

theorem readYear?_yearText (year : Int) {rest : List Char}
    (hrest : ∀ c ∈ rest.head?, c.isDigit = false) :
    readYear? ((yearText year).toList ++ rest) = some (year, rest) := by
  have hsigned : readNumber? ((padded 4 year.natAbs).toList ++ rest).length
      ((padded 4 year.natAbs).toList ++ rest) = some (year.natAbs, rest) :=
    readNumber?_padded (.inr ⟨by simp, hrest⟩)
  unfold yearText
  split
  · next hbare =>
    simp only [Bool.and_eq_true, decide_eq_true_eq] at hbare
    have hdigits : (Text.digits year.toNat).length ≤ 4 :=
      (Nat.length_toDigits_le_iff (by decide) (by decide)).mpr (by omega)
    have hread : readNumber? 4 ((padded 4 year.toNat).toList ++ rest) = some (year.toNat, rest) :=
      readNumber?_padded (.inl (length_padded hdigits))
    obtain ⟨c, ds, hcs⟩ := List.exists_cons_of_ne_nil (padded_ne_nil 4 year.toNat)
    have hc : c.isDigit := isDigit_of_mem_padded (by rw [hcs]; exact List.mem_cons_self)
    -- the first character is a digit, so neither sign is taken from the year
    rw [hcs, List.cons_append] at hread ⊢
    rw [readYear?_digit hc, hread, Option.map_some, Int.toNat_of_nonneg hbare.1]
  · next hbare =>
    simp only [Bool.and_eq_true, decide_eq_true_eq] at hbare
    split
    · next hneg =>
      have htext : ("-" ++ padded 4 year.natAbs).toList ++ rest =
          '-' :: ((padded 4 year.natAbs).toList ++ rest) := by simp
      rw [htext, readYear?_minus, hsigned, Option.map_some,
        ← Int.eq_neg_natAbs_of_nonpos (by omega)]
    · next hneg =>
      have htext : ("+" ++ padded 4 year.natAbs).toList ++ rest =
          '+' :: ((padded 4 year.natAbs).toList ++ rest) := by simp
      rw [htext, readYear?_plus, hsigned, Option.map_some, Int.natAbs_of_nonneg (by omega)]

theorem not_isDigit_dash (cs : List Char) : ∀ c ∈ ('-' :: cs).head?, c.isDigit = false := by
  intro c hc
  cases hc
  rfl

theorem make?_date (d : Date) : Date.make? d.year d.month d.day = some d := by
  rw [Date.make?, dif_pos d.month_valid, dif_pos d.day_valid]

theorem day_lt (d : Date) : d.day < 100 := by
  have hvalid := d.day_valid.2
  have hdays : daysInMonth d.year d.month ≤ 31 := by
    unfold daysInMonth
    split
    · split <;> omega
    · split <;> omega
  omega

/-- A written date is read back before anything. -/
theorem readDate?_render (d : Date) (rest : List Char) :
    readDate? (d.render.toList ++ rest) = some (d, rest) := by
  have htext : d.render.toList ++ rest = (yearText d.year).toList ++
      '-' :: ((padded 2 d.month).toList ++ '-' :: ((padded 2 d.day).toList ++ rest)) := by
    simp [Date.render, yearText]
  have hmonth : d.month < 100 := by
    have hvalid := d.month_valid.2
    omega
  rw [htext, readDate?, readYear?_yearText d.year (not_isDigit_dash _)]
  simp [expect?_cons, readNumber?_two hmonth, readNumber?_two (day_lt d), make?_date,
    show Text.isBlank '-' = false by decide]

end Calendar

/-! ### Times -/

/-- The time without the fraction of its second. -/
def Time.whole (t : Time) : Time :=
  { t with nanos := 0, nanos_valid := by decide }

namespace Calendar

theorem make?_whole (t : Time) : Time.make? t.hour t.minute t.second 0 = some t.whole := by
  rw [Time.make?, dif_pos t.hour_valid, dif_pos t.minute_valid, dif_pos t.second_valid,
    dif_pos (by decide)]
  rfl

/-- A written time is read back without its fraction. -/
theorem readTime?_renderSeconds (t : Time) :
    readTime? t.renderSeconds.toList = some (t.whole, []) := by
  have htext : t.renderSeconds.toList = (padded 2 t.hour).toList ++
      ':' :: ((padded 2 t.minute).toList ++ ':' :: ((padded 2 t.second).toList ++ [])) := by
    simp [Time.renderSeconds]
  have hhour : t.hour < 100 := Nat.lt_trans t.hour_valid (by decide)
  have hminute : t.minute < 100 := Nat.lt_trans t.minute_valid (by decide)
  have hsecond : t.second < 100 := Nat.lt_of_le_of_lt t.second_valid (by decide)
  have hcolon : Text.isBlank ':' = false := by decide
  rw [htext, readTime?]
  simp only [readNumber?_two hhour, readNumber?_two hminute, readNumber?_two hsecond,
    expect?_cons hcolon, Option.bind_eq_bind, Option.bind_some, readFraction?, make?_whole]
  rfl

end Calendar

open Calendar

theorem Time.renderSeconds_eq_iff {t u : Time} :
    t.renderSeconds = u.renderSeconds ↔ t.whole = u.whole := by
  constructor
  · intro h
    have hread := readTime?_renderSeconds t
    rw [h, readTime?_renderSeconds u] at hread
    exact congrArg Prod.fst (Option.some.inj hread).symm
  · intro h
    have hwhole (t : Time) : t.renderSeconds = t.whole.renderSeconds := rfl
    rw [hwhole t, hwhole u, h]

theorem Date.render_append_inj {d e : Date} {s t : String} (h : d.render ++ s = e.render ++ t) :
    d = e ∧ s.toList = t.toList := by
  have hread := readDate?_render d s.toList
  rw [← String.toList_append, h, String.toList_append, readDate?_render e] at hread
  have hpair := Option.some.inj hread
  exact ⟨congrArg Prod.fst hpair.symm, congrArg Prod.snd hpair.symm⟩

/-- Dates with times are written alike if and only if they are the same to the second. -/
theorem DateTime.renderSeconds_eq_iff {t u : DateTime} :
    t.renderSeconds = u.renderSeconds ↔ t.date = u.date ∧ t.time.whole = u.time.whole := by
  rw [← Time.renderSeconds_eq_iff]
  unfold DateTime.renderSeconds
  constructor
  · intro h
    rw [String.append_assoc, String.append_assoc] at h
    obtain ⟨hdate, htime⟩ := Date.render_append_inj h
    rw [String.toList_append, String.toList_append] at htime
    exact ⟨hdate, String.toList_inj.mp (List.append_cancel_left htime)⟩
  · rintro ⟨hdate, htime⟩
    rw [hdate, htime]

/-! ### Parameters -/

/-- The value without the fraction of a second. -/
def Value.whole : Value → Value
  | .dateTime t => .dateTime ⟨t.date, t.time.whole⟩
  | v => v

/-- Two truth values, two whole numbers, two texts, two dates, or two dates with times. -/
inductive Value.Alike : Value → Value → Prop
  | bool (a b : Bool) : Alike (.bool a) (.bool b)
  | int (m n : Int64) : Alike (.int m) (.int n)
  | text (s t : String) : Alike (.text s) (.text t)
  | date (d e : Date) : Alike (.date d) (.date e)
  | dateTime (t u : DateTime) : Alike (.dateTime t) (.dateTime u)

namespace Sqlite

theorem bind_alike {v w : Value} (h : v.Alike w) :
    ∃ c d, bind v = .ok c ∧ bind w = .ok d ∧ (c = d ↔ v.whole = w.whole) := by
  cases h with
  | bool a b => exact ⟨_, _, rfl, rfl, by simp [Value.whole]⟩
  | int m n => exact ⟨_, _, rfl, rfl, by simp [Value.whole]⟩
  | text s t => exact ⟨_, _, rfl, rfl, by simp [Value.whole]⟩
  | date d e =>
    refine ⟨_, _, rfl, rfl, ?_⟩
    simp only [Cell.text.injEq, Value.whole, Value.date.injEq]
    refine ⟨fun heq => ?_, fun heq => heq ▸ rfl⟩
    exact (Date.render_append_inj (congrArg (· ++ "") heq)).1
  | dateTime t u =>
    refine ⟨_, _, rfl, rfl, ?_⟩
    simp [Value.whole, DateTime.renderSeconds_eq_iff]

/-- Values of one kind become parameters, and the parameters are the same if and only if the values
are without the fractions of a second. So what a column has of the one value is found by the other
if and only if they differ in nothing else. -/
theorem bind_eq_iff {v w : Value} (h : v.Alike w) :
    ∃ c d, bind v = .ok c ∧ bind w = .ok d ∧ (c = d ↔ v.whole = w.whole) ∧
      ∀ column : List Cell, (∀ cell ∈ column, cell = d) →
        (c ∈ column ↔ column ≠ [] ∧ v.whole = w.whole) := by
  obtain ⟨c, d, hc, hd, heq⟩ := bind_alike h
  refine ⟨c, d, hc, hd, heq, fun column honly => ?_⟩
  rw [← heq, List.eq_replicate_of_mem honly, List.mem_replicate]
  simp

/-- A moment in the eighth second of a minute. -/
def moment (nanos : Fin 1000000000) : DateTime :=
  ⟨⟨2021, 3, 4, by decide, by decide⟩,
    ⟨5, 6, 7, nanos, by decide, by decide, by decide, nanos.isLt⟩⟩

/-- A quarter and a half of one second become one parameter, which finds either in a column of the
other. -/
theorem bind_eq_iff_quarter_half :
    moment 250000000 ≠ moment 500000000 ∧
      Value.Alike (.dateTime (moment 250000000)) (.dateTime (moment 500000000)) ∧
      ∃ c d, bind (.dateTime (moment 250000000)) = .ok c ∧
        bind (.dateTime (moment 500000000)) = .ok d ∧ c = d ∧ c ∈ [d, d] := by
  have halike : Value.Alike (.dateTime (moment 250000000)) (.dateTime (moment 500000000)) :=
    .dateTime _ _
  obtain ⟨c, d, hc, hd, heq, hcolumn⟩ := bind_eq_iff halike
  have hwhole : (Value.dateTime (moment 250000000)).whole =
      (Value.dateTime (moment 500000000)).whole := rfl
  refine ⟨by decide, halike, c, d, hc, hd, heq.mpr hwhole, ?_⟩
  exact (hcolumn [d, d] (by simp)).mpr ⟨by simp, hwhole⟩

end Sqlite
end PathQuery
