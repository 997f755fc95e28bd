import PathQuery.Csv
import PathQuery.Proofs.Expr.Failure
import PathQuery.Proofs.Text.Joined

/-!
Lines of comma-separated values are read back. A reader goes through a record character by character
and takes quoted fields as well as bare ones. What stands bare on a line reads as a number, and a
number has no comma, quote or line break; any other text is between quotes, so no line break at the
end of a field is lost with the one that ends the record.
-/

namespace PathQuery

/-! ### The characters of numbers -/

namespace Number

/-- The characters that a number can have. -/
def isNumeral (c : Char) : Bool :=
  c.isAlphanum || c == '.' || c == '+' || c == '-'

theorem isNumeral_of_isDigit {c : Char} (h : c.isDigit) : isNumeral c := by
  simp [isNumeral, Char.isAlphanum, h]

theorem isNumeral_of_toNat? {cs : List Char} (h : (Text.toNat? cs).isSome) :
    ∀ c ∈ cs, isNumeral c := by
  simp only [Text.toNat?] at h
  split at h
  · next hdigits =>
    rw [Bool.and_eq_true, List.all_eq_true] at hdigits
    exact fun c hc => isNumeral_of_isDigit (hdigits.2 c hc)
  · cases h

theorem isNumeral_of_toInt? {cs : List Char} (h : (Text.toInt? cs).isSome) :
    ∀ c ∈ cs, isNumeral c := by
  have hsome {ds : List Char} {f : Nat → Option Int} (h : ((Text.toNat? ds).bind f).isSome) :
      ∀ c ∈ ds, isNumeral c := by
    cases hn : Text.toNat? ds with
    | none => simp [hn] at h
    | some n => exact isNumeral_of_toNat? (by simp [hn])
  unfold Text.toInt? at h
  split at h
  · exact List.forall_mem_cons.mpr ⟨by decide, hsome (by simpa using h)⟩
  · exact List.forall_mem_cons.mpr ⟨by decide, hsome (by simpa using h)⟩
  · exact hsome (by simpa using h)

theorem isNumeral_of_readExponent? {cs : List Char} (h : (readExponent? cs).isSome) :
    ∀ c ∈ cs, isNumeral c := by
  cases cs with
  | nil => simp
  | cons c cs =>
    simp only [readExponent?] at h
    split at h
    · next hmark =>
      rw [Bool.or_eq_true, beq_iff_eq, beq_iff_eq] at hmark
      refine List.forall_mem_cons.mpr ⟨?_, isNumeral_of_toInt? h⟩
      rcases hmark with rfl | rfl <;> decide
    · cases h

theorem isNumeral_of_takeDigits {cs : List Char} (h : ∀ c ∈ (takeDigits cs).2, isNumeral c) :
    ∀ c ∈ cs, isNumeral c := by
  rw [takeDigits, List.span_eq_takeWhile_dropWhile] at h
  rw [← List.takeWhile_append_dropWhile (p := Char.isDigit) (l := cs)]
  intro c hc
  rcases List.mem_append.mp hc with hc | hc
  · exact isNumeral_of_isDigit (List.mem_takeWhile_imp hc)
  · exact h c hc

theorem isNumeral_of_readUnsigned? {negative : Bool} {cs : List Char}
    (h : (readUnsigned? negative cs).isSome) : ∀ c ∈ cs, isNumeral c := by
  simp only [readUnsigned?] at h
  split at h
  · next places hplaces =>
    split at h
    · cases h
    · rw [Option.isSome_map] at h
      refine isNumeral_of_takeDigits ?_
      rw [hplaces]
      exact List.forall_mem_cons.mpr
        ⟨by decide, isNumeral_of_takeDigits (isNumeral_of_readExponent? h)⟩
  · split at h
    · cases h
    · rw [Option.isSome_map] at h
      exact isNumeral_of_takeDigits (isNumeral_of_readExponent? h)

theorem isNumeral_of_word {cs word : List Char} (hword : word.all Char.isLower)
    (h : cs.map Char.toLower = word) : ∀ c ∈ cs, isNumeral c := by
  subst h
  intro c hc
  have hlower := List.all_eq_true.mp hword _ (List.mem_map_of_mem hc)
  simp [isNumeral, Char.isAlphanum, Expr.isAlpha_of_toLower rfl hlower]

/-- What reads as a number is not empty and has the characters of numbers. -/
theorem isNumeral_of_read? {cs : List Char} (h : (read? cs).isSome) :
    cs ≠ [] ∧ ∀ c ∈ cs, isNumeral c := by
  have hbody {negative : Bool} {body : List Char} {nan inf : Float}
      (h : (if body.map Char.toLower == ['n', 'a', 'n'] then some nan
        else if body.map Char.toLower == ['i', 'n', 'f'] ||
          body.map Char.toLower == ['i', 'n', 'f', 'i', 'n', 'i', 't', 'y'] then some inf
        else readUnsigned? negative body).isSome) : ∀ c ∈ body, isNumeral c := by
    split at h
    · next hnan => exact isNumeral_of_word (by decide) (beq_iff_eq.mp hnan)
    · split at h
      · next hinf =>
        rw [Bool.or_eq_true, beq_iff_eq, beq_iff_eq] at hinf
        rcases hinf with hinf | hinf
        · exact isNumeral_of_word (by decide) hinf
        · exact isNumeral_of_word (by decide) hinf
      · exact isNumeral_of_readUnsigned? h
  constructor
  · rintro rfl
    cases h
  · simp only [read?] at h
    split at h
    · exact List.forall_mem_cons.mpr ⟨by decide, hbody h⟩
    · exact List.forall_mem_cons.mpr ⟨by decide, hbody h⟩
    · exact hbody h

end Number

namespace Csv

open Number (isNumeral)

/-! ### The reader -/

/-- Where a reader stands: before a field, in a bare one, between the quotes of one, or behind
them. -/
inductive Place where
  | start | bare | quoted | closed
deriving DecidableEq

/-- The fields of a record, `read` being the reversed beginning of the first. Between quotes a field
may hold commas, line breaks, and quotes that are written twice. Nothing is read where a quote is
not closed, after a closing quote, or at a quote or a line break in a bare field. -/
def fieldsFrom : Place → List Char → List Char → Option (List String)
  | .quoted, _, [] => none
  | _, read, [] => some [.ofList read.reverse]
  | .quoted, read, c :: cs =>
    if c == '"' then fieldsFrom .closed read cs else fieldsFrom .quoted (c :: read) cs
  | place, read, c :: cs =>
    if c == ',' then (fieldsFrom .start [] cs).map (.ofList read.reverse :: ·)
    else if c == '"' then
      match place with
      | .start => fieldsFrom .quoted read cs
      | .closed => fieldsFrom .quoted (c :: read) cs
      | _ => none
    else if place == .closed || isBreak c then none
    else fieldsFrom .bare (c :: read) cs

/-- The fields of a text that holds one record. -/
def fields? (text : String) : Option (List String) :=
  fieldsFrom .start [] text.toList

variable {place : Place}

theorem fieldsFrom_nil (h : place ≠ .quoted) (read : List Char) :
    fieldsFrom place read [] = some [.ofList read.reverse] := by
  cases place with
  | quoted => exact absurd rfl h
  | _ => rfl

theorem fieldsFrom_comma (h : place ≠ .quoted) (read cs : List Char) :
    fieldsFrom place read (',' :: cs) =
      (fieldsFrom .start [] cs).map (.ofList read.reverse :: ·) := by
  cases place with
  | quoted => exact absurd rfl h
  | _ => rfl

theorem not_separator_of_isNumeral {c : Char} (h : isNumeral c) :
    c ≠ ',' ∧ c ≠ '"' ∧ isBreak c = false := by
  refine ⟨?_, ?_, ?_⟩
  · rintro rfl
    cases h
  · rintro rfl
    cases h
  · rw [isBreak, Bool.or_eq_false_iff, beq_eq_false_iff_ne, beq_eq_false_iff_ne]
    constructor <;> (rintro rfl; cases h)

/-- The characters of a number are read one by one. -/
theorem fieldsFrom_numerals {w : List Char} (hw : ∀ c ∈ w, isNumeral c) (read cs : List Char) :
    fieldsFrom .bare read (w ++ cs) = fieldsFrom .bare (w.reverse ++ read) cs := by
  induction w generalizing read with
  | nil => rfl
  | cons c w ih =>
    rw [List.forall_mem_cons] at hw
    obtain ⟨hcomma, hquote, hbreak⟩ := not_separator_of_isNumeral hw.1
    have hstep (cs : List Char) :
        fieldsFrom .bare read (c :: cs) = fieldsFrom .bare (c :: read) cs := by
      simp [fieldsFrom, hcomma, hquote, hbreak]
    rw [List.cons_append, hstep, ih hw.2, List.reverse_cons, List.append_assoc,
      List.singleton_append]

theorem fieldsFrom_doubled (w read cs : List Char) :
    fieldsFrom .quoted read (Text.doubled '"' w ++ '"' :: cs) =
      fieldsFrom .closed (w.reverse ++ read) cs := by
  induction w generalizing read with
  | nil => rfl
  | cons c w ih =>
    by_cases hc : c = '"'
    · subst hc
      simpa [Text.doubled, fieldsFrom] using ih ('"' :: read)
    · simpa [Text.doubled, fieldsFrom, hc] using ih (c :: read)

/-- A written field is read up to its end, whatever follows. -/
theorem fieldsFrom_field (text : String) : ∃ place, place ≠ .quoted ∧
    ∀ cs, fieldsFrom .start [] ((field text).toList ++ cs) =
      fieldsFrom place text.toList.reverse cs := by
  unfold field
  split
  · next hnumber =>
    obtain ⟨hne, hnumerals⟩ := Number.isNumeral_of_read? hnumber
    obtain ⟨c, w, hcs⟩ := List.exists_cons_of_ne_nil hne
    rw [hcs, List.forall_mem_cons] at hnumerals
    obtain ⟨hcomma, hquote, hbreak⟩ := not_separator_of_isNumeral hnumerals.1
    refine ⟨.bare, by simp, fun cs => ?_⟩
    have hstart : fieldsFrom .start [] (c :: (w ++ cs)) = fieldsFrom .bare [c] (w ++ cs) := by
      simp [fieldsFrom, hcomma, hquote, hbreak]
    rw [hcs, List.cons_append, hstart, fieldsFrom_numerals hnumerals.2, List.reverse_cons]
  · refine ⟨.closed, by simp, fun cs => ?_⟩
    have hquoted := fieldsFrom_doubled text.toList [] cs
    rw [List.append_nil] at hquoted
    simpa [Text.quoted, fieldsFrom] using hquoted

theorem fields?_join {texts : List String} (hne : texts ≠ []) :
    fields? (Text.join "," (texts.map field)) = some texts := by
  unfold fields?
  induction texts with
  | nil => exact absurd rfl hne
  | cons text rest ih =>
    obtain ⟨place, hplace, hfield⟩ := fieldsFrom_field text
    by_cases hrest : rest = []
    · subst hrest
      have hlast := hfield []
      rw [List.append_nil, fieldsFrom_nil hplace] at hlast
      simpa [Text.join] using hlast
    · have htext : (Text.join "," ((text :: rest).map field)).toList =
          (field text).toList ++ ',' :: (Text.join "," (rest.map field)).toList := by
        simp [Text.join_cons _ (show rest.map field ≠ [] by simpa using hrest)]
      rw [htext, hfield, fieldsFrom_comma hplace, ih hrest]
      simp

/-! ### The line of a row -/

theorem field_ne_nil (text : String) : (field text).toList ≠ [] := by
  unfold field
  split
  · next hnumber => exact (Number.isNumeral_of_read? hnumber).1
  · simp [Text.quoted]

theorem getLast?_field (text : String) : ∀ c ∈ (field text).toList.getLast?, isBreak c = false := by
  unfold field
  split
  · next hnumber =>
    intro c hc
    have hnumeral := (Number.isNumeral_of_read? hnumber).2 c (List.mem_of_mem_getLast? hc)
    exact (not_separator_of_isNumeral hnumeral).2.2
  · intro c hc
    rw [Text.quoted, String.toList_ofList, List.getLast?_concat, Option.mem_some_iff] at hc
    subst hc
    rfl

/-- Only the line feed that ends the record is dropped from it. -/
theorem line_eq_join {row : List Value} (hne : row ≠ []) :
    line row = Text.join "," ((row.map Value.display).map field) := by
  have hlast : ∀ c ∈ (Text.join "," ((row.map Value.display).map field)).toList.getLast?,
      isBreak c = false :=
    Text.getLast?_join (List.forall_mem_map.mpr fun text _ => field_ne_nil text)
      (List.forall_mem_map.mpr fun text _ => getLast?_field text)
  have hrecord : record (row.map Value.display) =
      Text.join "," ((row.map Value.display).map field) ++ "\n" := by
    simp [record, hne]
  generalize Text.join "," ((row.map Value.display).map field) = text at hlast hrecord ⊢
  have hkept : text.toList.reverse.dropWhile isBreak = text.toList.reverse := by
    cases hcs : text.toList.reverse with
    | nil => rfl
    | cons c cs =>
      have hc := hlast c (by rw [← List.head?_reverse, hcs]; rfl)
      exact List.dropWhile_cons_of_neg (by simp [hc])
  rw [line, hrecord]
  simp [hkept, isBreak]

/-- The line of a row is read as one record with the texts of the row, unless the row has no
values. -/
theorem fields?_line_iff (row : List Value) :
    fields? (line row) = some (row.map Value.display) ↔ row ≠ [] := by
  constructor
  · rintro h rfl
    cases h
  · intro hne
    rw [line_eq_join hne, fields?_join (by simpa using hne)]

end Csv
end PathQuery
