import PathQuery.Proofs.Expr.Failure
import PathQuery.Proofs.Sql.Fragment

/-!
The outermost function of a text. It is read off the start of the text, so it depends on nothing
behind the first character that no aggregate has in its name, and moving placeholders does not
change it.
-/

namespace PathQuery.Select

variable {d : Dialect} {s t : String} {b : Bool}

/-! ### Names of aggregates -/

theorem letters_of_mem_aggregates {a : String} (h : a ∈ d.aggregates) :
    a.toList.all fun c => c.isLower || c == '_' := by
  have hall : d.aggregates.all fun a => a.toList.all fun c => c.isLower || c == '_' := by
    cases d <;> decide
  exact List.all_eq_true.mp hall a h

/-- Only letters and underscores are in the name of an aggregate. -/
theorem isAggregate_letters (h : d.isAggregate s) : ∀ c ∈ s.toList, c.isAlpha ∨ c = '_' := by
  intro c hc
  rw [Dialect.isAggregate, List.contains_iff_mem] at h
  have hletter : c.toLower.isLower || c.toLower == '_' := by
    refine List.all_eq_true.mp (letters_of_mem_aggregates h) c.toLower ?_
    rw [Text.lowerBasic, String.toList_ofList]
    exact List.mem_map_of_mem hc
  rw [Bool.or_eq_true, beq_iff_eq] at hletter
  rcases hletter with hlower | hunder
  · exact .inl (Expr.isAlpha_of_toLower rfl hlower)
  · by_cases hupper : c.isUpper
    · exact .inl ((Bool.or_eq_true _ _).mpr (.inl hupper))
    · exact .inr ((Expr.toLower_of_not_isUpper hupper).symm.trans hunder)

/-- Characters that end what the outermost function depends on. -/
def isForeign (c : Char) : Bool :=
  !c.isAlpha && c != '_' && c != '(' && !Text.isBlank c

theorem mem_trimChars {c : Char} {cs : List Char} (hc : Text.isBlank c = false) (h : c ∈ cs) :
    c ∈ Text.trimChars cs := by
  have hstart {cs : List Char} (h : c ∈ cs) : c ∈ cs.dropWhile Text.isBlank := by
    induction cs with
    | nil => cases h
    | cons a cs ih =>
      by_cases ha : Text.isBlank a
      · rw [List.dropWhile_cons_of_pos ha]
        rcases List.mem_cons.mp h with rfl | h
        · rw [hc] at ha
          cases ha
        · exact ih h
      · rw [List.dropWhile_cons_of_neg ha]
        exact h
  rw [Text.trimChars, Text.trimEnd, Text.trimStart, List.mem_reverse]
  exact hstart (List.mem_reverse.mpr (hstart h))

/-- A word at the start of a text is there after trimming. -/
theorem trimChars_append {w : List Char} (hne : w ≠ []) (hw : ∀ c ∈ w, Text.isBlank c = false)
    (cs : List Char) : Text.trimChars (w ++ cs) = w ++ Text.trimEnd cs := by
  have hsolid (w : List Char) (hne : w ≠ []) (hw : ∀ c ∈ w, Text.isBlank c = false)
      (cs : List Char) : (w ++ cs).dropWhile Text.isBlank = w ++ cs := by
    cases w with
    | nil => exact absurd rfl hne
    | cons c w => rw [List.cons_append, List.dropWhile_cons_of_neg (by simp [hw c])]
  have hback := hsolid w.reverse (by simpa using hne) (by simpa using hw) []
  rw [List.append_nil] at hback
  rw [Text.trimChars, Text.trimStart, hsolid w hne hw, Text.trimEnd, Text.trimEnd,
    List.reverse_append, List.dropWhile_append, hback]
  split
  · next hempty => simp [List.isEmpty_iff.mp hempty]
  · rw [List.reverse_append, List.reverse_reverse]

/-! ### The name before the first parenthesis -/

/-- Whether a text that starts with a name starts with that of an aggregate. -/
def headed (d : Dialect) (body : List Char) : Bool :=
  body.contains '(' && d.isAggregate (.ofList (Text.trimChars (body.takeWhile (· != '('))))

theorem isAggregateSql_eq (d : Dialect) (cs : List Char) :
    isAggregateSql d (.ofList cs) =
      headed d (cs.dropWhile fun c => c == '(' || Text.isBlank c) := by
  rw [isAggregateSql, String.toList_ofList]
  generalize cs.dropWhile (fun c => c == '(' || Text.isBlank c) = body
  have hlength : (body.takeWhile (· != '(')).length < body.length ↔ '(' ∈ body := by
    induction body with
    | nil => simp
    | cons c cs ih =>
      by_cases hc : c = '('
      · simp [hc]
      · rw [List.takeWhile_cons_of_pos (by simpa using hc)]
        simp [ih, Ne.symm hc]
  unfold headed
  by_cases hmem : '(' ∈ body
  · rw [if_pos (hlength.mpr hmem), List.contains_iff_mem.mpr hmem, Bool.true_and]
  · have hnone : body.contains '(' = false := by simpa using hmem
    rw [if_neg (hlength.not.mpr hmem), hnone, Bool.false_and]

theorem headed_foreign {x : Char} (hx : isForeign x) (u v : List Char) :
    headed d (u ++ x :: v) = headed d u := by
  simp only [isForeign, Bool.and_eq_true, Bool.not_eq_true', bne_iff_ne, ne_eq] at hx
  obtain ⟨⟨⟨halpha, hunder⟩, hparen⟩, hblank⟩ := hx
  unfold headed
  by_cases hmem : '(' ∈ u
  · have htake : (u ++ x :: v).takeWhile (· != '(') = u.takeWhile (· != '(') := by
      obtain ⟨before, after, rfl, hbefore⟩ := List.eq_append_cons_of_mem hmem
      have hall : ∀ c ∈ before, c != '(' := by
        intro c hc
        rw [bne_iff_ne]
        rintro rfl
        exact hbefore hc
      rw [List.append_assoc, List.takeWhile_append_of_pos hall, List.takeWhile_append_of_pos hall]
      simp
    rw [htake]
    simp [hmem]
  · have hnone : u.contains '(' = false := by simpa using hmem
    have hall : ∀ c ∈ u, c != '(' := by
      intro c hc
      rw [bne_iff_ne]
      rintro rfl
      exact hmem hc
    have hin : x ∈ Text.trimChars ((u ++ x :: v).takeWhile (· != '(')) := by
      apply mem_trimChars hblank
      rw [List.takeWhile_append_of_pos hall, List.takeWhile_cons_of_pos (by simpa using hparen)]
      simp
    have hno : d.isAggregate (.ofList (Text.trimChars ((u ++ x :: v).takeWhile (· != '(')))) =
        false := by
      by_contra hyes
      rw [Bool.not_eq_false] at hyes
      rcases isAggregate_letters hyes x (by simpa using hin) with h | h
      · rw [h] at halpha
        cases halpha
      · exact hunder h
    rw [hnone, hno, Bool.and_false, Bool.false_and]

/-- What follows a foreign character does not count. -/
theorem isAggregateSql_foreign {x : Char} (hx : isForeign x) (u v : List Char) :
    isAggregateSql d (.ofList (u ++ x :: v)) = isAggregateSql d (.ofList u) := by
  have hkeep : (x :: v).dropWhile (fun c => c == '(' || Text.isBlank c) = x :: v := by
    simp only [isForeign, Bool.and_eq_true, Bool.not_eq_true', bne_iff_ne, ne_eq] at hx
    exact List.dropWhile_cons_of_neg (by simp [hx])
  rw [isAggregateSql_eq, isAggregateSql_eq, List.dropWhile_append, hkeep]
  split
  · next hempty =>
    rw [List.isEmpty_iff.mp hempty]
    exact headed_foreign hx [] v
  · exact headed_foreign hx _ v

/-! ### Texts with one outermost function -/

/-- Whatever follows the text, it has the outermost function of an aggregate, or never has. -/
def Outermost (d : Dialect) (sql : String) (b : Bool) : Prop :=
  ∀ rest : List Char, isAggregateSql d (.ofList (sql.toList ++ rest)) = b

theorem Outermost.append (h : Outermost d s b) (t : String) : Outermost d (s ++ t) b := by
  intro rest
  rw [String.toList_append, List.append_assoc]
  exact h (t.toList ++ rest)

theorem Outermost.parenthesized (h : Outermost d s b) : Outermost d ("(" ++ s) b := by
  intro rest
  have hopen : ("(" ++ s).toList ++ rest = '(' :: (s.toList ++ rest) := by simp
  rw [hopen, isAggregateSql_eq, List.dropWhile_cons_of_pos (by simp), ← isAggregateSql_eq]
  exact h rest

theorem outermost_foreign {x : Char} {cs : List Char} (hs : s.toList = x :: cs) (hx : isForeign x) :
    Outermost d s false := by
  intro rest
  rw [hs]
  exact isAggregateSql_foreign hx [] (cs ++ rest)

/-- A word that the name of no aggregate starts with, in any dialect. -/
def isBar (w : List Char) : Bool :=
  !w.isEmpty && (w.all fun c => c != '(' && !Text.isBlank c) &&
    [Dialect.postgres, .sqlite, .generic].all fun d =>
      d.aggregates.all fun a => !(w.map Char.toLower).isPrefixOf a.toList

theorem isAggregateSql_word {w : List Char} (hne : w ≠ [])
    (hw : ∀ c ∈ w, c ≠ '(' ∧ Text.isBlank c = false) (rest : List Char) :
    isAggregateSql d (.ofList (w ++ rest)) =
      (rest.contains '(' &&
        d.isAggregate (.ofList (w ++ Text.trimEnd (rest.takeWhile (· != '('))))) := by
  have hbody : (w ++ rest).dropWhile (fun c => c == '(' || Text.isBlank c) = w ++ rest := by
    cases w with
    | nil => exact absurd rfl hne
    | cons c w => rw [List.cons_append, List.dropWhile_cons_of_neg (by simp [hw c])]
  have hnone : w.contains '(' = false := by
    simpa using fun hmem : '(' ∈ w => (hw _ hmem).1 rfl
  have htake : (w ++ rest).takeWhile (· != '(') = w ++ rest.takeWhile (· != '(') :=
    List.takeWhile_append_of_pos fun c hc => bne_iff_ne.mpr (hw c hc).1
  rw [isAggregateSql_eq, hbody, headed, htake, trimChars_append hne fun c hc => (hw c hc).2,
    List.contains_append, hnone, Bool.false_or]

theorem outermost_bar {w : List Char} (h : isBar w) (hs : w <+: s.toList) :
    Outermost d s false := by
  simp only [isBar, Bool.and_eq_true, Bool.not_eq_true', List.all_eq_true, bne_iff_ne] at h
  obtain ⟨⟨hne, hw⟩, hbar⟩ := h
  obtain ⟨more, hs⟩ := hs
  intro rest
  rw [← hs, List.append_assoc, isAggregateSql_word (by simpa using hne) hw, Bool.and_eq_false_iff]
  refine .inr ?_
  by_contra hyes
  rw [Bool.not_eq_false, Dialect.isAggregate, List.contains_iff_mem, Text.lowerBasic,
    String.toList_ofList, List.map_append] at hyes
  have hstart := hbar d (by cases d <;> simp) _ hyes
  rw [String.toList_ofList, Bool.eq_false_iff, ne_eq, List.isPrefixOf_iff_prefix] at hstart
  exact hstart (List.prefix_append _ _)

theorem outermost_call {name : String} (hne : name.toList ≠ [])
    (h : ∀ c ∈ name.toList, c ≠ '(' ∧ Text.isBlank c = false) :
    Outermost d (name ++ "(") (d.isAggregate name) := by
  intro rest
  have hsplit : (name ++ "(").toList ++ rest = name.toList ++ '(' :: rest := by simp
  rw [hsplit, isAggregateSql_word hne h]
  simp [Text.trimEnd]

/-! ### Moved text -/

section Moved

open Placeholder

variable {offset : Nat} {own : Option Context} {st st' : List Value}

theorem moveToken_brace {name new : String}
    (h : Splice.moveToken offset own name st = .ok (new, st')) :
    ∃ cs, new.toList = '\x7b' :: cs := by
  have htoken (name : String) : ∃ cs, (Placeholder.token name).toList = '\x7b' :: cs :=
    ⟨name.toList ++ ['\x7d'], by simp [Placeholder.token]⟩
  unfold Splice.moveToken at h
  split at h
  · cases h
    exact htoken _
  · split at h
    · cases h
      exact htoken _
    · cases h
  · cases h
    exact htoken _

/-- Moved text is the same up to the first placeholder, which is one on both sides. -/
theorem fill_shares {ps : List Piece} {out : List Char}
    (h : fill (Splice.moveToken offset own) ps st = .ok (out, st')) :
    out = ps.flatMap Sql.pieceText ∨
      ∃ u v w, ps.flatMap Sql.pieceText = u ++ '\x7b' :: v ∧ out = u ++ '\x7b' :: w := by
  induction ps generalizing out st with
  | nil => exact .inl (fill_nil.mp h).1
  | cons p ps ih =>
    cases p with
    | char c =>
      obtain ⟨rest, hrest, rfl⟩ := fill_char.mp h
      rw [List.flatMap_cons]
      rcases ih hrest with hsame | ⟨u, v, w, hps, hout⟩
      · exact .inl (by rw [hsame]; rfl)
      · exact .inr ⟨c :: u, v, w, by rw [hps]; rfl, by rw [hout]; rfl⟩
    | token name =>
      obtain ⟨new, mid, rest, hnew, hrest, rfl⟩ := fill_token.mp h
      obtain ⟨cs, hcs⟩ := moveToken_brace hnew
      refine .inr ⟨[], name ++ ['\x7d'] ++ ps.flatMap Sql.pieceText, cs ++ rest, ?_, ?_⟩
      · simp [Sql.pieceText]
      · rw [hcs]
        rfl

/-- Moved text in parentheses has the outermost function of the text. -/
theorem outermost_move {sql moved : String} {carried before after : List Value}
    (h : Splice.move sql carried own before = .ok (moved, after)) :
    Outermost d ("(" ++ moved ++ ")") (isAggregateSql d sql) := by
  have hclose : isForeign ')' := by decide
  have hbrace : isForeign '\x7b' := by decide
  have htext := (Sql.piecesFrom_text false 0 sql.toList).1
  rw [List.drop_zero] at htext
  have hinner : Outermost d (moved ++ ")") (isAggregateSql d sql) := by
    intro rest
    have hsplit : (moved ++ ")").toList ++ rest = moved.toList ++ ')' :: rest := by simp
    rw [hsplit, isAggregateSql_foreign hclose]
    rcases fill_shares (Splice.move_ok_iff.mp h) with hsame | ⟨u, v, w, hps, hout⟩
    · rw [hsame, pieces, htext, String.ofList_toList]
    · rw [pieces, htext] at hps
      calc isAggregateSql d (.ofList moved.toList)
          = isAggregateSql d (.ofList u) := by rw [hout, isAggregateSql_foreign hbrace]
        _ = isAggregateSql d (.ofList (u ++ '\x7b' :: v)) :=
          (isAggregateSql_foreign hbrace u v).symm
        _ = isAggregateSql d sql := by rw [← hps, String.ofList_toList]
  rw [String.append_assoc]
  exact hinner.parenthesized

end Moved

end PathQuery.Select
