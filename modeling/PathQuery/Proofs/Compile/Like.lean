import Mathlib.Data.List.Infix
import PathQuery.Compile

/-!
Comparing with a text that has stars. The comparison becomes LIKE, with the stars as percent signs
and all else as it is. A text matches the pattern whenever it matches the stars as a glob, but in
the pattern the percent signs and underscores of the text are wild as well, so the two mean the
same exactly if it has neither.
-/

namespace PathQuery.Compile

/-! ### Matching -/

/-- What a character of a pattern stands for. -/
inductive Wild where
  /-- Any run of characters, maybe none. -/
  | run
  /-- Any one character. -/
  | one
  /-- This character. -/
  | exactly (c : Char)
deriving DecidableEq, Repr

/-- Whether the whole text matches. -/
def Wild.Matches : List Wild → List Char → Prop
  | [], text => text = []
  | .run :: ws, text => ∃ rest, rest <:+ text ∧ Wild.Matches ws rest
  | .one :: ws, text => ∃ c rest, text = c :: rest ∧ Wild.Matches ws rest
  | .exactly c :: ws, text => ∃ rest, text = c :: rest ∧ Wild.Matches ws rest

instance Wild.decidableMatches :
    (ws : List Wild) → (text : List Char) → Decidable (Wild.Matches ws text)
  | [], text => inferInstanceAs (Decidable (text = []))
  | .run :: ws, text =>
    have := Wild.decidableMatches ws
    decidable_of_iff (∃ rest ∈ text.tails, Wild.Matches ws rest) (by simp [Wild.Matches])
  | .one :: _, [] => isFalse (by simp [Wild.Matches])
  | .one :: ws, _ :: rest =>
    have := Wild.decidableMatches ws
    decidable_of_iff (Wild.Matches ws rest) (by simp [Wild.Matches])
  | .exactly _ :: _, [] => isFalse (by simp [Wild.Matches])
  | .exactly c :: ws, d :: rest =>
    have := Wild.decidableMatches ws
    decidable_of_iff (d = c ∧ Wild.Matches ws rest) (by simp [Wild.Matches])

/-- The pattern language of LIKE, without an escape character. -/
def likeWild (c : Char) : Wild :=
  if c = '%' then .run else if c = '_' then .one else .exactly c

/-- The pattern language of globs with stars only. -/
def globWild (c : Char) : Wild :=
  if c = '*' then .run else .exactly c

/-- Both languages in one. -/
def looseWild (c : Char) : Wild :=
  if c = '*' then .run else likeWild c

def Like (pattern text : String) : Prop :=
  Wild.Matches (pattern.toList.map likeWild) text.toList

def Glob (pattern text : String) : Prop :=
  Wild.Matches (pattern.toList.map globWild) text.toList

instance (pattern text : String) : Decidable (Glob pattern text) :=
  Wild.decidableMatches ..

/-- The text that a literal of SQL stands for, from behind its opening quote. -/
def literalFrom? : List Char → Option (List Char)
  | [] => none
  | '\'' :: '\'' :: cs => (literalFrom? cs).map ('\'' :: ·)
  | c :: cs =>
    if c = '\'' then if cs = [] then some [] else none else (literalFrom? cs).map (c :: ·)

def literalText? (sql : String) : Option String :=
  match sql.toList with
  | '\'' :: cs => (literalFrom? cs).map .ofList
  | _ => none

theorem literalFrom?_doubled (cs : List Char) :
    literalFrom? (Text.doubled '\'' cs ++ ['\'']) = some cs := by
  induction cs with
  | nil => rfl
  | cons c cs ih =>
    by_cases hc : c = '\''
    · subst hc
      simp [Text.doubled, literalFrom?, ih]
    · simp [Text.doubled, hc, literalFrom?, ih]

theorem literalText?_quoteLiteral (text : String) :
    literalText? (Text.quoteLiteral text) = some text := by
  simp [literalText?, Text.quoteLiteral, Text.quoted, literalFrom?_doubled]

/-- The pattern with stars as percent signs reads as the text in both languages at once. -/
theorem map_likeWild_replaceChar (t : String) :
    (Text.replaceChar '*' "%" t).toList.map likeWild = t.toList.map looseWild := by
  simp only [Text.replaceChar, String.toList_ofList]
  induction t.toList with
  | nil => rfl
  | cons c cs ih =>
    rw [List.flatMap_cons, List.map_append, ih, List.map_cons]
    by_cases hc : c = '*'
    · simp [hc, looseWild, likeWild]
    · simp [hc, looseWild]

theorem matches_loose_of_glob {t text : List Char} (h : Wild.Matches (t.map globWild) text) :
    Wild.Matches (t.map looseWild) text := by
  induction t generalizing text with
  | nil => exact h
  | cons c t ih =>
    by_cases hstar : c = '*'
    · simp only [List.map_cons, globWild, looseWild, hstar, if_true, Wild.Matches] at h ⊢
      obtain ⟨rest, hrest, h⟩ := h
      exact ⟨rest, hrest, ih h⟩
    · simp only [List.map_cons, globWild, hstar, if_false, Wild.Matches] at h
      obtain ⟨rest, rfl, h⟩ := h
      simp only [List.map_cons, looseWild, likeWild, hstar, if_false]
      split
      · exact ⟨rest, List.suffix_cons c rest, ih h⟩
      · split
        · exact ⟨c, rest, rfl, ih h⟩
        · exact ⟨rest, rfl, ih h⟩

/-- A glob matches only texts that have all its characters but the stars. -/
theorem mem_of_matches_glob {t text : List Char} (h : Wild.Matches (t.map globWild) text) {c : Char}
    (hc : c ∈ t) (hstar : c ≠ '*') : c ∈ text := by
  induction t generalizing text with
  | nil => cases hc
  | cons d t ih =>
    by_cases hd : d = '*'
    · simp only [List.map_cons, globWild, hd, if_true, Wild.Matches] at h
      obtain ⟨rest, hrest, h⟩ := h
      have hc : c ∈ t := (List.mem_cons.mp hc).resolve_left (hd ▸ hstar)
      exact hrest.subset (ih h hc)
    · simp only [List.map_cons, globWild, hd, if_false, Wild.Matches] at h
      obtain ⟨rest, rfl, h⟩ := h
      rcases List.mem_cons.mp hc with rfl | hc
      · exact List.mem_cons_self
      · exact List.mem_cons_of_mem d (ih h hc)

/-- A text that what is wild can stand for, without wild characters of LIKE in it. -/
def Wild.sample : Wild → List Char
  | .run => []
  | .one => ['a']
  | .exactly c => [c]

theorem matches_sample (ws : List Wild) : Wild.Matches ws (ws.flatMap Wild.sample) := by
  induction ws with
  | nil => rfl
  | cons w ws ih =>
    cases w with
    | run => exact ⟨_, List.suffix_refl _, ih⟩
    | one => exact ⟨'a', _, rfl, ih⟩
    | exactly c => exact ⟨_, rfl, ih⟩

theorem not_mem_sample {c : Char} (hc : c = '%' ∨ c = '_') (d : Char) :
    c ∉ (looseWild d).sample := by
  unfold looseWild likeWild
  split
  · simp [Wild.sample]
  · split
    · simp [Wild.sample]
    · split
      · rcases hc with rfl | rfl <;> simp [Wild.sample]
      · next hrun hone =>
        rcases hc with rfl | rfl
        · simpa [Wild.sample] using Ne.symm hrun
        · simpa [Wild.sample] using Ne.symm hone

/-- A text without the wild characters of LIKE reads the same in both languages. -/
theorem map_looseWild_eq {t : List Char} (h : '%' ∉ t ∧ '_' ∉ t) :
    t.map looseWild = t.map globWild := by
  refine List.map_congr_left ?_
  intro c hc
  have hrun : c ≠ '%' := ne_of_mem_of_not_mem hc h.1
  have hone : c ≠ '_' := ne_of_mem_of_not_mem hc h.2
  simp [looseWild, globWild, likeWild, hrun, hone]

theorem globPattern?_eq {t : String} (hstar : '*' ∈ t.toList) (hname : t.toList.head? ≠ some '@')
    (hselect : isSelectText t = false) :
    globPattern? (.str t) = some (Text.replaceChar '*' "%" t) := by
  simp [globPattern?, hstar, hname, hselect]

/-- The extent of the agreement. Where the glob has a wild character of LIKE, a text without that
character matches the pattern and not the glob. -/
theorem loose_iff_glob_iff (t : List Char) :
    (∀ text, Wild.Matches (t.map looseWild) text ↔ Wild.Matches (t.map globWild) text) ↔
      '%' ∉ t ∧ '_' ∉ t := by
  constructor
  · intro h
    have hglob := (h _).mp (matches_sample (t.map looseWild))
    have absent {c : Char} (hc : c = '%' ∨ c = '_') (hstar : c ≠ '*') : c ∉ t := by
      intro hmem
      have hsample := mem_of_matches_glob hglob hmem hstar
      rw [List.flatMap_map] at hsample
      obtain ⟨d, -, hd⟩ := List.mem_flatMap.mp hsample
      exact not_mem_sample hc d hd
    exact ⟨absent (.inl rfl) (by decide), absent (.inr rfl) (by decide)⟩
  · intro h text
    rw [map_looseWild_eq h]

/-- A comparison for equality with a text that has a star, and that is neither a reference nor a
whole SELECT, becomes LIKE with a literal. The pattern that this literal stands for reads the text
with percent signs and underscores as wild as the stars: it matches whatever the text matches as a
glob, and nothing else exactly if the text has neither of them. -/
theorem expr_like_iff (t : String) (hstar : '*' ∈ t.toList) (hname : t.toList.head? ≠ some '@')
    (hselect : isSelectText t = false) :
    ∃ pattern,
      (∀ f left, expr f (.compare .eq left (.str t)) = do
        let sql ← expr f left
        return sql ++ (" LIKE " ++ Text.quoteLiteral pattern)) ∧
      literalText? (Text.quoteLiteral pattern) = some pattern ∧
      (∀ text, Like pattern text ↔ Wild.Matches (t.toList.map looseWild) text.toList) ∧
      (∀ text, Glob t text → Like pattern text) ∧
      ((∀ text, Like pattern text ↔ Glob t text) ↔ '%' ∉ t.toList ∧ '_' ∉ t.toList) := by
  have hlike (text : String) : Like (Text.replaceChar '*' "%" t) text ↔
      Wild.Matches (t.toList.map looseWild) text.toList := by
    rw [Like, map_likeWild_replaceChar]
  refine ⟨Text.replaceChar '*' "%" t, ?_, literalText?_quoteLiteral _, hlike, ?_, ?_⟩
  · intro f left
    simp only [expr, shortComparison?, globPattern?_eq hstar hname hselect]
  · intro text h
    rw [hlike]
    exact matches_loose_of_glob h
  · rw [← loose_iff_glob_iff]
    simp only [hlike, Glob]
    constructor
    · intro h text
      simpa using h (.ofList text)
    · intro h text
      exact h text.toList

/-- A quote is doubled in the literal and means itself, an underscore is wild in the pattern. -/
theorem expr_like_iff_quoted :
    (∃ pattern, (∀ f, expr f (.compare .eq (.path "author" ["name"]) (.str "it's*")) = do
        let sql ← path f "author" ["name"]
        return sql ++ (" LIKE " ++ Text.quoteLiteral pattern)) ∧
      ∀ text, Like pattern text ↔ Glob "it's*" text) ∧
    ∃ pattern, (∀ f, expr f (.compare .eq (.path "author" ["name"]) (.str "a_*")) = do
        let sql ← path f "author" ["name"]
        return sql ++ (" LIKE " ++ Text.quoteLiteral pattern)) ∧
      Like pattern "abc" ∧ ¬ Glob "a_*" "abc" := by
  constructor
  · obtain ⟨pattern, hsql, -, -, -, hiff⟩ :=
      expr_like_iff "it's*" (by decide) (by decide) (by decide)
    exact ⟨pattern, fun f => hsql f (.path "author" ["name"]), hiff.mpr (by decide)⟩
  · obtain ⟨pattern, hsql, -, hlike, -, -⟩ :=
      expr_like_iff "a_*" (by decide) (by decide) (by decide)
    exact ⟨pattern, fun f => hsql f (.path "author" ["name"]),
      (hlike "abc").mpr (by decide +kernel), by decide +kernel⟩

end PathQuery.Compile
