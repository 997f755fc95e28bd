import Mathlib.Data.List.DropRight
import PathQuery.Proofs.Column.Splitting
import PathQuery.Proofs.Placeholder.Names
import PathQuery.Proofs.Template.Binding

/-!
Aliases that are made from names. A column that is only a name is called by that name in small
letters and without the underscores at its ends, or by its place where nothing is left. Names that
differ can come to one alias, and a list of them is then refused.
-/

namespace PathQuery.Column

open PathQuery.Expr (isNameRest IsName)

/-! ### One name -/

/-- A name in small letters without the underscores at its ends. -/
def bare (name : String) : List Char :=
  ((name.toList.map Char.toLower).dropWhile (· == '_')).rdropWhile (· == '_')

/-- The alias of a name that comes after `count` other columns. -/
def derivedAlias (count : Nat) (name : String) : String :=
  if bare name = [] then "col" ++ Text.ofNat count else .ofList (bare name)

def ofName (count : Nat) (name : String) : Column :=
  ⟨name, derivedAlias count name⟩

theorem isNameRest_toLower {c : Char} (h : isNameRest c) : isNameRest c.toLower := by
  have hall : ∀ n < 128, isNameRest (Char.ofNat n) → isNameRest (Char.ofNat n).toLower := by
    decide +kernel
  have hlower := hall c.toNat (Expr.toNat_of_isNameRest h)
  rw [Char.ofNat_toNat] at hlower
  exact hlower h

theorem lowerAfter_basic {cs : List Char} (h : ∀ c ∈ cs, c.toNat < 128) (before : List Char) :
    Text.lowerAfter before cs = cs.map Char.toLower := by
  induction cs generalizing before with
  | nil => rfl
  | cons c cs ih =>
    rw [List.forall_mem_cons] at h
    have hsigma : c ≠ 'Σ' := by
      rintro rfl
      exact absurd h.1 (by decide)
    simp [Text.lowerAfter, Text.lowerChar, hsigma, h.1, ih h.2]

theorem isDash_of_isNameRest {c : Char} (h : isNameRest c) : isDash c = false := by
  have hblank := isBlank_of_isWordChar (isWordChar_of_isNameRest h)
  have hne : c ≠ '-' := by
    rintro rfl
    cases h
  simp [isDash, hne, hblank]

theorem dashed_of_no_dash {cs : List Char} (h : ∀ c ∈ cs, isDash c = false) (after : Bool) :
    dashed after cs = cs := by
  induction cs generalizing after with
  | nil => rfl
  | cons c cs ih =>
    rw [List.forall_mem_cons] at h
    simp [dashed, h.1, ih h.2]

/-- Where no dash is left, the edges are underscores. -/
theorem dropWhile_isEdge {cs : List Char} (h : ∀ c ∈ cs, isNameRest c) :
    cs.dropWhile isEdge = cs.dropWhile (· == '_') := by
  induction cs with
  | nil => rfl
  | cons c cs ih =>
    rw [List.forall_mem_cons] at h
    have hne : c ≠ '-' := by
      rintro rfl
      cases h.1
    simp only [List.dropWhile_cons, isEdge, beq_eq_false_iff_ne.mpr hne, Bool.false_or, ih h.2]

theorem slug_of_isNameRest {name : String} (h : ∀ c ∈ name.toList, isNameRest c) :
    slug name = .ofList (bare name) := by
  have hno {q : Char} (hq : isNameRest q = false) : q ∉ name.toList := by
    intro hmem
    rw [h q hmem] at hq
    cases hq
  have hlower : (Text.lower (Text.replaceChar ' ' "_" (Text.replaceChar '.' "_" name))).toList =
      name.toList.map Char.toLower := by
    simp only [Text.replaceChar, Text.lower, String.toList_ofList]
    rw [Lists.flatMap_of_not_mem (hno (by decide)),
      Lists.flatMap_of_not_mem (hno (by decide)),
      lowerAfter_basic fun c hc => Expr.toNat_of_isNameRest (h c hc)]
  have hsmall : ∀ c ∈ name.toList.map Char.toLower, isNameRest c :=
    List.forall_mem_map.mpr fun c hc => isNameRest_toLower (h c hc)
  have hkept : (name.toList.map Char.toLower).filter (fun c => Text.isWordChar c || isDash c) =
      name.toList.map Char.toLower := by
    refine List.filter_eq_self.mpr fun c hc => ?_
    rw [isWordChar_of_isNameRest (hsmall c hc), Bool.true_or]
  have hstart : ∀ c ∈ (name.toList.map Char.toLower).dropWhile (· == '_'), isNameRest c :=
    fun c hc => hsmall c ((List.dropWhile_suffix _).subset hc)
  have hbare : ∀ c ∈ bare name, (if c == '-' then '_' else c) = c := by
    intro c hc
    have hrest := hstart c ((List.rdropWhile_prefix _ _).subset hc)
    have hne : c ≠ '-' := by
      rintro rfl
      cases hrest
    simp [hne]
  have hback : (((name.toList.map Char.toLower).dropWhile (· == '_')).reverse.dropWhile
      isEdge).reverse = bare name := by
    rw [dropWhile_isEdge (by simpa using hstart)]
    rfl
  unfold slug
  simp only [hlower, hkept]
  rw [dashed_of_no_dash fun c hc => isDash_of_isNameRest (hsmall c hc), dropWhile_isEdge hsmall,
    hback, List.map_congr_left hbare, List.map_id']

/-- A text without blanks has no alias of its own. -/
theorem aliased?_eq_none {cs : List Char} (h : ∀ c ∈ cs, Text.isBlank c = false) :
    aliased? cs = none := by
  rw [Option.eq_none_iff_forall_ne_some]
  rintro ⟨x, name⟩ hsome
  obtain ⟨_, ⟨⟨g, a, s, g', rfl, _, ⟨hne, hblank⟩, _⟩, _, _⟩, _⟩ := aliased?_eq_some_iff.mp hsome
  obtain ⟨c, g, rfl⟩ := List.exists_cons_of_ne_nil hne
  have hc := h c (by simp)
  rw [hblank c (by simp)] at hc
  cases hc

theorem ofPart_name {name : String} (h : IsName name) (count : Nat) :
    ofPart count name.toList = ofName count name := by
  have hnone : aliased? name.toList = none :=
    aliased?_eq_none fun c hc =>
      isBlank_of_isWordChar (isWordChar_of_isNameRest (h.isNameRest c hc))
  have hempty : (String.ofList (bare name)).isEmpty = decide (bare name = []) := by
    rw [Bool.eq_iff_iff, String.isEmpty_iff, decide_eq_true_eq, String.ofList_eq_empty_iff]
  rw [ofPart, hnone]
  dsimp only
  rw [String.ofList_toList, slug_of_isNameRest h.isNameRest, ofName, derivedAlias, hempty]
  simp only [decide_eq_true_eq]

/-- A name in small letters with no underscore at an end. -/
structure IsOwnAlias (name : String) : Prop where
  small : ∀ c ∈ name.toList, ¬ c.isUpper
  first : name.toList.head? ≠ some '_'
  last : name.toList.getLast? ≠ some '_'

theorem IsOwnAlias.derivedAlias_eq {name : String} (h : IsOwnAlias name) (hne : name.toList ≠ [])
    (count : Nat) : derivedAlias count name = name := by
  have hlower : name.toList.map Char.toLower = name.toList := by
    rw [List.map_congr_left fun c hc => Expr.toLower_of_not_isUpper (h.small c hc), List.map_id']
  have hstart : name.toList.dropWhile (· == '_') = name.toList := by
    have hfirst := h.first
    obtain ⟨c, cs, hcs⟩ := List.exists_cons_of_ne_nil hne
    rw [hcs] at hfirst ⊢
    exact List.dropWhile_cons_of_neg (by simpa using hfirst)
  have hbare : bare name = name.toList := by
    rw [bare, hlower, hstart, List.rdropWhile_eq_self_iff]
    intro hl
    have hlast := h.last
    rw [List.getLast?_eq_some_getLast hl] at hlast
    simpa using hlast
  rw [derivedAlias, hbare, if_neg hne, String.ofList_toList]

/-! ### Lists of names -/

/-- The columns of names that come after `count` others. -/
def derived (count : Nat) : List String → List Column
  | [] => []
  | name :: names => ofName count name :: derived (count + 1) names

variable {names : List String} {parts : List (List Char)} {before : List Column}

theorem map_name_derived (h : ∀ n ∈ names, IsOwnAlias n ∧ n.toList ≠ []) (count : Nat) :
    (derived count names).map (·.name) = names := by
  induction names generalizing count with
  | nil => rfl
  | cons name names ih =>
    rw [List.forall_mem_cons] at h
    rw [derived, List.map_cons, ih h.2, ofName, h.1.1.derivedAlias_eq h.1.2]

theorem isWord_of_isName {name : String} (h : IsName name) : Sql.IsWord name :=
  ⟨h.1, fun c hc => isWordChar_of_isNameRest (h.isNameRest c hc)⟩

theorem ofParts_name {part : List Char} {name : String} (hname : IsName name)
    (hpart : Text.trimChars part = name.toList) :
    ofParts before (part :: parts) =
      if derivedAlias before.length name ∈ before.map (·.name) then
        .error (.duplicateAlias (derivedAlias before.length name))
      else ofParts (before ++ [ofName before.length name]) parts := by
  rw [ofParts_cons (hpart ▸ hname.1), hpart, ofPart_name hname]
  rfl

theorem append_derived (before : List Column) (name : String) (names : List String) :
    before ++ derived before.length (name :: names) =
      (before ++ [ofName before.length name]) ++
        derived (before ++ [ofName before.length name]).length names := by
  simp [derived]

theorem ofParts_derived (before : List Column) (hnames : ∀ n ∈ names, IsName n)
    (hparts : List.Forall₂ (fun part n => Text.trimChars part = n.toList) parts names)
    (hnodup : ((before ++ derived before.length names).map (·.name)).Nodup) :
    ofParts before parts = .ok (before ++ derived before.length names) := by
  induction hparts generalizing before with
  | nil => rw [ofParts, derived, List.append_nil]
  | @cons part name parts names hpart _ ih =>
    rw [List.forall_mem_cons] at hnames
    have hnew : derivedAlias before.length name ∉ before.map (·.name) := by
      rw [List.map_append, List.nodup_append] at hnodup
      exact fun hold => hnodup.2.2 _ hold _ (by simp [derived, ofName]) rfl
    rw [append_derived] at hnodup ⊢
    rw [ofParts_name hnames.1 hpart, if_neg hnew]
    exact ih _ hnames.2 hnodup

/-- The first alias that is taken is reported. -/
theorem ofParts_repeated (before : List Column) (hnames : ∀ n ∈ names, IsName n)
    (hparts : List.Forall₂ (fun part n => Text.trimChars part = n.toList) parts names)
    (hbefore : (before.map (·.name)).Nodup)
    (hdup : ¬ ((before ++ derived before.length names).map (·.name)).Nodup) :
    ∃ a, 1 < ((before ++ derived before.length names).map (·.name)).count a ∧
      ofParts before parts = .error (.duplicateAlias a) := by
  induction hparts generalizing before with
  | nil => exact absurd (by simpa [derived] using hbefore) hdup
  | @cons part name parts names hpart _ ih =>
    rw [List.forall_mem_cons] at hnames
    rw [ofParts_name hnames.1 hpart]
    by_cases htaken : derivedAlias before.length name ∈ before.map (·.name)
    · refine ⟨derivedAlias before.length name, ?_, if_pos htaken⟩
      have honce := List.one_le_count_iff.mpr htaken
      have hagain : derivedAlias before.length name ∈
          (derived before.length (name :: names)).map (·.name) := by simp [derived, ofName]
      have htwice := List.one_le_count_iff.mpr hagain
      rw [List.map_append, List.count_append]
      omega
    · have hnodup : ((before ++ [ofName before.length name]).map (·.name)).Nodup := by
        rw [List.map_append, List.nodup_append]
        refine ⟨hbefore, by simp, ?_⟩
        rintro a ha b hb rfl
        rw [List.map_singleton, List.mem_singleton] at hb
        rw [hb] at ha
        exact htaken ha
      rw [if_neg htaken]
      rw [append_derived] at hdup ⊢
      exact ih _ hnames.2 hnodup hdup

theorem parseList_eq_ofParts (hne : names ≠ []) (hnames : ∀ n ∈ names, IsName n) :
    ∃ parts, parseList (Text.join ", " names) = ofParts [] parts ∧
      List.Forall₂ (fun part n => Text.trimChars part = n.toList) parts names := by
  have hfirm : ∀ n ∈ names, Firm n.toList :=
    fun n hn => firm_of_isWord (isWord_of_isName (hnames n hn))
  have hpass : ∀ n ∈ names, stateAfter (0, none) n.toList = some (0, none) := by
    refine fun n hn => stateAfter_plain (by simp) fun c hc => ?_
    exact Expr.not_mem_marks (p := isNameRest) (by decide) ((hnames n hn).isNameRest c hc)
  have hclose : ∀ n ∈ names, ∀ c ∈ n.toList.getLast?, c ≠ ')' := by
    rintro n hn _ hc rfl
    cases (hnames n hn).isNameRest _ (List.mem_of_mem_getLast? hc)
  have hnone : ∀ x ∈ ([] : List Char), Text.isBlank x := by simp
  obtain ⟨parts, hsplit, hparts⟩ := split?_join hne hfirm hpass hnone
  rw [List.nil_append] at hsplit
  refine ⟨parts, ?_, hparts⟩
  rw [parseList_join hne hfirm hclose, hsplit]

/-- A list of names is read as a column for each of them if their aliases are pairwise different,
and otherwise refused for an alias that stands in it twice. -/
theorem parseList_names (hne : names ≠ []) (hnames : ∀ n ∈ names, IsName n) :
    (((derived 0 names).map (·.name)).Nodup →
      parseList (Text.join ", " names) = .ok (derived 0 names)) ∧
    (¬ ((derived 0 names).map (·.name)).Nodup →
      ∃ a, 1 < ((derived 0 names).map (·.name)).count a ∧
        parseList (Text.join ", " names) = .error (.duplicateAlias a)) := by
  obtain ⟨parts, hparse, hparts⟩ := parseList_eq_ofParts hne hnames
  rw [hparse]
  exact ⟨ofParts_derived [] hnames hparts,
    ofParts_repeated [] hnames hparts List.nodup_nil⟩

end PathQuery.Column
