import PathQuery.Proofs.Join.Attributes

/-!
References of the tables of one SELECT. A table that is already in use gets an alias, made from the
path of the relation, and the alias is not compared with anything. So two references can be the same
only if one of them is an alias. In a schema where no alias can be the name of a table, and
where paths keep their differences when they are made into identifiers, all are different.
-/

namespace PathQuery

namespace Relation

/-- One name stands for both relations, and it is the alias of at least one of them. -/
def Meets (a b : Relation) : Prop :=
  (a.knownAs.isSome ∨ b.knownAs.isSome) ∧ a.reference = b.reference

theorem reference_of_none {r : Relation} (h : r.knownAs = none) : r.reference = r.table := by
  rw [reference, h]
  rfl

theorem reference_of_some {r : Relation} {a : String} (h : r.knownAs = some a) :
    r.reference = a := by
  rw [reference, h]
  rfl

end Relation

namespace Join

variable {s : Scope} {rs rs' : List Relation} {parent r : Relation} {m : Model} {f : Field}
  {names : List String}

/-- The alias that the path of a relation gives it. -/
def aliasText (depth : Nat) (path : String) : String :=
  if depth == 0 then flatten path else "sq" ++ Text.ofNat depth ++ "_" ++ flatten path

/-- A relation without an alias has a table of its own, and aliases come from paths. -/
structure Referenced (s : Scope) (rs : List Relation) : Prop where
  fresh : rs.Pairwise fun a b => b.knownAs = none → a.table ≠ b.table
  aliased : ∀ r ∈ rs, r.knownAs.isSome → r = s.master ∨ r.knownAs = some (aliasText s.depth r.path)

theorem referenced_singleton (s : Scope) : Referenced s [s.master] where
  fresh := List.pairwise_singleton ..
  aliased := by
    intro r hr _
    exact .inl (List.mem_singleton.mp hr)

theorem Referenced.push (h : Referenced s rs)
    (hr : r.knownAs = aliasFor s rs r.table r.path) : Referenced s (rs ++ [r]) where
  fresh := by
    refine List.pairwise_append.mpr ⟨h.fresh, List.pairwise_singleton .., ?_⟩
    intro a ha b hb hnone htable
    rw [List.mem_singleton.mp hb] at hnone htable
    rw [hr, aliasFor, if_pos] at hnone
    · cases hnone
    · rw [Bool.or_eq_true]
      exact .inl (List.any_eq_true.mpr ⟨a, ha, beq_iff_eq.mpr htable⟩)
  aliased := by
    intro x hx hsome
    rcases List.mem_append.mp hx with hx | hx
    · exact h.aliased x hx hsome
    · rw [List.mem_singleton.mp hx] at hsome ⊢
      refine .inr ?_
      rw [hr, aliasFor] at hsome ⊢
      split
      · rfl
      · next htaken =>
        rw [if_neg htaken] at hsome
        cases hsome

theorem Grows.referenced (h : Grows s rs rs') (hrs : Referenced s rs) : Referenced s rs' :=
  h.invariant (fun _ hrs => hrs.push rfl) hrs

/-- References are different if and only if no alias meets another reference. -/
theorem Referenced.nodup_iff (h : Referenced s rs) :
    (rs.map Relation.reference).Nodup ↔ rs.Pairwise fun a b => ¬ a.Meets b := by
  rw [List.Nodup, List.pairwise_map]
  constructor
  · intro hne
    exact hne.imp fun hab hmeets => hab hmeets.2
  · intro hmeets
    refine (hmeets.and h.fresh).imp ?_
    rintro a b ⟨hab, hfresh⟩ he
    cases hb : b.knownAs with
    | some x => exact hab ⟨.inr (by rw [hb]; rfl), he⟩
    | none =>
      cases ha : a.knownAs with
      | some x => exact hab ⟨.inl (by rw [ha]; rfl), he⟩
      | none =>
        rw [Relation.reference_of_none ha, Relation.reference_of_none hb] at he
        exact hfresh hb he

end Join

/-! ### Schemas in which aliases are told from tables -/

/-- A word of letters, digits and single underscores, the last character being no underscore. -/
def Text.Word (w : String) : Prop :=
  w.toList.all Text.isNameChar ∧ Text.Settled w

instance (w : String) : Decidable (Text.Word w) :=
  inferInstanceAs (Decidable (_ ∧ _))

/-- Text like the names that sub-queries use for their tables. -/
def Join.isLevelName (t : String) : Bool :=
  match t.toList with
  | 's' :: 'q' :: c :: _ => c.isDigit
  | _ => false

namespace Schema

def tables (s : Schema) : List String :=
  s.models.map (·.table) ++ s.linkTables

/-- The names of links and link tables are words, and no table has a name that an alias can have:
that of a link, one with two underscores, or one that a sub-query uses. -/
structure Unmixed (s : Schema) : Prop where
  names : ∀ name ∈ s.linkNames, name ≠ "" ∧ Text.Word name
  links : ∀ table ∈ s.linkTables, Text.Word table
  tables : ∀ table ∈ s.tables, table ∉ s.linkNames ∧ ¬ ['_', '_'] <:+: table.toList ∧
    Join.isLevelName table = false

end Schema

namespace Text

theorem Word.dotless {w : String} (h : Word w) : '.' ∉ w.toList := by
  intro hdot
  exact absurd (List.all_eq_true.mp h.1 '.' hdot) (by decide)

end Text

namespace Join

variable {s : Scope} {rs rs' : List Relation} {parent r : Relation} {m : Model} {f : Field}
  {names : List String}

theorem flatten_append (a b : String) : flatten (a ++ b) = flatten a ++ flatten b := by
  apply String.toList_injective
  simp only [flatten, String.toList_append, String.toList_ofList, List.flatMap_append]

theorem flatten_word {w : String} (h : w.toList.all Text.isNameChar) : flatten w = w := by
  apply String.toList_injective
  rw [flatten, String.toList_ofList]
  generalize w.toList = cs at h
  induction cs with
  | nil => rfl
  | cons c cs ih =>
    rw [List.all_cons, Bool.and_eq_true] at h
    rw [List.flatMap_cons, if_pos h.1, ih h.2]
    rfl

/-- Words keep their places when a path is made into an identifier. -/
theorem flatten_join {words : List String} (h : ∀ w ∈ words, Text.Word w) :
    flatten (Text.join "." words) = Text.join "__" words := by
  induction words with
  | nil => rfl
  | cons w rest ih =>
    have hw := flatten_word (h w (by simp)).1
    by_cases hnil : rest = []
    · subst hnil
      exact hw
    · have hdot : flatten "." = "__" := by decide
      rw [Text.join_cons w hnil, Text.join_cons w hnil, flatten_append, flatten_append, hw, hdot,
        ih fun v hv => h v (by simp [hv])]

theorem isLevelName_ofNat (n : Nat) (rest : String) :
    isLevelName ("sq" ++ Text.ofNat n ++ rest) = true := by
  have hdigits : Nat.toDigits 10 n ≠ [] := Nat.toDigits_ne_nil
  obtain ⟨c, cs, hcons⟩ := List.exists_cons_of_ne_nil hdigits
  have hmem : c ∈ Nat.toDigits 10 n := by
    rw [hcons]
    exact List.mem_cons_self
  have hc : c.isDigit := Nat.isDigit_of_mem_toDigits (by decide) (by decide) hmem
  simp only [isLevelName, Text.ofNat, Text.digits, String.toList_append, String.toList_ofList,
    hcons]
  exact hc

/-! ### Paths differ -/

/-- The path of a link table goes on from that of a relation with the name of the table. -/
def Bridged (s : Scope) (rs : List Relation) (r : Relation) : Prop :=
  ∃ names other through, names ≠ [] ∧ Leads s rs names other ∧ through ∈ s.schema.linkTables ∧
    r.path = other.path ++ "." ++ through

/-- Relations have different paths, and tables of the schema. -/
structure Spread (s : Scope) (rs : List Relation) : Prop where
  traced : Traced s rs
  bridged : ∀ r ∈ rs, r.model = none → Bridged s rs r
  paths : rs.Pairwise fun a b => a.path ≠ b.path
  tables : ∀ r ∈ rs, r.table ∈ s.schema.tables

/-- The scope of a SELECT on a model of an unmixed schema. -/
structure Based (s : Scope) : Prop where
  unmixed : s.schema.Unmixed
  master : s.master = .master s.model (s.outer.map fun _ => "sq" ++ Text.ofNat s.depth)
  model : s.model ∈ s.schema.models
  depth : s.outer.isSome → s.depth ≠ 0

namespace Based

theorem path (h : Based s) : s.master.path = "" := by
  rw [h.master]
  rfl

theorem names_ne_empty (h : Based s) : ∀ name ∈ s.schema.linkNames, name ≠ "" :=
  fun name hname => (h.unmixed.names name hname).1

/-- The words of an attribute path, in the order in which they are written. -/
theorem words (h : Based s) (hnames : names ⊆ s.schema.linkNames) :
    ∀ w ∈ names.reverse, Text.Word w :=
  fun w hw => (h.unmixed.names w (hnames (List.mem_reverse.mp hw))).2

end Based

theorem Bridged.mono (h : Bridged s rs r) (hsub : rs ⊆ rs') : Bridged s rs' r := by
  obtain ⟨names, other, through, hne, hlead, hrest⟩ := h
  exact ⟨names, other, through, hne, hlead.mono hsub, hrest⟩

/-- The words of a path. One word is the name of a link, and before the last of several there is the
path of another relation. -/
structure Worded (s : Scope) (rs : List Relation) (r : Relation) (words : List String) : Prop where
  nonempty : words ≠ []
  plain : ∀ w ∈ words, Text.Word w
  path : r.path = Text.join "." words
  single : ∀ w, words = [w] → w ∈ s.schema.linkNames
  before : ∀ front w, words = front ++ [w] → front ≠ [] →
    ∃ q ∈ rs, q.path = Text.join "." front

theorem Leads.worded (hs : Based s) (hmem : s.master ∈ rs) (h : Leads s rs names r)
    (hne : names ≠ []) : Worded s rs r names.reverse where
  nonempty := by simpa using hne
  plain := hs.words h.names_subset
  path := h.path_eq hs.names_ne_empty hs.path
  single := by
    intro w hw
    have hnames : names = [w] := by simpa using congrArg List.reverse hw
    rw [hnames] at h
    exact h.names_subset (List.mem_singleton_self w)
  before := by
    intro front w hsplit _
    have hnames : names = w :: front.reverse := by simpa using congrArg List.reverse hsplit
    rw [hnames] at h
    obtain ⟨parent, _, _, -, hp, -⟩ := h.cons_inv
    refine ⟨parent, hp.mem hmem, ?_⟩
    rw [hp.path_eq hs.names_ne_empty hs.path, List.reverse_reverse]

theorem Bridged.worded (hs : Based s) (hmem : s.master ∈ rs) (h : Bridged s rs r) :
    ∃ words, Worded s rs r words := by
  obtain ⟨names, other, through, hne, hlead, hthrough, hpath⟩ := h
  obtain ⟨hnonempty, hwords, hother, -, -⟩ := hlead.worded hs hmem hne
  refine ⟨names.reverse ++ [through], by simp, ?_, ?_, ?_, ?_⟩
  · intro w hw
    rcases List.mem_append.mp hw with hw | hw
    · exact hwords w hw
    · rw [List.mem_singleton.mp hw]
      exact hs.unmixed.links through hthrough
  · rw [hpath, hother, Text.join_append hnonempty (by simp)]
    rfl
  · intro w hw
    have := congrArg List.length hw
    simp only [List.length_append, List.length_reverse, List.length_singleton] at this
    exact absurd (List.length_eq_zero_iff.mp (by omega)) hne
  · intro front w hsplit _
    obtain ⟨rfl, -⟩ := List.append_inj' hsplit rfl
    exact ⟨other, hlead.mem hmem, hother⟩

namespace Spread

theorem singleton (hs : Based s) : Spread s [s.master] where
  traced := by
    refine .singleton ?_
    rw [hs.master]
    rfl
  bridged := by
    intro r hr hnone
    rw [List.mem_singleton.mp hr, hs.master] at hnone
    cases hnone
  paths := List.pairwise_singleton ..
  tables := by
    intro r hr
    rw [List.mem_singleton.mp hr, hs.master]
    exact List.mem_append_left _ (List.mem_map_of_mem hs.model)

/-- New relations have to be looked at among themselves and against those there. -/
theorem extend {new : List Relation} (h : Spread s rs) (htraced : Traced s (rs ++ new))
    (hbridged : ∀ r ∈ new, r.model = none → Bridged s (rs ++ new) r)
    (hpaths : new.Pairwise fun a b => a.path ≠ b.path)
    (hapart : ∀ a ∈ rs, ∀ b ∈ new, a.path ≠ b.path)
    (htables : ∀ r ∈ new, r.table ∈ s.schema.tables) : Spread s (rs ++ new) where
  traced := htraced
  bridged := by
    intro r hr hnone
    rcases List.mem_append.mp hr with hr | hr
    · exact (h.bridged r hr hnone).mono (List.subset_append_left ..)
    · exact hbridged r hr hnone
  paths := List.pairwise_append.mpr ⟨h.paths, hpaths, hapart⟩
  tables := by
    intro r hr
    rcases List.mem_append.mp hr with hr | hr
    · exact h.tables r hr
    · exact htables r hr

theorem push (h : Spread s rs) (htraced : Traced s (rs ++ [r])) (hmodel : r.model.isSome)
    (hnew : ∀ a ∈ rs, a.path ≠ r.path) (htable : r.table ∈ s.schema.tables) :
    Spread s (rs ++ [r]) := by
  refine h.extend htraced ?_ (List.pairwise_singleton ..) ?_ ?_
  · intro x hx hnone
    rw [List.mem_singleton.mp hx] at hnone
    rw [hnone] at hmodel
    cases hmodel
  · intro a ha b hb
    rw [List.mem_singleton.mp hb]
    exact hnew a ha
  · intro x hx
    rw [List.mem_singleton.mp hx]
    exact htable

theorem worded (h : Spread s rs) (hs : Based s) (hmem : s.master ∈ rs) (hr : r ∈ rs)
    (hne : r ≠ s.master) : ∃ words, Worded s rs r words := by
  cases hmodel : r.model with
  | none => exact (h.bridged r hr hmodel).worded hs hmem
  | some label =>
    obtain ⟨names, hlead⟩ := h.traced.led r hr (by rw [hmodel]; rfl)
    refine ⟨names.reverse, hlead.worded hs hmem ?_⟩
    rintro rfl
    cases hlead
    exact hne rfl

/-- A path that goes on from one that is not there is not there either. -/
theorem path_ne_append (h : Spread s rs) (hs : Based s) (hmem : s.master ∈ rs)
    {words : List String} {w : String} (hne : words ≠ []) (hwords : ∀ v ∈ words, Text.Word v)
    (hw : Text.Word w) (hnew : ∀ a ∈ rs, a.path ≠ Text.join "." words) :
    ∀ a ∈ rs, a.path ≠ Text.join "." words ++ "." ++ w := by
  intro a ha he
  by_cases hmaster : a = s.master
  · rw [hmaster, hs.path] at he
    have := congrArg String.toList he
    simp at this
  · obtain ⟨words', hworded⟩ := h.worded hs hmem ha hmaster
    have hjoin : Text.join "." words' = Text.join "." (words ++ [w]) := by
      rw [← hworded.path, he, Text.join_append hne (by simp)]
      rfl
    have hsame : words' = words ++ [w] := by
      refine Text.divides_dot.join_injective (fun v hv => (hworded.plain v hv).dotless) ?_
        hworded.nonempty (by simp) hjoin
      intro v hv
      rcases List.mem_append.mp hv with hv | hv
      · exact (hwords v hv).dotless
      · rw [List.mem_singleton.mp hv]
        exact hw.dotless
    obtain ⟨q, hq, hpath⟩ := hworded.before words w hsame hne
    exact hnew q hq hpath

end Spread

theorem Joins.spread (hs : Based s) (h : Joins s parent m f rs r rs') (hrs : Spread s rs)
    (hmem : s.master ∈ rs) (hp : parent ∈ rs) (hm : modelOf s parent = .ok m)
    (hf : f ∈ m.fields) : Spread s rs' := by
  have htraced := h.traced hrs.traced hp hm hf
  cases hfind : rs.find? (·.path == pathOf parent f) with
  | some known =>
    rw [← (h.eq_known hfind).1]
    exact hrs
  | none =>
    have hnew := path_ne_of_find?_eq_none hfind
    have table {name : String} {target : Model} (ht : resolveModel s name = .ok target) :
        target.table ∈ s.schema.tables :=
      List.mem_append_left _ (List.mem_map_of_mem (Schema.resolveModel_mem ht).1)
    obtain ⟨hside, hpath⟩ := h.otherSide hfind
    obtain ⟨names, hlead⟩ := hrs.traced.led parent hp (isSome_of_modelOf hm)
    have hled : Leads s rs' (f.name :: names) r :=
      .field (hlead.mono h.subset) hm hf h.mem hpath hside
    have hworded := hled.worded hs (h.subset hmem) (by simp)
    cases h with
    | known hr => rw [hfind] at hr; cases hr
    | forward _ _ ht _ hr =>
      rw [hr] at htraced ⊢
      exact hrs.push htraced rfl hnew (table ht)
    | reverse _ _ ht _ _ hr =>
      rw [hr] at htraced ⊢
      exact hrs.push htraced rfl hnew (table ht)
    | @bridge _ through _ _ _ _ link _ _ hlink ht hl hr =>
      have hthrough := Schema.mem_linkTables (mem_models_of_modelOf hm) hf hlink
      have hlinkPath : link.path = r.path ++ "." ++ through := by
        rw [hl, hpath]
        rfl
      have hlinkNew : ∀ a ∈ rs, a.path ≠ link.path := by
        rw [hlinkPath, hworded.path]
        rw [← hpath, hworded.path] at hnew
        exact hrs.path_ne_append hs hmem hworded.nonempty hworded.plain
          (hs.unmixed.links through hthrough) hnew
      have hlinkTable : link.table = through := by
        rw [hl]
        rfl
      have htable : r.table ∈ s.schema.tables := by
        rw [hr]
        exact table ht
      rw [List.append_assoc] at htraced hled ⊢
      refine hrs.extend htraced ?_ ?_ ?_ ?_
      · intro x hx hnone
        rcases List.mem_cons.mp hx with rfl | hx
        · exact ⟨_, r, through, by simp, hled, hthrough, hlinkPath⟩
        · rw [List.mem_singleton.mp hx, hr] at hnone
          cases hnone
      · refine List.pairwise_pair.mpr ?_
        rw [hlinkPath]
        intro he
        have := congrArg (fun t : String => t.toList.length) he
        simp at this
      · intro a ha b hb
        rcases List.mem_cons.mp hb with rfl | hb
        · exact hlinkNew a ha
        · rw [List.mem_singleton.mp hb, hpath]
          exact hnew a ha
      · intro x hx
        rcases List.mem_cons.mp hx with rfl | hx
        · rw [hlinkTable]
          exact List.mem_append_right _ hthrough
        · rw [List.mem_singleton.mp hx]
          exact htable

theorem Grows.spread (hs : Based s) (h : Grows s rs rs') (hrs : Spread s rs)
    (hmem : s.master ∈ rs) : Spread s rs' := by
  induction h with
  | refl => exact hrs
  | step hp hm hf hj _ ih => exact ih (hj.spread hs hrs hmem hp hm hf) (hj.subset hmem)

/-! ### References differ -/

theorem flatten_inj {words more : List String} (hw : ∀ w ∈ words, Text.Word w)
    (hm : ∀ w ∈ more, Text.Word w) (hwords : words ≠ []) (hmore : more ≠ [])
    (h : flatten (Text.join "." words) = flatten (Text.join "." more)) : words = more := by
  rw [flatten_join hw, flatten_join hm] at h
  exact Text.divides_underscores.join_injective (fun w hmem => (hw w hmem).2)
    (fun w hmem => (hm w hmem).2) hwords hmore h

/-- Different paths give different aliases. -/
theorem Worded.alias_ne {a b : Relation} {words more : List String} (ha : Worded s rs a words)
    (hb : Worded s rs b more) (hpath : a.path ≠ b.path) (depth : Nat) :
    aliasText depth a.path ≠ aliasText depth b.path := by
  intro he
  have hflat : flatten a.path = flatten b.path := by
    unfold aliasText at he
    split at he
    · exact he
    · have hchars := congrArg String.toList he
      simp only [String.toList_append] at hchars
      exact String.toList_injective (List.append_cancel_left hchars)
  rw [ha.path, hb.path] at hflat hpath
  exact hpath (by rw [flatten_inj ha.plain hb.plain ha.nonempty hb.nonempty hflat])

/-- No table has the name of an alias. -/
theorem Worded.alias_ne_table (hs : Based s) {words : List String} (h : Worded s rs r words)
    {table : String} (htable : table ∈ s.schema.tables) (depth : Nat) :
    aliasText depth r.path ≠ table := by
  obtain ⟨hname, hdouble, hlevel⟩ := hs.unmixed.tables table htable
  rintro rfl
  unfold aliasText at hname hdouble hlevel
  split at hlevel
  · next hdepth =>
    rw [if_pos hdepth, h.path, flatten_join h.plain] at hname hdouble
    obtain ⟨w, rest, rfl⟩ := List.exists_cons_of_ne_nil h.nonempty
    by_cases hnil : rest = []
    · subst hnil
      exact hname (h.single w rfl)
    · rw [Text.join_cons w hnil] at hdouble
      exact hdouble ⟨w.toList, (Text.join "__" rest).toList, by simp⟩
  · rw [String.append_assoc, isLevelName_ofNat] at hlevel
    cases hlevel

/-- No alias in a sub-query is the name of one: it has an underscore after its level. -/
theorem aliasText_ne_level {depth level : Nat} (h : depth ≠ 0) (path : String) :
    aliasText depth path ≠ "sq" ++ Text.ofNat level := by
  intro he
  rw [aliasText, if_neg (by simpa using h)] at he
  have hbar : '_' ∈ ("sq" ++ Text.ofNat level).toList := by
    rw [← he]
    simp
  simp [Text.ofNat, Text.digits] at hbar

theorem Based.table_ne_level (hs : Based s) {table : String} (h : table ∈ s.schema.tables) :
    table ≠ "sq" ++ Text.ofNat s.depth := by
  rintro rfl
  have hlevel := (hs.unmixed.tables _ h).2.2
  have hname := isLevelName_ofNat s.depth ""
  rw [String.append_empty, hlevel] at hname
  cases hname

theorem Based.depth_ne_zero (hs : Based s) (h : s.master.knownAs.isSome) : s.depth ≠ 0 := by
  refine hs.depth ?_
  rw [hs.master] at h
  simpa [Relation.master] using h

theorem Based.reference_master (hs : Based s) (h : s.master.knownAs.isSome) :
    s.master.reference = "sq" ++ Text.ofNat s.depth := by
  rw [hs.master] at h ⊢
  cases ho : s.outer with
  | none =>
    rw [ho] at h
    cases h
  | some o => rfl

/-- An alias is the reference of one relation. -/
theorem Spread.reference_ne (hs : Based s) (h : Spread s rs) (hr : Referenced s rs)
    (hmem : s.master ∈ rs) {a b : Relation} (ha : a ∈ rs) (hb : b ∈ rs) (hpath : a.path ≠ b.path)
    (halias : a.knownAs.isSome) : a.reference ≠ b.reference := by
  have joined {x : Relation} (hx : x ∈ rs) (hne : x ≠ s.master) (hsome : x.knownAs.isSome) :
      x.reference = aliasText s.depth x.path :=
    Relation.reference_of_some ((hr.aliased x hx hsome).resolve_left hne)
  by_cases hamaster : a = s.master
  · subst hamaster
    have hbmaster : b ≠ s.master := fun he => hpath (by rw [he])
    rw [hs.reference_master halias]
    cases hbalias : b.knownAs with
    | none =>
      rw [Relation.reference_of_none hbalias]
      exact (hs.table_ne_level (h.tables b hb)).symm
    | some x =>
      rw [joined hb hbmaster (by rw [hbalias]; rfl)]
      exact (aliasText_ne_level (hs.depth_ne_zero halias) b.path).symm
  · obtain ⟨words, hworded⟩ := h.worded hs hmem ha hamaster
    rw [joined ha hamaster halias]
    cases hbalias : b.knownAs with
    | none =>
      rw [Relation.reference_of_none hbalias]
      exact hworded.alias_ne_table hs (h.tables b hb) s.depth
    | some x =>
      have hbsome : b.knownAs.isSome := by rw [hbalias]; rfl
      by_cases hbmaster : b = s.master
      · subst hbmaster
        rw [hs.reference_master hbsome]
        exact aliasText_ne_level (hs.depth_ne_zero hbsome) a.path
      · obtain ⟨more, hmore⟩ := h.worded hs hmem hb hbmaster
        rw [joined hb hbmaster hbsome]
        exact hworded.alias_ne hmore hpath s.depth

/-- In an unmixed schema no alias meets another reference. -/
theorem Grows.not_meets (hs : Based s) (h : Grows s [s.master] rs) :
    rs.Pairwise fun a b => ¬ a.Meets b := by
  have hmem := h.subset (List.mem_singleton_self s.master)
  have hspread := h.spread hs (.singleton hs) (List.mem_singleton_self s.master)
  have hreferenced := h.referenced (referenced_singleton s)
  refine hspread.paths.imp_of_mem ?_
  rintro a b ha hb hpath ⟨halias | halias, he⟩
  · exact hspread.reference_ne hs hreferenced hmem ha hb hpath halias he
  · exact hspread.reference_ne hs hreferenced hmem hb ha (Ne.symm hpath) halias he.symm

end Join
end PathQuery
