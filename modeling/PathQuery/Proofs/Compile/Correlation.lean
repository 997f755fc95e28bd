import PathQuery.Proofs.Compile.Naming
import PathQuery.Sample.Small

/-!
Correlated sub-queries. Inside one, the row of the SELECT directly around is known by the reference
of its master. Every name that is in use further out is noted, and a table with such a name gets an
alias of its own level, so nothing that a sub-query joins can take that reference over, and
`outer.f` is a column of the row around.
-/

namespace PathQuery

/-- What a reference stands for where SELECTs with these relations are inside each other, the
innermost first: of several relations of one SELECT that have it, the first. -/
def denoted? (levels : List (List Relation)) (reference : String) : Option Relation :=
  levels.findSome? fun rs => rs.find? (·.reference == reference)

/-- A name that nothing inside has stands for what it stands for around. -/
theorem denoted?_around {inner outer : List Relation} {master : Relation}
    (hfree : ∀ r ∈ inner, r.reference ≠ master.reference) (hfirst : outer.head? = some master)
    (further : List (List Relation)) :
    denoted? (inner :: outer :: further) master.reference = some master := by
  have hinner : inner.find? (·.reference == master.reference) = none := by
    rw [List.find?_eq_none]
    intro r hr
    simpa using hfree r hr
  obtain ⟨rest, rfl⟩ := List.head?_eq_some_iff.mp hfirst
  have houter : (master :: rest).find? (·.reference == master.reference) = some master :=
    List.find?_cons_of_pos (by simp)
  simp only [denoted?, List.findSome?_cons, hinner, houter]

/-- No table and no link table has a name that starts like those of sub-queries, with `sq` and a
digit. -/
def Schema.Unleveled (s : Schema) : Prop :=
  ∀ table ∈ s.tables, Join.isLevelName table = false

namespace Join

variable {s : Scope} {rs rs' : List Relation} {parent r : Relation} {m : Model} {f : Field}

theorem aliasFor_cases (s : Scope) (rs : List Relation) (table path : String) :
    (table ∉ s.enclosing ∧ aliasFor s rs table path = none) ∨
      aliasFor s rs table path = some (aliasText s.depth path) := by
  unfold aliasFor
  split
  · exact .inr rfl
  · next htaken =>
    refine .inl ⟨?_, rfl⟩
    intro hmem
    exact htaken (Bool.or_eq_true _ _ ▸ .inr (by simpa using hmem))

/-- A name of the queries around that is neither the master's nor an alias is never given to a
relation. -/
theorem Grows.reference_ne {name : String} (h : Grows s [s.master] rs) (hname : name ∈ s.enclosing)
    (hmaster : s.master.reference ≠ name) (halias : ∀ path, aliasText s.depth path ≠ name) :
    ∀ r ∈ rs, r.reference ≠ name := by
  refine h.invariant (I := fun rs => ∀ r ∈ rs, r.reference ≠ name) ?_ ?_
  · intro rs p model table path join source column _ hrs
    refine List.forall_mem_append.mpr ⟨hrs, List.forall_mem_singleton.mpr ?_⟩
    rcases aliasFor_cases s rs table path with ⟨hfree, hnone⟩ | hsome
    · rw [Relation.reference_of_none hnone]
      rintro rfl
      exact hfree hname
    · rw [Relation.reference_of_some hsome]
      exact halias path
  · exact List.forall_mem_singleton.mpr hmaster

/-- `outer.f` is the column of a field of the model around, under the reference of its row. -/
theorem resolvePath_outer {o : Outer} {field : String} {t : PathTarget} (ho : s.outer = some o)
    (h : resolvePath s "outer" [field] rs = .ok (t, rs')) :
    t.column.relation = o.reference ∧
      ∃ f, Schema.resolveField o.model field = .ok f ∧ f.columnName? = some t.column.column := by
  have hof : outerOf s "outer" = some o := ho
  simp [resolvePath, hof, outerColumn] at h
  obtain ⟨h, -⟩ := h
  split at h
  · cases h
  · next f hf =>
    split at h
    · next column hcolumn =>
      cases h
      exact ⟨rfl, f, hf, hcolumn⟩
    · cases h

/-! ### Tables -/

theorem Joins.tables (h : Joins s parent m f rs r rs') (hm : modelOf s parent = .ok m)
    (hf : f ∈ m.fields) (hrs : ∀ r ∈ rs, r.table ∈ s.schema.tables) :
    ∀ r ∈ rs', r.table ∈ s.schema.tables := by
  have table {name : String} {target : Model} (ht : resolveModel s name = .ok target) :
      target.table ∈ s.schema.tables :=
    List.mem_append_left _ (List.mem_map_of_mem (Schema.resolveModel_mem ht).1)
  have push {rs : List Relation} {r : Relation} (hrs : ∀ r ∈ rs, r.table ∈ s.schema.tables)
      (hr : r.table ∈ s.schema.tables) : ∀ x ∈ rs ++ [r], x.table ∈ s.schema.tables :=
    List.forall_mem_append.mpr ⟨hrs, List.forall_mem_singleton.mpr hr⟩
  cases h with
  | known => exact hrs
  | forward _ _ ht _ hr => exact push hrs (hr ▸ table ht)
  | reverse _ _ ht _ _ hr => exact push hrs (hr ▸ table ht)
  | bridge _ hlink ht hl hr =>
    have hthrough := Schema.mem_linkTables (mem_models_of_modelOf hm) hf hlink
    exact push (push hrs (hl ▸ List.mem_append_right _ hthrough)) (hr ▸ table ht)

/-- All that is joined are tables of the schema. -/
theorem Grows.tables (h : Grows s rs rs') (hrs : ∀ r ∈ rs, r.table ∈ s.schema.tables) :
    ∀ r ∈ rs', r.table ∈ s.schema.tables := by
  induction h with
  | refl => exact hrs
  | step _ hm hf hj _ ih => exact ih (hj.tables hm hf hrs)

/-! ### Names of levels -/

theorem level_injective {a b : Nat} (h : "sq" ++ Text.ofNat a = "sq" ++ Text.ofNat b) : a = b := by
  have hdigits : Nat.toDigits 10 a = Nat.toDigits 10 b := by
    simpa [Text.ofNat, Text.digits] using congrArg String.toList h
  have hvalue := congrArg (fun ds => Nat.ofDigitChars 10 ds 0) hdigits
  simpa using hvalue

theorem isLevelName_aliasText {depth : Nat} (h : depth ≠ 0) (path : String) :
    isLevelName (aliasText depth path) = true := by
  rw [aliasText, if_neg (by simpa using h), String.append_assoc]
  exact isLevelName_ofNat depth _

theorem isLevelName_level (depth : Nat) : isLevelName ("sq" ++ Text.ofNat depth) = true := by
  have h := isLevelName_ofNat depth ""
  rwa [String.append_empty] at h

end Join

namespace Compile

open Steps

variable {registry : Registry} {schema : Schema} {options : Options} {model : Model}
  {joinTypes : Table JoinType} {around scope : Scope} {rs : List Relation}

/-- The master of a SELECT is known by its table, or by its level in a correlated sub-query. -/
theorem Level.reference_master {around? : Option Scope}
    (h : Level registry (.top schema options model joinTypes) around? scope) :
    (scope.outer = none ∧ scope.master.reference = scope.model.table) ∨
      (scope.outer.isSome ∧ scope.master.reference = "sq" ++ Text.ofNat scope.depth) := by
  rw [h.master_eq]
  cases scope.outer with
  | none => exact .inl ⟨rfl, rfl⟩
  | some o => exact .inr ⟨rfl, rfl⟩

/-- A sub-query is one level below and knows the references around it. -/
theorem Level.inner_facts
    (h : Level registry (.top schema options model joinTypes) (some around) scope) :
    (∃ around?, Level registry (.top schema options model joinTypes) around? around) ∧
      scope.depth = around.depth + 1 ∧ around.master.reference ∈ scope.enclosing := by
  cases h with
  | @inner around? _ _ _ rs _ _ h hrs hsub =>
    have hmem : around.master ∈ rs := hrs.subset (List.mem_singleton_self around.master)
    have henclosing : around.master.reference ∈ around.enclosing ++
        rs.flatMap fun r => [r.table, r.reference] :=
      List.mem_append_right _ (List.mem_flatMap.mpr ⟨around.master, hmem, by simp⟩)
    refine ⟨⟨around?, h⟩, ?_⟩
    cases hsub with
    | correlated => exact ⟨rfl, henclosing⟩
    | named => exact ⟨rfl, henclosing⟩

theorem Level.table_ne {around? : Option Scope} {name : String}
    (h : Level registry (.top schema options model joinTypes) around? scope)
    (hmodel : model ∈ schema.models) (htables : schema.Unleveled)
    (hname : Join.isLevelName name = true) : scope.model.table ≠ name := by
  rintro rfl
  have hplain := htables _ (List.mem_append_left _ (List.mem_map_of_mem (h.model_mem hmodel)))
  rw [hname] at hplain
  cases hplain

/-- Nothing in a correlated sub-query has the reference of the row around it. -/
theorem Level.reference_ne
    (h : Level registry (.top schema options model joinTypes) (some around) scope)
    (hmodel : model ∈ schema.models) (htables : schema.Unleveled) (houter : scope.outer.isSome)
    (hrs : Join.Grows scope [scope.master] rs) :
    ∀ r ∈ rs, r.reference ≠ around.master.reference := by
  obtain ⟨⟨around?, haround⟩, hdepth, henclosing⟩ := h.inner_facts
  have hdepth' : scope.depth ≠ 0 := h.depth_ne_zero houter
  have hmaster : scope.master.reference = "sq" ++ Text.ofNat scope.depth := by
    rcases h.reference_master with ⟨hnone, -⟩ | ⟨-, hlevel⟩
    · rw [hnone] at houter
      cases houter
    · exact hlevel
  rcases haround.reference_master with ⟨-, htable⟩ | ⟨-, hlevel⟩
  · -- the row around is known by its table, which is named like no level
    rw [htable]
    have hne {name : String} (hname : Join.isLevelName name = true) :
        name ≠ around.model.table := (haround.table_ne hmodel htables hname).symm
    refine hrs.reference_ne (htable ▸ henclosing) ?_ ?_
    · rw [hmaster]
      exact hne (Join.isLevelName_level _)
    · intro path
      exact hne (Join.isLevelName_aliasText hdepth' path)
  · -- the row around is known by a level, which is not this one
    rw [hlevel]
    refine hrs.reference_ne (hlevel ▸ henclosing) ?_ ?_
    · rw [hmaster, hdepth]
      intro he
      exact absurd (Join.level_injective he) (Nat.succ_ne_self _)
    · intro path
      exact Join.aliasText_ne_level hdepth' path

/-- In a SELECT the reference of the master is its own, but for an alias on the outermost level. -/
theorem Level.reference_unique {around? : Option Scope} {r : Relation}
    (h : Level registry (.top schema options model joinTypes) around? scope)
    (hmodel : model ∈ schema.models) (htables : schema.Unleveled)
    (hrs : Join.Grows scope [scope.master] rs) (hr : r ∈ rs)
    (href : r.reference = scope.master.reference) :
    r = scope.master ∨ scope.depth = 0 ∧ r.knownAs = some (Join.flatten r.path) := by
  have hreferenced := hrs.referenced (Join.referenced_singleton scope)
  have hschema := h.schema_eq
  have hmaster : scope.master.table ∈ scope.schema.tables := by
    rw [hschema, h.master_eq]
    exact List.mem_append_left _ (List.mem_map_of_mem (h.model_mem hmodel))
  have htable : Join.isLevelName r.table = false := by
    refine htables _ ?_
    rw [← hschema]
    exact hrs.tables (List.forall_mem_singleton.mpr hmaster) r hr
  obtain ⟨rest, rfl⟩ := hrs.extends
  by_cases hne : r = scope.master
  · exact .inl hne
  · right
    have hrest : r ∈ rest := by
      rcases List.mem_append.mp hr with hr | hr
      · exact absurd (List.mem_singleton.mp hr) hne
      · exact hr
    cases hknown : r.knownAs with
    | none =>
      rw [Relation.reference_of_none hknown] at href
      rcases h.reference_master with ⟨-, hown⟩ | ⟨-, hlevel⟩
      · -- a table that stands without an alias is not the master's
        have hfresh := (List.pairwise_cons.mp hreferenced.fresh).1 r hrest hknown
        rw [hown] at href
        rw [h.master_eq] at hfresh
        exact absurd href.symm hfresh
      · rw [href, hlevel, Join.isLevelName_level] at htable
        cases htable
    | some a =>
      have halias := (hreferenced.aliased r hr (by rw [hknown]; rfl)).resolve_left hne
      rw [hknown, Option.some.injEq] at halias
      rw [Relation.reference_of_some hknown, halias] at href
      by_cases hdepth : scope.depth = 0
      · refine ⟨hdepth, ?_⟩
        rw [halias, Join.aliasText, hdepth]
        rfl
      · rcases h.reference_master with ⟨-, hown⟩ | ⟨-, hlevel⟩
        · rw [hown] at href
          exact absurd href.symm
            (h.table_ne hmodel htables (Join.isLevelName_aliasText hdepth r.path))
        · rw [hlevel] at href
          exact absurd href (Join.aliasText_ne_level hdepth r.path)

/-- The reference of the master is no other's exactly if, on the outermost level, it is not the
alias of a path. -/
theorem Level.reference_unique_iff {around? : Option Scope}
    (h : Level registry (.top schema options model joinTypes) around? scope)
    (hmodel : model ∈ schema.models) (htables : schema.Unleveled)
    (hrs : Join.Grows scope [scope.master] rs) :
    (∀ r ∈ rs, r.reference = scope.master.reference → r = scope.master) ↔
      (scope.depth = 0 → ∀ r ∈ rs, r.knownAs ≠ some scope.master.reference) := by
  constructor
  · intro hunique hdepth r hr hknown
    obtain rfl := hunique r hr (Relation.reference_of_some hknown)
    have houter : ¬ scope.outer.isSome := fun houter => h.depth_ne_zero houter hdepth
    rw [Bool.not_eq_true, Option.isSome_eq_false_iff, Option.isNone_iff_eq_none] at houter
    rw [h.master_eq, houter] at hknown
    cases hknown
  · intro hfree r hr href
    rcases h.reference_unique hmodel htables hrs hr href with hmaster | ⟨hdepth, hknown⟩
    · exact hmaster
    · rw [Relation.reference_of_some hknown] at href
      rw [href] at hknown
      exact absurd hknown (hfree hdepth r hr)

/-! ### Plans inside each other -/

/-- The SELECT directly around a plan, among those that are written before it: the last that is one
level further out. -/
def enclosing? (before : List Select) (plan : Select) : Option Select :=
  before.reverse.find? fun p => p.depth + 1 == plan.depth

/-- Plans of the sub-queries of a SELECT whose master has this reference, each followed by those
inside it. -/
inductive Forest : Nat → String → List Select → Prop
  | nil (depth : Nat) (reference : String) : Forest depth reference []
  | cons {depth : Nat} {reference : String} {plan : Select} {master : Relation}
      {inner rest : List Select} (hdepth : plan.depth = depth + 1)
      (houter : ∀ name ∈ plan.outer, name = reference)
      (hfirst : plan.relations.head? = some master)
      (hinner : Forest (depth + 1) master.reference inner) (hrest : Forest depth reference rest) :
      Forest depth reference (plan :: (inner ++ rest))

variable {depth : Nat} {reference : String} {plans more : List Select}

theorem Forest.append (h : Forest depth reference plans) (h' : Forest depth reference more) :
    Forest depth reference (plans ++ more) := by
  induction h with
  | nil => exact h'
  | cons hdepth houter hfirst hinner _ _ ih =>
    rw [List.cons_append, List.append_assoc]
    exact .cons hdepth houter hfirst hinner (ih h')

theorem Forest.depth_lt (h : Forest depth reference plans) :
    ∀ plan ∈ plans, depth < plan.depth := by
  induction h with
  | nil => simp
  | cons hdepth _ _ _ _ ihinner ihrest =>
    refine List.forall_mem_cons.mpr ⟨by omega, List.forall_mem_append.mpr ⟨?_, ihrest⟩⟩
    intro p hp
    have := ihinner p hp
    omega

/-- The last SELECT of a level stays so when only deeper ones follow. -/
theorem find?_append_deeper {front deeper : List Select} {root : Select}
    (hroot : front.reverse.find? (·.depth == depth) = some root)
    (hdeeper : ∀ p ∈ deeper, depth < p.depth) :
    (front ++ deeper).reverse.find? (·.depth == depth) = some root := by
  have hnone : deeper.reverse.find? (·.depth == depth) = none := by
    rw [List.find?_eq_none]
    intro p hp
    have := hdeeper p (List.mem_reverse.mp hp)
    simp only [beq_iff_eq]
    omega
  rw [List.reverse_append, List.find?_append, hnone, Option.none_or, hroot]

/-- A correlated plan in a forest names the master of the SELECT directly around it. -/
theorem Forest.enclosed (h : Forest depth reference plans) {front before after : List Select}
    {root plan : Select} {name : String}
    (hroot : front.reverse.find? (·.depth == depth) = some root)
    (href : root.relations.head?.map (·.reference) = some reference)
    (hplans : plans = before ++ plan :: after) (hname : plan.outer = some name) :
    ∃ around, enclosing? (front ++ before) plan = some around ∧
      around.relations.head?.map (·.reference) = some name := by
  induction h generalizing front root before after with
  | nil => simp at hplans
  | @cons depth reference first master inner rest hdepth houter hfirst hinner _ ihinner ihrest =>
    cases before with
    | nil =>
      -- the plan is the first one, and the root is around it
      obtain ⟨rfl, -⟩ := List.cons.inj hplans
      refine ⟨root, ?_, ?_⟩
      · simp only [enclosing?, List.append_nil, hdepth, ← hroot]
        congr 1
        funext p
        rw [Bool.eq_iff_iff, beq_iff_eq, beq_iff_eq]
        omega
      · rw [href, houter name hname]
    | cons p before =>
      obtain ⟨rfl, hparts⟩ := List.cons.inj hplans
      have hsplit : (∃ between, before = inner ++ between ∧ rest = between ++ plan :: after) ∨
          ∃ behind, inner = before ++ plan :: behind := by
        rcases List.append_eq_append_iff.mp hparts with h | ⟨tail, hinner, htail⟩
        · exact .inl h
        · cases tail with
          | nil => exact .inl ⟨[], by simpa using hinner.symm, by simpa using htail.symm⟩
          | cons q tail => exact .inr ⟨tail, by rw [hinner, (List.cons.inj htail).1]⟩
      rcases hsplit with ⟨between, rfl, hrest'⟩ | ⟨behind, hinner'⟩
      · -- it stands behind all that is inside the first one
        have hdeeper : ∀ p ∈ first :: inner, depth < p.depth := by
          refine List.forall_mem_cons.mpr ⟨by omega, fun p hp => ?_⟩
          have := hinner.depth_lt p hp
          omega
        obtain ⟨around, haround, hhead⟩ :=
          ihrest (find?_append_deeper hroot hdeeper) href hrest'
        exact ⟨around, by simpa using haround, hhead⟩
      · -- it is inside the first one
        have hfirst' : (front ++ [first]).reverse.find? (·.depth == depth + 1) = some first := by
          simp [hdepth]
        obtain ⟨around, haround, hhead⟩ := ihinner hfirst' (by rw [hfirst]; rfl) hinner'
        exact ⟨around, by simpa using haround, hhead⟩

/-- What is gathered in a scope starts with its master, and the plans are a forest. -/
structure Gathered.Planted (scope : Scope) (g : Gathered) : Prop where
  first : [scope.master] <+: g.relations
  nested : Forest scope.depth scope.master.reference g.nested

theorem Gathered.Planted.head? {g : Gathered} (h : Gathered.Planted scope g) :
    g.relations.head? = some scope.master := by
  obtain ⟨rest, hrest⟩ := h.first
  rw [← hrest]
  rfl

/-- The plan of a template starts with the master of its scope, and its sub-queries are a forest
below it. -/
structure Template.Planted (scope : Scope) (t : Template) : Prop where
  depth : t.select.depth = scope.depth
  outer : t.select.outer = scope.outer.map (·.reference)
  first : t.select.relations.head? = some scope.master
  nested : Forest scope.depth scope.master.reference t.nested

theorem Step.planted {f : Frame} {g g' : Gathered}
    (hn : ∀ scope s t, f.nested scope s = .ok t → Template.Planted scope t) (h : Step f g g')
    (hg : Gathered.Planted f.scope g) : Gathered.Planted f.scope g' := by
  cases h with
  | path hp =>
    have hmaster := List.mem_of_mem_head? hg.head?
    exact ⟨hg.first.trans (Join.resolvePath_grows hmaster hp).extends, hg.nested⟩
  | nested hsub ht _ =>
    refine ⟨hg.first, hg.nested.append ?_⟩
    obtain ⟨hdepth, houter, hfirst, hinner⟩ := hn _ _ _ ht
    rw [← List.append_nil (Template.nested _)]
    cases hsub with
    | correlated =>
      refine .cons hdepth ?_ hfirst hinner (.nil ..)
      intro name hname
      rw [houter] at hname
      exact (Option.some.inj hname).symm
    | named =>
      refine .cons hdepth ?_ hfirst hinner (.nil ..)
      intro name hname
      rw [houter] at hname
      cases hname
  | values => exact ⟨hg.first, hg.nested⟩
  | text => exact ⟨hg.first, hg.nested⟩
  | call => exact ⟨hg.first, hg.nested⟩

theorem templateWithin_planted {n : Nat} {s : Statement} {t : Template}
    (h : templateWithin registry n scope s = .ok t) : Template.Planted scope t := by
  refine templateWithin_induction (P := fun scope _ t => Template.Planted scope t) ?_ n h
  intro nested hnested scope s t ht
  obtain ⟨g, hrun, hrelations, hgathered⟩ := select_run ht
  have hend : Gathered.Planted scope g :=
    hrun.invariant (I := Gathered.Planted scope) (fun _ _ hstep hg => hstep.planted hnested hg)
      ⟨List.prefix_rfl, .nil ..⟩
  obtain ⟨hdepth, -, houter⟩ := select_place ht
  exact ⟨hdepth, houter, hrelations ▸ hend.head?, hgathered ▸ hend.nested⟩

/-- A correlated plan is written behind the SELECT directly around it, and names its master. -/
theorem template_enclosed {s : Statement} {t : Template} {before after : List Select}
    {plan : Select} {name : String}
    (h : template registry (.top schema options model joinTypes) s = .ok t)
    (hplans : t.select :: t.nested = before ++ plan :: after) (hname : plan.outer = some name) :
    ∃ around, enclosing? before plan = some around ∧
      around.relations.head?.map (·.reference) = some name := by
  obtain ⟨hdepth, houter, hfirst, hnested⟩ := templateWithin_planted h
  cases before with
  | nil =>
    obtain ⟨rfl, -⟩ := List.cons.inj hplans
    rw [houter] at hname
    cases hname
  | cons first before =>
    obtain ⟨rfl, hrest⟩ := List.cons.inj hplans
    have hroot : [t.select].reverse.find?
        (·.depth == (Scope.top schema options model joinTypes).depth) = some t.select := by
      simp [hdepth]
    exact hnested.enclosed hroot (by rw [hfirst]; rfl) hrest hname

/-- Correlation is never captured. In every correlated sub-query, whatever SELECTs it stands in, and
in every state of it, nothing that is joined has the reference of the master of the SELECT directly
around, so `outer.f` is the column of the field `f` of that row: looked up from inside, the
reference is first that of the master around. Of the relations there it is the only one with this
reference exactly if no path on the outermost level has it for an alias. In the result, each
correlated plan names the master of the plan around it, and none of its own relations. -/
theorem template_uncaptured (registry : Registry) (options : Options) (joinTypes : Table JoinType)
    (hmodel : model ∈ schema.models) (htables : schema.Unleveled) :
    (∀ around scope, Level registry (.top schema options model joinTypes) (some around) scope →
      scope.outer.isSome → ∀ inner outer, Join.Grows scope [scope.master] inner →
      Join.Grows around [around.master] outer →
        (∀ r ∈ inner, r.reference ≠ around.master.reference) ∧
        (∀ field target rs', Join.resolvePath scope "outer" [field] inner = .ok (target, rs') →
          (∃ f, Schema.resolveField around.model field = .ok f ∧
            f.columnName? = some target.column.column) ∧
          (∀ further,
            denoted? (inner :: outer :: further) target.column.relation = some around.master) ∧
          ((∀ r ∈ outer, r.reference = target.column.relation → r = around.master) ↔
            (around.depth = 0 → ∀ r ∈ outer, r.knownAs ≠ some target.column.relation))) ∧
        ∀ r ∈ outer, r.reference = around.master.reference →
          r = around.master ∨ around.depth = 0 ∧ r.knownAs = some (Join.flatten r.path)) ∧
    ∀ s t, template registry (.top schema options model joinTypes) s = .ok t →
      ∀ before plan after name, t.select :: t.nested = before ++ plan :: after →
      plan.outer = some name →
        ∃ around master, enclosing? before plan = some around ∧
          around.relations.head? = some master ∧ master.reference = name ∧
          (∀ r ∈ plan.relations, r.reference ≠ name) ∧
          denoted? [plan.relations, around.relations] name = some master ∧
          ((∀ r ∈ around.relations, r.reference = name → r = master) ↔
            (around.depth = 0 → ∀ r ∈ around.relations, r.knownAs ≠ some name)) := by
  refine ⟨?_, ?_⟩
  · intro around scope hlevel houter inner outer hinner hgrown
    have hfree := hlevel.reference_ne hmodel htables houter hinner
    obtain ⟨⟨around?, haround⟩, -⟩ := hlevel.inner_facts
    refine ⟨hfree, ?_, fun r hr href => haround.reference_unique hmodel htables hgrown hr href⟩
    intro field target rs' hpath
    obtain ⟨o, ho⟩ := Option.isSome_iff_exists.mp houter
    obtain ⟨hreference, hfield⟩ := Join.resolvePath_outer ho hpath
    obtain ⟨_, hsame, rfl⟩ := hlevel.outer_eq ho
    obtain rfl := Option.some.inj hsame
    rw [hreference]
    refine ⟨hfield, fun further => denoted?_around hfree ?_ further,
      haround.reference_unique_iff hmodel htables hgrown⟩
    rw [List.head?_eq_getElem?, (haround.wellScoped hgrown).first]
  · intro s t ht before plan after name hplans hname
    obtain ⟨around, haround, hhead⟩ := template_enclosed ht hplans hname
    obtain ⟨master, hfirst, hreference⟩ := Option.map_eq_some_iff.mp hhead
    have hmem : plan ∈ t.select :: t.nested := by
      rw [hplans]
      simp
    obtain ⟨around?, scope, hlevel, hjoined, -, houter⟩ :=
      templateWithin_onLevel .outermost ht plan hmem
    rw [houter] at hname
    obtain ⟨o, ho, rfl⟩ := Option.map_eq_some_iff.mp hname
    obtain ⟨outer, rfl, rfl⟩ := hlevel.outer_eq ho
    have hfree := hlevel.reference_ne hmodel htables (by rw [ho]; rfl) hjoined
    have hown : master.reference = outer.master.reference := hreference
    have hdenoted := denoted?_around (hown ▸ hfree) hfirst []
    refine ⟨around, master, haround, hfirst, hown, hfree, hown ▸ hdenoted, ?_⟩
    have hmem' : around ∈ t.select :: t.nested := by
      rw [hplans]
      exact List.mem_append_left _ (List.mem_reverse.mp (List.mem_of_find?_eq_some haround))
    obtain ⟨_, scope', hlevel', hjoined', hdepth, -⟩ :=
      templateWithin_onLevel .outermost ht around hmem'
    have hmaster : scope'.master = master := by
      have hfirst' := (hlevel'.wellScoped hjoined').first
      rw [← List.head?_eq_getElem?, hfirst, Option.some.injEq] at hfirst'
      exact hfirst'.symm
    have hunique := hlevel'.reference_unique_iff hmodel htables hjoined'
    rw [hmaster, hreference, ← hdepth] at hunique
    exact hunique

-- the exception: a link of the outermost model to itself that is named like its table
example : ((Schema.build (Sample.looped "n" "n" "k")).toOption.bind fun schema =>
      (schema.resolveModel "N" none).toOption.bind fun model =>
      (template {} (.top schema {} model {}) { select := "n.n as x" }).toOption.map fun t =>
      t.select.relations.map fun r => (r.knownAs, r.reference))
    = some [(none, "n"), (some "n", "n")] := by
  decide +kernel

/-- A query with a correlated sub-query inside. -/
def kinRegistry : Registry :=
  ⟨[("o", .query { model := "N", select := "subquery('N', 'p.p as i') as x" })]⟩

theorem template_uncaptured_kin :
    ∃ schema model t around scope innermost, Schema.build (Sample.looped "n" "p" "k") = .ok schema ∧
      schema.Unleveled ∧ model ∈ schema.models ∧
      template kinRegistry (.top schema {} model {}) { select := "'@o' as x" } = .ok t ∧
      (t.select :: t.nested).map (fun plan => (plan.outer, plan.relations.map (·.reference)))
        = [(none, ["n"]), (none, ["n"]), (some "n", ["sq2", "sq2_p"])] ∧
      t.nested[1]? = some innermost ∧
      Level kinRegistry (.top schema {} model {}) (some around) scope ∧ scope.outer.isSome ∧
      Join.Grows scope [scope.master] innermost.relations ∧
      (∀ r ∈ innermost.relations, r.reference ≠ around.master.reference) ∧
      ∃ outer master, enclosing? (t.select :: t.nested.take 1) innermost = some outer ∧
        outer.relations.head? = some master ∧ master.reference = "n" ∧
        denoted? [innermost.relations, outer.relations] "n" = some master ∧
        ∀ r ∈ outer.relations, r.reference = "n" → r = master := by
  have h : ((Schema.build (Sample.looped "n" "p" "k")).toOption.bind fun schema =>
      (schema.resolveModel "N" none).toOption.bind fun model =>
      (template kinRegistry (.top schema {} model {}) { select := "'@o' as x" }).toOption.map
        fun t => decide ((∀ table ∈ schema.tables, Join.isLevelName table = false) ∧
          (t.select :: t.nested).map (fun plan => (plan.outer, plan.relations.map (·.reference)))
            = [(none, ["n"]), (none, ["n"]), (some "n", ["sq2", "sq2_p"])] ∧
          t.nested.map (·.depth) = [1, 2])) = some true := by
    decide +kernel
  simp only [Option.bind_eq_some_iff, Option.map_eq_some_iff, toOption_eq_some_iff,
    decide_eq_true_eq] at h
  obtain ⟨schema, hschema, model, hmodel, t, ht, htables, hplans, hdepths⟩ := h
  have hmem := (Schema.resolveModel_mem hmodel).1
  have hlength : t.nested.length = 2 := by simpa using congrArg List.length hplans
  obtain ⟨a, b, hnested⟩ := List.length_eq_two.mp hlength
  have houter : b.outer = some "n" := by
    simp only [hnested, List.map_cons, List.cons.injEq, Prod.mk.injEq] at hplans
    exact hplans.2.2.1.1
  obtain ⟨hstates, hresults⟩ := template_uncaptured kinRegistry {} {} hmem htables
  obtain ⟨around?, scope, hlevel, hjoined, -, hscope⟩ :=
    templateWithin_onLevel .outermost ht b (by simp [hnested])
  rw [houter] at hscope
  obtain ⟨o, ho, -⟩ := Option.map_eq_some_iff.mp hscope.symm
  have hsome : scope.outer.isSome := by rw [ho]; rfl
  obtain ⟨around, rfl, -⟩ := hlevel.outer_eq ho
  obtain ⟨hfree, -⟩ := hstates around scope hlevel hsome _ _ hjoined (.refl _)
  obtain ⟨outer, master, henclosing, hfirst, hreference, -, hdenoted, hunique⟩ :=
    hresults _ t ht [t.select, a] b [] "n" (by rw [hnested]; rfl) houter
  refine ⟨schema, model, t, around, scope, b, hschema, htables, hmem, ht, hplans, ?_, hlevel, hsome,
    hjoined, hfree, outer, master, ?_, hfirst, hreference, hdenoted, hunique.mpr ?_⟩
  · rw [hnested]
    rfl
  · rw [hnested]
    exact henclosing
  · intro hzero
    have hdepth : b.depth = 2 := by
      rw [hnested] at hdepths
      exact (List.cons.inj (List.cons.inj hdepths).2).1
    have haround := List.find?_some henclosing
    simp [hzero, hdepth] at haround

end Compile
end PathQuery
