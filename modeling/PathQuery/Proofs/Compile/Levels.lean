import PathQuery.Proofs.Compile.Plan
import PathQuery.Proofs.Join.Scoping
import PathQuery.Sample.Small

/-!
The levels of one compilation: the scope of each SELECT, from the outermost down to every sub-query,
and the relations that can be joined in it. Every plan has relations that were joined on its own
level, so what holds of joins holds of each SELECT in the result, and its text joins tables in an
order in which all conditions make sense.
-/

namespace PathQuery.Compile

open Steps

/-- The scopes of the SELECTs of one compilation, each with that of the SELECT around it. -/
inductive Level (registry : Registry) (top : Scope) : Option Scope → Scope → Prop
  | outermost : Level registry top none top
  | inner {around? : Option Scope} {around scope : Scope} {nested : Nested} {rs : List Relation}
      {s : Statement} {own : Option Context} (h : Level registry top around? around)
      (hrs : Join.Grows around [around.master] rs)
      (hsub : Subquery ⟨around, registry, nested⟩ rs scope s own) :
      Level registry top (some around) scope

section Facts

variable {registry : Registry} {schema : Schema} {options : Options} {model : Model}
  {joinTypes : Table JoinType} {around? : Option Scope} {scope : Scope}

theorem Level.schema_eq
    (h : Level registry (.top schema options model joinTypes) around? scope) :
    scope.schema = schema := by
  induction h with
  | outermost => rfl
  | inner _ _ hsub ih => cases hsub <;> exact ih

/-- The master has an alias in a correlated sub-query only. -/
theorem Level.master_eq
    (h : Level registry (.top schema options model joinTypes) around? scope) :
    scope.master = .master scope.model
      (scope.outer.map fun _ => "sq" ++ Text.ofNat scope.depth) := by
  cases h with
  | outermost => rfl
  | inner _ _ hsub => cases hsub <;> rfl

/-- An enclosing row is that of the SELECT directly around. -/
theorem Level.outer_eq {o : Outer}
    (h : Level registry (.top schema options model joinTypes) around? scope)
    (ho : scope.outer = some o) :
    ∃ around, around? = some around ∧ o = ⟨around.model, around.master.reference⟩ := by
  cases h with
  | outermost => cases ho
  | @inner _ around _ _ _ _ _ _ _ hsub =>
    cases hsub with
    | correlated => exact ⟨around, rfl, (Option.some.inj ho).symm⟩
    | named => cases ho

/-- Whatever is joined on a level is well scoped. -/
theorem Level.wellScoped {rs : List Relation}
    (h : Level registry (.top schema options model joinTypes) around? scope)
    (hrs : Join.Grows scope [scope.master] rs) : WellScoped scope.master rs := by
  refine hrs.wellScoped (.singleton ?_)
  rw [h.master_eq]
  rfl

end Facts

/-- The plan has what was joined on a level. -/
def OnLevel (registry : Registry) (top : Scope) (plan : Select) : Prop :=
  ∃ around? scope, Level registry top around? scope ∧
    Join.Grows scope [scope.master] plan.relations ∧ plan.depth = scope.depth ∧
    plan.outer = scope.outer.map (·.reference)

/-- What is gathered on a level was joined there, and the plans are on levels. -/
structure Gathered.OnLevels (registry : Registry) (top scope : Scope) (g : Gathered) : Prop where
  joined : Join.Grows scope [scope.master] g.relations
  nested : ∀ plan ∈ g.nested, OnLevel registry top plan

theorem Step.onLevels {f : Frame} {top : Scope} {around? : Option Scope} {g g' : Gathered}
    (hlevel : Level f.registry top around? f.scope)
    (hn : ∀ scope s t, f.nested scope s = .ok t →
      ∀ around?, Level f.registry top around? scope →
        ∀ plan ∈ t.select :: t.nested, OnLevel f.registry top plan)
    (h : Step f g g') (hg : Gathered.OnLevels f.registry top f.scope g) :
    Gathered.OnLevels f.registry top f.scope g' := by
  cases h with
  | path hp =>
    have hmaster := hg.joined.subset (List.mem_singleton_self f.scope.master)
    exact ⟨hg.joined.trans (Join.resolvePath_grows hmaster hp), hg.nested⟩
  | nested hsub ht _ =>
    refine ⟨hg.joined, ?_⟩
    intro plan hplan
    rcases List.mem_append.mp hplan with hplan | hplan
    · exact hg.nested plan hplan
    · exact hn _ _ _ ht _ (.inner hlevel hg.joined hsub) plan hplan
  | values => exact ⟨hg.joined, hg.nested⟩
  | text => exact ⟨hg.joined, hg.nested⟩
  | call => exact ⟨hg.joined, hg.nested⟩

theorem templateWithin_onLevel {registry : Registry} {top scope : Scope}
    {around? : Option Scope} {n : Nat} {s : Statement} {t : Template}
    (hlevel : Level registry top around? scope)
    (h : templateWithin registry n scope s = .ok t) :
    ∀ plan ∈ t.select :: t.nested, OnLevel registry top plan := by
  refine templateWithin_induction (P := fun scope _ t => ∀ around?,
    Level registry top around? scope →
      ∀ plan ∈ t.select :: t.nested, OnLevel registry top plan) ?_ n h around? hlevel
  intro nested hnested scope s t ht around? hlevel plan hplan
  obtain ⟨g, hrun, hrelations, hgathered⟩ := select_run ht
  have hend : Gathered.OnLevels registry top scope g :=
    hrun.invariant (I := Gathered.OnLevels registry top scope)
      (fun _ _ hstep hg => hstep.onLevels hlevel hnested hg) ⟨.refl _, by simp⟩
  rcases List.mem_cons.mp hplan with rfl | hplan
  · obtain ⟨hdepth, -, houter⟩ := select_place ht
    exact ⟨around?, scope, hlevel, hrelations ▸ hend.joined, hdepth, houter⟩
  · rw [hgathered] at hplan
    exact hend.nested plan hplan

/-- In every state that the compilation of a SELECT can reach, and between the two joins of a
many-to-many field, the relations are well scoped: the master first and without a linkage, the
others linked by a column of their own to an earlier one. Resolving a path keeps what is there, and
the one column that its fragment names is of a relation of the same SELECT, or for `outer.f` of the
master of the SELECT directly around. So the text of every SELECT joins each table on a column of
its own and one of a table before it. -/
theorem template_wellScoped (schema : Schema) (options : Options) (model : Model)
    (joinTypes : Table JoinType) (registry : Registry) :
    (∀ around? scope rs, Level registry (.top schema options model joinTypes) around? scope →
      Join.Grows scope [scope.master] rs →
        (∀ before, before <+: rs → before ≠ [] → WellScoped scope.master before) ∧
        ∀ head rest target rs', Join.resolvePath scope head rest rs = .ok (target, rs') →
          (Join.Grows scope [scope.master] rs' ∧ rs <+: rs') ∧
          (∃ left right, target.sql options.dialect = left ++ target.column.sql ++ right ∧
            Unquoted left ∧ Unquoted right) ∧
          (Join.Within rs' target.column ∨
            ∃ field around, head = "outer" ∧ rest = [field] ∧ around? = some around ∧
              scope.outer = some ⟨around.model, around.master.reference⟩ ∧
              target.column.relation = around.master.reference)) ∧
    ∀ s t, template registry (.top schema options model joinTypes) s = .ok t →
      ∀ plan ∈ t.select :: t.nested,
        OnLevel registry (.top schema options model joinTypes) plan ∧
        ∃ master, WellScoped master plan.relations ∧ JoinedInOrder master plan.relations := by
  refine ⟨?_, ?_⟩
  · intro around? scope rs hlevel hrs
    have hscoped := hlevel.wellScoped hrs
    refine ⟨fun before hbefore hne => hscoped.of_extends hbefore hne, ?_⟩
    intro head rest target rs' hpath
    have hmaster := hrs.subset (List.mem_singleton_self scope.master)
    have hgrows := Join.resolvePath_grows hmaster hpath
    refine ⟨⟨hrs.trans hgrows, hgrows.extends⟩, target.sql_around options.dialect, ?_⟩
    obtain hwithin | ⟨field, o, hhead, hrest, ho, hcolumn⟩ := Join.resolvePath_within hmaster hpath
    · exact .inl hwithin
    · obtain ⟨around, haround, rfl⟩ := hlevel.outer_eq ho
      exact .inr ⟨field, around, hhead, hrest, haround, ho, hcolumn⟩
  · intro s t ht plan hplan
    have hon := templateWithin_onLevel .outermost ht plan hplan
    obtain ⟨around?, scope, hlevel, hjoined, -⟩ := id hon
    have hscoped := hlevel.wellScoped hjoined
    exact ⟨hon, scope.master, hscoped, hscoped.joinedInOrder⟩

def deckStatement : Statement :=
  { select := "as.id as x, subquery('A', 'outer.id as i') as y" }

theorem template_wellScoped_deck :
    ∃ schema model t target rs', Schema.build Sample.shelf = .ok schema ∧
      schema.resolveModel "B" none = .ok model ∧
      template {} (.top schema {} model {}) deckStatement = .ok t ∧
      t.select.relations.length = 3 ∧ t.nested.map (·.outer) = [some "b"] ∧
      Join.resolvePath (.top schema {} model {}) "as" ["id"] [.master model none]
        = .ok (target, rs') ∧
      rs'.length = 3 ∧ Join.Within rs' target.column ∧
      ∀ plan ∈ t.select :: t.nested,
        ∃ master, WellScoped master plan.relations ∧ JoinedInOrder master plan.relations := by
  have h : ((Schema.build Sample.shelf).toOption.bind fun schema =>
      (schema.resolveModel "B" none).toOption.bind fun model =>
      (template {} (.top schema {} model {}) deckStatement).toOption.bind fun t =>
      (Join.resolvePath (.top schema {} model {}) "as" ["id"]
        [.master model none]).toOption.map fun p =>
      (t.select.relations.length, t.nested.map (·.outer), p.2.length))
      = some (3, [some "b"], 3) := by decide +kernel
  simp only [Option.bind_eq_some_iff, Option.map_eq_some_iff, toOption_eq_some_iff,
    Prod.mk.injEq] at h
  obtain ⟨schema, hschema, model, hmodel, t, ht, ⟨target, rs'⟩, hpath, hrelations, houter,
    hlength⟩ := h
  obtain ⟨hstates, hplans⟩ := template_wellScoped schema {} model {} {}
  obtain ⟨-, hpaths⟩ := hstates none _ _ .outermost (.refl _)
  obtain ⟨-, -, hwithin | ⟨_, _, hhead, -⟩⟩ := hpaths _ _ _ _ hpath
  · exact ⟨schema, model, t, target, rs', hschema, hmodel, ht, hrelations, houter, hpath, hlength,
      hwithin, fun plan hplan => (hplans _ t ht plan hplan).2⟩
  · exact absurd hhead (by decide)

end PathQuery.Compile
