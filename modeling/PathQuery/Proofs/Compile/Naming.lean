import PathQuery.Proofs.Compile.Levels
import PathQuery.Proofs.Join.References
import PathQuery.Sample.Small

/-!
Names of tables in the result. On every level the references of the joined tables are different as
far as they are tables; an alias is made from a path and may meet another reference, but not in a
schema whose names keep aliases and tables apart.
-/

namespace PathQuery.Compile

open Steps

variable {registry : Registry} {schema : Schema} {options : Options} {model : Model}
  {joinTypes : Table JoinType}

theorem Level.model_mem {around? : Option Scope} {scope : Scope}
    (h : Level registry (.top schema options model joinTypes) around? scope)
    (hmodel : model ∈ schema.models) : scope.model ∈ schema.models := by
  cases h with
  | outermost => exact hmodel
  | inner h _ hsub =>
    rw [← h.schema_eq]
    cases hsub with
    | correlated hm => exact (Schema.resolveModel_mem hm).1
    | named _ hm => exact (Schema.resolveModel_mem hm).1

theorem Level.depth_ne_zero {around? : Option Scope} {scope : Scope}
    (h : Level registry (.top schema options model joinTypes) around? scope)
    (ho : scope.outer.isSome) : scope.depth ≠ 0 := by
  cases h with
  | outermost => cases ho
  | inner _ _ hsub => cases hsub <;> exact Nat.succ_ne_zero _

theorem Level.based {around? : Option Scope} {scope : Scope}
    (h : Level registry (.top schema options model joinTypes) around? scope)
    (hmodel : model ∈ schema.models) (hunmixed : schema.Unmixed) : Join.Based scope where
  unmixed := by
    rw [h.schema_eq]
    exact hunmixed
  master := h.master_eq
  model := by
    rw [h.schema_eq]
    exact h.model_mem hmodel
  depth := h.depth_ne_zero

/-- In every SELECT of the result, the aliases are those of sub-queries and those made from paths,
and references are different if and only if no alias meets another one. In an unmixed schema they
always are. -/
theorem template_references {s : Statement} {t : Template} (hmodel : model ∈ schema.models)
    (h : template registry (.top schema options model joinTypes) s = .ok t) :
    ∀ plan ∈ t.select :: t.nested,
      (∀ r ∈ plan.relations, ∀ a, r.knownAs = some a →
        (a = "sq" ++ Text.ofNat plan.depth ∧ plan.outer.isSome ∧ plan.relations.head? = some r) ∨
          a = Join.aliasText plan.depth r.path) ∧
      ((plan.relations.map (·.reference)).Nodup ↔
        plan.relations.Pairwise fun a b => ¬ a.Meets b) ∧
      (schema.Unmixed → (plan.relations.map (·.reference)).Nodup) := by
  intro plan hplan
  obtain ⟨around?, scope, hlevel, hjoined, hdepth, houter⟩ :=
    templateWithin_onLevel .outermost h plan hplan
  have hreferenced := hjoined.referenced (Join.referenced_singleton scope)
  refine ⟨?_, hreferenced.nodup_iff, ?_⟩
  · intro r hr a ha
    rw [hdepth, houter]
    obtain rfl | halias := hreferenced.aliased r hr (by rw [ha]; rfl)
    · left
      have hmaster := ha
      rw [hlevel.master_eq] at hmaster
      obtain ⟨o, ho, rfl⟩ := Option.map_eq_some_iff.mp hmaster
      refine ⟨rfl, by rw [ho]; rfl, ?_⟩
      rw [List.head?_eq_getElem?, (hlevel.wellScoped hjoined).first]
    · rw [ha, Option.some.injEq] at halias
      exact .inr halias
  · intro hunmixed
    exact hreferenced.nodup_iff.mpr (hjoined.not_meets (hlevel.based hmodel hunmixed))

def treeStatement : Statement :=
  { select := "parent.id as x, kids.id as y, subquery('N', 'parent.id as i') as z" }

theorem template_references_tree :
    ∃ schema model t, Schema.build (Sample.looped "node" "parent" "kids") = .ok schema ∧
      schema.Unmixed ∧
      model ∈ schema.models ∧
      template {} (.top schema {} model {}) treeStatement = .ok t ∧
      (t.select :: t.nested).map (fun plan => plan.relations.map (·.reference))
        = [["node", "parent", "kids"], ["sq1", "sq1_parent"]] ∧
      ∀ plan ∈ t.select :: t.nested, (plan.relations.map (·.reference)).Nodup := by
  have h : ((Schema.build (Sample.looped "node" "parent" "kids")).toOption.bind fun schema =>
      (schema.resolveModel "N" none).toOption.bind fun model =>
      (template {} (.top schema {} model {}) treeStatement).toOption.map fun t =>
      decide ((∀ name ∈ schema.linkNames, name ≠ "" ∧ Text.Word name) ∧
        (∀ table ∈ schema.linkTables, Text.Word table) ∧
        (∀ table ∈ schema.tables, table ∉ schema.linkNames ∧ ¬ ['_', '_'] <:+: table.toList ∧
          Join.isLevelName table = false) ∧
        (t.select :: t.nested).map (fun plan => plan.relations.map (·.reference))
          = [["node", "parent", "kids"], ["sq1", "sq1_parent"]])) = some true := by decide +kernel
  simp only [Option.bind_eq_some_iff, Option.map_eq_some_iff, toOption_eq_some_iff,
    decide_eq_true_eq] at h
  obtain ⟨schema, hschema, model, hmodel, t, ht, hnames, hlinks, htables, hreferences⟩ := h
  have hunmixed : schema.Unmixed := ⟨hnames, hlinks, htables⟩
  have hmem := (Schema.resolveModel_mem hmodel).1
  exact ⟨schema, model, t, hschema, hunmixed, hmem, ht, hreferences,
    fun plan hplan => (template_references hmem ht plan hplan).2.2 hunmixed⟩

end PathQuery.Compile
