import PathQuery.Proofs.Join.Names
import PathQuery.Proofs.Sql.Composed

/-!
Tidy names in joined tables. If the names of the tables and columns of a schema are tidy, so are
those of every relation that is joined and of every column that a path leads to.
-/

namespace PathQuery

theorem tidy_of_isMade (name : String) (h : IsMade name) : Sql.Tidy name :=
  Sql.tidy_of_class (p := Text.isNameChar) (by decide) h

def Schema.Tidy (s : Schema) : Prop :=
  ∀ name ∈ s.sqlNames, Sql.Tidy name

instance (s : Schema) : Decidable s.Tidy :=
  inferInstanceAs (Decidable (∀ name ∈ s.sqlNames, Sql.Tidy name))

def ColumnRef.Tidy (c : ColumnRef) : Prop :=
  Sql.Tidy c.relation ∧ Sql.Tidy c.column

structure Relation.Tidy (r : Relation) : Prop where
  table : Sql.Tidy r.table
  knownAs : ∀ a ∈ r.knownAs, Sql.Tidy a
  linkage : ∀ l ∈ r.linkage, l.source.Tidy ∧ l.target.Tidy

structure Scope.Tidy (s : Scope) : Prop where
  schema : s.schema.Tidy
  model : s.model ∈ s.schema.models
  master : s.master.Tidy
  outer : ∀ o ∈ s.outer, o.model ∈ s.schema.models ∧ Sql.Tidy o.reference

theorem Relation.tidy_iff {r : Relation} : r.Tidy ↔ r.Named Sql.Tidy :=
  ⟨fun h => ⟨h.table, h.knownAs, h.linkage⟩, fun h => ⟨h.table, h.knownAs, h.linkage⟩⟩

theorem Scope.tidy_iff {s : Scope} : s.Tidy ↔ s.Named Sql.Tidy :=
  ⟨fun h => ⟨tidy_of_isMade, h.schema, h.model, Relation.tidy_iff.mp h.master, h.outer⟩,
    fun h => ⟨h.schema, h.model, Relation.tidy_iff.mpr h.master, h.outer⟩⟩

namespace Join

variable {s : Scope} {rs rs' : List Relation}

/-- A path leads to a column with tidy names. -/
theorem resolvePath_tidy {head : String} {rest : List String} {t : PathTarget} (hs : s.Tidy)
    (hmaster : s.master ∈ rs) (hrs : ∀ r ∈ rs, r.Tidy)
    (h : resolvePath s head rest rs = .ok (t, rs')) : t.column.Tidy := by
  simp only [Relation.tidy_iff] at hrs
  exact resolvePath_named (Scope.tidy_iff.mp hs) hmaster hrs h

end Join

theorem Scope.tidy_top {schema : Schema} {m : Model} (hschema : schema.Tidy)
    (hm : m ∈ schema.models) (o : Options) (joinTypes : Table JoinType) :
    (Scope.top schema o m joinTypes).Tidy :=
  Scope.tidy_iff.mpr (Scope.named_top tidy_of_isMade hschema hm o joinTypes)

/-- The scope of a sub-query is as tidy as that of the query around it. -/
theorem Scope.Tidy.below {s : Scope} {rs : List Relation} {m : Model} {correlated : Bool}
    {joinTypes : Table JoinType} {trail : List String} (hs : s.Tidy)
    (hm : m ∈ s.schema.models) :
    (s.below rs m (if correlated then some ⟨s.model, s.master.reference⟩ else none) joinTypes
      trail).Tidy :=
  Scope.tidy_iff.mpr ((Scope.tidy_iff.mp hs).below hm)

end PathQuery
