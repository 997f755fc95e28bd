import PathQuery.Proofs.Column.Derived
import PathQuery.Proofs.Compile.Bindable
import PathQuery.Proofs.Expr.RoundTrip
import PathQuery.Proofs.Join.Terminal
import PathQuery.Proofs.Schema.Labels
import PathQuery.Proofs.Template.InTurn

/-!
Selecting a star. The names of the concrete fields are read as a column list, so each field gets an
alias that is made from its name. Where these aliases are pairwise different, the statement has one
column of the master for each concrete field, in the order of the model, and joins nothing; where
they are not, it is refused.
-/

namespace PathQuery

/-- The columns that a star stands for. -/
def Model.starColumns (m : Model) : List Column :=
  Column.derived 0 (m.concreteFields.map (·.name))

def Model.starAliases (m : Model) : List String :=
  m.starColumns.map (·.name)

theorem Model.field?_of_mem {m : Model} {f : Field} (h : (m.fields.map (·.name)).Nodup)
    (hf : f ∈ m.fields) : m.field? f.name = some f :=
  Lists.find?_of_nodup h hf

theorem Expr.parse_name {name : String} (h : IsName name) : parse name = .ok (.path name []) := by
  have hreads := readsBack_path h (List.forall_mem_nil _)
  have hchars : chars (.path name []) = name.toList := by simp [chars]
  have hread := hreads.exprAt (Nat.lt_succ_self _) after_nil
  rw [List.append_nil, hchars] at hread
  have htrim : Text.trimChars name.toList = name.toList := by
    rw [← hchars, hreads.solid.trimChars]
  simp [parse, htrim, expression, hread, Text.trimStart]

namespace Compile

open Placeholder

variable {f : Frame} {m : Model} {field : Field} {fields : List Field} {scope : Scope}

theorem selectSource_star {select : String} (h : Text.trim select = "" ∨ Text.trim select = "*") :
    selectSource m select = Text.join ", " (m.concreteFields.map (·.name)) := by
  rw [selectSource]
  exact if_pos (by simpa using h)

/-- The fragment of a field with a column of its own in the table instance `r`. -/
def fieldFragment (r : Relation) (field : Field) : Fragment :=
  ⟨.path field.name [], (r.column field.columnName).sql, true⟩

/-- The field is found by its name in the model, and the name can be read. -/
structure Selectable (m : Model) (field : Field) : Prop where
  name : Expr.IsName field.name
  found : m.field? field.name = some field
  concrete : field.isConcrete

theorem fragment_field (hm : Join.modelOf f.scope f.scope.master = .ok m) (h : Selectable m field)
    (g : Gathered) :
    fragment f (.path field.name []) g =
      .ok (fieldFragment f.scope.master field, { g with fieldReads := g.fieldReads + 1 }) := by
  have hlast := Join.lastField_of_field? h.found
  have hpath := Join.resolvePath_concrete hm hlast h.concrete g.relations
  simp [fragment, expr, path, hpath, fieldFragment, PathTarget.sql]

theorem column_field (hm : Join.modelOf f.scope f.scope.master = .ok m) (h : Selectable m field)
    (count : Nat) (g : Gathered) :
    column f (.ofName count field.name) g =
      .ok ((fieldFragment f.scope.master field, Column.derivedAlias count field.name),
        { g with fieldReads := g.fieldReads + 1 }) := by
  simp [column, Column.ofName]
  exact ⟨_, Expr.parse_name h.name, fragment_field hm h g⟩

/-- The output columns of fields that come after `count` others. -/
def fieldColumns (r : Relation) (count : Nat) : List Field → List (Fragment × String)
  | [] => []
  | field :: fields =>
    (fieldFragment r field, Column.derivedAlias count field.name) ::
      fieldColumns r (count + 1) fields

theorem columns_fields (hm : Join.modelOf f.scope f.scope.master = .ok m)
    (h : ∀ field ∈ fields, Selectable m field) (count : Nat) (g : Gathered) :
    columns f (Column.derived count (fields.map (·.name))) g =
      .ok (fieldColumns f.scope.master count fields,
        { g with fieldReads := g.fieldReads + fields.length }) := by
  induction fields generalizing count g with
  | nil => rfl
  | cons field fields ih =>
    rw [List.forall_mem_cons] at h
    have hrest := ih h.2 (count + 1) { g with fieldReads := g.fieldReads + 1 }
    rw [Nat.add_assoc, Nat.add_comm 1] at hrest
    simp [Column.derived, columns, fieldColumns]
    exact ⟨_, column_field hm h.1 count g, hrest⟩

theorem map_sql_fieldColumns (r : Relation) (count : Nat) (fields : List Field) :
    (fieldColumns r count fields).map (·.1.sql) =
      fields.map fun field => (r.column field.columnName).sql := by
  induction fields generalizing count with
  | nil => rfl
  | cons field fields ih => simp [fieldColumns, fieldFragment, ih]

theorem map_alias_fieldColumns (r : Relation) (count : Nat) (fields : List Field) :
    (fieldColumns r count fields).map (·.2) =
      (Column.derived count (fields.map (·.name))).map (·.name) := by
  induction fields generalizing count with
  | nil => rfl
  | cons field fields ih => simp [fieldColumns, Column.derived, Column.ofName, ih]

/-- The plan of a star. -/
def starSelect (scope : Scope) (s : Statement) : Select where
  depth := scope.depth
  trail := scope.trail
  outer := scope.outer.map (·.reference)
  columns := fieldColumns scope.master 0 scope.model.concreteFields
  relations := [scope.master]
  filter := none
  orderBy := []
  aggregated := false
  distinct := s.distinct
  limit := s.limit
  offset := s.offset

/-- A star or nothing is selected, without a filter and an order. -/
structure IsStar (s : Statement) : Prop where
  select : Text.trim s.select = "" ∨ Text.trim s.select = "*"
  filter : s.filter = none
  orderBy : s.orderBy = none

variable {s : Statement}

/-- In any scope, also that of a sub-query, a star is planned if its aliases are pairwise
different. -/
theorem select_star (scope : Scope) (hs : IsStar s)
    (hm : Join.modelOf scope scope.master = .ok scope.model)
    (hne : scope.model.concreteFields ≠ [])
    (h : ∀ field ∈ scope.model.concreteFields, Selectable scope.model field)
    (hnodup : scope.model.starAliases.Nodup) (registry : Registry) (nested : Nested) :
    select registry nested scope s =
      .ok ⟨(starSelect scope s).render scope.options.dialect, [], scope.model.starColumns,
        starSelect scope s, []⟩ := by
  have hparse := (Column.parseList_names (by simpa using hne)
    (List.forall_mem_map.mpr fun field hfield => (h field hfield).name)).1 hnodup
  have hcolumns := columns_fields (f := ⟨scope, registry, nested⟩) hm h 0
    { relations := [scope.master] }
  have hplan : plan ⟨scope, registry, nested⟩ s scope.model.starColumns
      { relations := [scope.master] } =
        .ok (starSelect scope s,
          { relations := [scope.master], fieldReads := scope.model.concreteFields.length }) := by
    rw [Nat.zero_add] at hcolumns
    simp [plan, hs.filter, hs.orderBy, filter, orderBy]
    exact ⟨_, hcolumns, rfl⟩
  have hsome : scope.model.starColumns ≠ [] := by
    obtain ⟨field, fields, hcons⟩ := List.exists_cons_of_ne_nil hne
    simp [Model.starColumns, hcons, Column.derived]
  obtain ⟨c, cs, hcs⟩ := List.exists_cons_of_ne_nil hsome
  change _ = Except.ok scope.model.starColumns at hparse
  rw [hcs] at hparse hplan ⊢
  unfold select
  rw [selectSource_star hs.select, hparse]
  dsimp only
  rw [hplan]

theorem select_star_repeated (scope : Scope) (hs : IsStar s)
    (hne : scope.model.concreteFields ≠ [])
    (h : ∀ field ∈ scope.model.concreteFields, Expr.IsName field.name)
    (hdup : ¬ scope.model.starAliases.Nodup) (registry : Registry) (nested : Nested) :
    ∃ a, 1 < scope.model.starAliases.count a ∧
      select registry nested scope s = .error (.duplicateAlias a) := by
  obtain ⟨a, hcount, hparse⟩ := (Column.parseList_names (by simpa using hne)
    (List.forall_mem_map.mpr h)).2 hdup
  refine ⟨a, hcount, ?_⟩
  unfold select
  rw [selectSource_star hs.select, hparse]

/-! ### The text -/

/-- The statement that a star comes to on a query that stands alone. -/
def starSql (m : Model) (s : Statement) : String :=
  "SELECT " ++ (if s.distinct then "DISTINCT " else "") ++
    Text.join ", " (List.zipWith (fun field name =>
      (ColumnRef.mk m.table field.columnName).sql ++ " AS " ++ Text.quoteIdent name)
      m.concreteFields m.starAliases) ++
    " FROM " ++ Text.quoteIdent m.table ++
    Select.bound " LIMIT " s.limit ++ Select.bound " OFFSET " s.offset

theorem map_columnSql_fieldColumns (r : Relation) (count : Nat) (fields : List Field) :
    (fieldColumns r count fields).map Select.columnSql =
      List.zipWith (fun field name =>
        (r.column field.columnName).sql ++ " AS " ++ Text.quoteIdent name) fields
        ((Column.derived count (fields.map (·.name))).map (·.name)) := by
  induction fields generalizing count with
  | nil => rfl
  | cons field fields ih =>
    simp [fieldColumns, fieldFragment, Column.derived, Column.ofName, Select.columnSql, ih]

theorem render_starSelect (schema : Schema) (options : Options) (m : Model)
    (joinTypes : Table JoinType) (s : Statement) (d : Dialect) :
    (starSelect (.top schema options m joinTypes) s).render d = starSql m s := by
  have hcolumns := map_columnSql_fieldColumns (.master m none) 0 m.concreteFields
  simp only [Select.render, starSelect, Scope.top, hcolumns]
  simp [starSql, Model.starAliases, Model.starColumns, Select.fromSql, Relation.tableSql,
    Relation.master, Relation.column, Relation.reference, Select.filterSql, Select.groupBy,
    Select.clause, String.append_assoc]
  rfl

/-- A star brings no names in braces, unless the table or a column has one. -/
theorem namesIn_starSelect (d : Dialect) (hmaster : scope.master.Named Unbraced)
    (hcolumns : ∀ field ∈ scope.model.concreteFields, Unbraced field.columnName)
    (htidy : ∀ c ∈ scope.model.starColumns, Sql.Tidy c.name) :
    namesIn ((starSelect scope s).render d).toList = [] := by
  have hnames : ∀ c ∈ (starSelect scope s).columns, Sql.Tidy c.2 := by
    have hmap := map_alias_fieldColumns scope.master 0 scope.model.concreteFields
    rw [← List.forall_mem_map (P := Sql.Tidy), starSelect, hmap]
    exact List.forall_mem_map.mpr htidy
  have hparts : ∀ p ∈ (starSelect scope s).parts, AllNamed (fun _ => False) p.sql.toList := by
    have hsql : ∀ c ∈ (starSelect scope s).columns, Unbraced c.1.sql := by
      have hmap := map_sql_fieldColumns scope.master 0 scope.model.concreteFields
      rw [← List.forall_mem_map (P := Unbraced), starSelect, hmap]
      refine List.forall_mem_map.mpr fun field hfield => ?_
      exact (hmaster.column (hcolumns field hfield)).spelled spelled_unbraced
    simp only [Select.parts, starSelect, Option.toList_none, List.append_nil, List.map_nil]
    exact List.forall_mem_map.mpr fun c hc => allNamed_of_not_mem (hsql c hc)
  have hfrom :
      AllNamed (fun _ => False) (Select.fromSql (starSelect scope s).relations).toList := by
    have htables : ∀ r ∈ (starSelect scope s).relations, r.Named Unbraced := by
      simpa [starSelect] using hmaster
    exact allNamed_of_not_mem (Select.fromSql_spelled spelled_unbraced htables)
  have hall := render_keeps (weaves_allNamed _) d hnames hparts hfrom
  exact List.eq_nil_iff_forall_not_mem.mpr hall

/-! ### Queries that stand alone -/

section Top

variable {schema : Schema}

theorem template_star (hs : IsStar s) (hget : schema.get? m.label = some m)
    (hne : m.concreteFields ≠ []) (h : ∀ field ∈ m.concreteFields, Selectable m field)
    (hnodup : m.starAliases.Nodup) (registry : Registry) (options : Options)
    (joinTypes : Table JoinType) :
    template registry (.top schema options m joinTypes) s =
      .ok ⟨starSql m s, [], m.starColumns, starSelect (.top schema options m joinTypes) s, []⟩ := by
  have hm : Join.modelOf (.top schema options m joinTypes) (.master m none) = .ok m := by
    simp [Join.modelOf, Scope.top, Relation.master, hget]
  rw [← render_starSelect schema options m joinTypes s options.dialect]
  exact select_star (.top schema options m joinTypes) hs hm hne h hnodup registry
    (templateWithin registry 7)

theorem template_star_repeated (hs : IsStar s) (hne : m.concreteFields ≠ [])
    (hnames : ∀ field ∈ m.concreteFields, Expr.IsName field.name) (hdup : ¬ m.starAliases.Nodup)
    (registry : Registry) (schema : Schema) (options : Options) (joinTypes : Table JoinType) :
    ∃ a, 1 < m.starAliases.count a ∧
      template registry (.top schema options m joinTypes) s = .error (.duplicateAlias a) :=
  select_star_repeated (.top schema options m joinTypes) hs hne hnames hdup registry
    (templateWithin registry 7)

theorem namesIn_starSql (hne : m.concreteFields ≠ [])
    (hnames : ∀ field ∈ m.concreteFields, Expr.IsName field.name) (hnodup : m.starAliases.Nodup)
    (htable : Unbraced m.table) (hcolumns : ∀ field ∈ m.concreteFields, Unbraced field.columnName) :
    namesIn (starSql m s).toList = [] := by
  have hparse := (Column.parseList_names (by simpa using hne)
    (List.forall_mem_map.mpr hnames)).1 hnodup
  have hmaster : (Relation.master m none).Named Unbraced :=
    ⟨htable, by simp [Relation.master], by simp [Relation.master]⟩
  rw [← render_starSelect default default m {} s .generic]
  exact namesIn_starSelect .generic hmaster hcolumns (Column.parseList_tidy hparse)

theorem starAliases_nodup (hdistinct : (m.fields.map (·.name)).Nodup)
    (hnames : ∀ field ∈ m.concreteFields, Expr.IsName field.name)
    (hown : ∀ field ∈ m.concreteFields, Column.IsOwnAlias field.name) : m.starAliases.Nodup := by
  have hsame : m.starAliases = m.concreteFields.map (·.name) :=
    Column.map_name_derived
      (List.forall_mem_map.mpr fun field hfield => ⟨hown field hfield, (hnames field hfield).1⟩) 0
  rw [hsame]
  exact hdistinct.sublist (List.filter_sublist.map _)

end Top

end Compile

open Compile

/-- Selecting a star on a model of a schema, whose concrete fields have names that can be read. The
statement is compiled exactly if the aliases that are made from the names are pairwise different
and each name in braces in its text has a value. It then reads one column of the master for each
concrete field, in their order, and no other relation; without braces in the table and its columns
its text is the one of the plan. Otherwise an alias that is there twice is refused. Names in small
letters without underscores at their ends are their own aliases, and so pairwise different. -/
theorem compile_star {models : List Model} {schema : Schema} {m : Model}
    (hschema : Schema.build models = .ok schema) (hm : m ∈ schema.models)
    (hne : m.concreteFields ≠ []) (hdistinct : (m.fields.map (·.name)).Nodup)
    (hnames : ∀ field ∈ m.concreteFields, Expr.IsName field.name) (registry : Registry)
    (options : Options) (joinTypes : Table JoinType) (context : Context) {s : Statement}
    (hs : IsStar s) :
    (m.starAliases.Nodup → ∃ t, template registry (.top schema options m joinTypes) s = .ok t ∧
      t.sql = starSql m s ∧ t.select.relations = [.master m none] ∧
      t.select.columns.map (·.1.sql) =
        m.concreteFields.map (fun field => (ColumnRef.mk m.table field.columnName).sql) ∧
      t.select.columns.map (·.2) = m.starAliases) ∧
    ((∃ c, compile registry (.top schema options m joinTypes) context s = .ok c) ↔
      m.starAliases.Nodup ∧
        ∀ name ∈ Sql.tokenNames (starSql m s), ∃ v, Template.valueOf? [] context name = some v) ∧
    (m.starAliases.Nodup → Unbraced m.table →
      (∀ field ∈ m.concreteFields, Unbraced field.columnName) →
        compile registry (.top schema options m joinTypes) context s =
          .ok ⟨starSql m s, [], m.starColumns, 1⟩) ∧
    (¬ m.starAliases.Nodup → ∃ a, 1 < m.starAliases.count a ∧
      compile registry (.top schema options m joinTypes) context s = .error (.duplicateAlias a)) ∧
    ((∀ field ∈ m.concreteFields, Column.IsOwnAlias field.name) → m.starAliases.Nodup) := by
  have hget := (Schema.build_distinct hschema).get?_eq hm
  have hfields : ∀ field ∈ m.concreteFields, Selectable m field := by
    intro field hfield
    obtain ⟨hmem, hconcrete⟩ := List.mem_filter.mp hfield
    exact ⟨hnames field hfield, m.field?_of_mem hdistinct hmem, hconcrete⟩
  have hok (hnodup : m.starAliases.Nodup) :=
    template_star hs hget hne hfields hnodup registry options joinTypes
  have hrepeated (hdup : ¬ m.starAliases.Nodup) : ∃ a, 1 < m.starAliases.count a ∧
      compile registry (.top schema options m joinTypes) context s =
        .error (.duplicateAlias a) := by
    obtain ⟨a, hcount, herror⟩ :=
      template_star_repeated hs hne hnames hdup registry schema options joinTypes
    refine ⟨a, hcount, ?_⟩
    unfold compile
    rw [herror]
  have hbind (hnodup : m.starAliases.Nodup) :
      compile registry (.top schema options m joinTypes) context s =
        Template.bind ⟨starSql m s, [], m.starColumns,
          starSelect (.top schema options m joinTypes) s, []⟩ options.dialect context := by
    unfold compile
    rw [hok hnodup]
    rfl
  refine ⟨fun hnodup => ?_, ⟨?_, ?_⟩, fun hnodup htable hcolumns => ?_, hrepeated,
    starAliases_nodup hdistinct hnames⟩
  · refine ⟨_, hok hnodup, ?_⟩
    exact ⟨rfl, rfl, map_sql_fieldColumns (.master m none) 0 m.concreteFields,
      map_alias_fieldColumns (.master m none) 0 m.concreteFields⟩
  · rintro ⟨c, hc⟩
    by_cases hnodup : m.starAliases.Nodup
    · rw [hbind hnodup] at hc
      have hvalues := Template.bind_ok_iff_values.mp ⟨c, hc⟩
      exact ⟨hnodup, hvalues⟩
    · obtain ⟨a, -, herror⟩ := hrepeated hnodup
      rw [herror] at hc
      cases hc
  · rintro ⟨hnodup, hvalues⟩
    rw [hbind hnodup]
    rw [Template.bind_ok_iff_values]
    exact hvalues
  · have hnone := namesIn_starSql (s := s) hne hnames hnodup htable hcolumns
    rw [hbind hnodup, Template.bind_of_namesIn]
    · rfl
    · exact hnone

/-- Accounts, and holders with two names that differ only in case. -/
def accountModels : List Model :=
  [⟨"s", "Account", "account", [.key "id", .foreignKey "holder" "Holder"]⟩,
   ⟨"s", "Holder", "holder", [.key "id", { name := "ID", type := .integer }]⟩]

def accountSql : String :=
  "SELECT \"account\".\"id\" AS \"id\", \"account\".\"holder_id\" AS \"holder\" FROM \"account\""

/-- The accounts are selected with the column of their link, and the holders are refused. -/
theorem compile_star_accounts :
    ∃ schema account holder, Schema.build accountModels = .ok schema ∧ account ∈ schema.models ∧
      holder ∈ schema.models ∧
      compile {} (.top schema {} account {}) {} { select := " * " } =
        .ok ⟨accountSql, [], [⟨"id", "id"⟩, ⟨"holder", "holder"⟩], 1⟩ ∧
      compile {} (.top schema {} holder {}) {} { select := "" } =
        .error (.duplicateAlias "id") := by
  have h : ((Schema.build accountModels).toOption.bind fun schema =>
      (schema.resolveModel "Account" none).toOption.bind fun account =>
        (schema.resolveModel "Holder" none).toOption.map fun holder =>
          [account.concreteFields.map (·.name), account.fields.map (·.name),
            account.concreteFields.map (·.columnName),
            [account.table, starSql account { select := " * " }],
            holder.concreteFields.map (·.name), holder.fields.map (·.name)]) =
      some [["id", "holder"], ["id", "holder"], ["id", "holder_id"],
        ["account", accountSql], ["id", "ID"], ["id", "ID", "account"]] := by
    decide +kernel
  simp only [Option.bind_eq_some_iff, Option.map_eq_some_iff, Steps.toOption_eq_some_iff,
    List.cons.injEq, and_true] at h
  obtain ⟨schema, hschema, account, haccount, holder, hholder, hnames, hall, hcolumns,
    ⟨htable, hsql⟩, hnames', hall'⟩ := h
  have isName : ∀ n ∈ ["id", "holder", "ID"], Expr.IsName n := by
    unfold Expr.IsName
    decide +kernel
  have hread (m : Model) (h : m.concreteFields.map (·.name) ⊆ ["id", "holder", "ID"]) :
      ∀ field ∈ m.concreteFields, Expr.IsName field.name :=
    fun field hfield => isName _ (h (List.mem_map_of_mem hfield))
  have haliases (m : Model) : m.starAliases =
      (Column.derived 0 (m.concreteFields.map (·.name))).map (·.name) := rfl
  have hunbraced : ∀ n ∈ ["id", "holder_id"], Unbraced n := by
    unfold Unbraced
    decide +kernel
  have hstar : IsStar { select := " * " } := ⟨.inr (by decide +kernel), rfl, rfl⟩
  have hnothing : IsStar { select := "" } := ⟨.inl (by decide +kernel), rfl, rfl⟩
  obtain ⟨-, -, hok, -, -⟩ := compile_star hschema (Schema.resolveModel_mem haccount).1
    (fun hnil => by simp [hnil] at hnames) (by rw [hall]; decide)
    (hread account (by rw [hnames]; decide)) {} {} {} {} hstar
  obtain ⟨-, -, -, hrepeated, -⟩ := compile_star hschema (Schema.resolveModel_mem hholder).1
    (fun hnil => by simp [hnil] at hnames') (by rw [hall']; decide)
    (hread holder (by rw [hnames']; decide)) {} {} {} {} hnothing
  have hcolumnNames : ∀ field ∈ account.concreteFields, Unbraced field.columnName := by
    intro field hfield
    exact hunbraced _ (hcolumns ▸ List.mem_map_of_mem hfield)
  refine ⟨schema, account, holder, hschema, (Schema.resolveModel_mem haccount).1,
    (Schema.resolveModel_mem hholder).1, ?_, ?_⟩
  · have hsome := hok (by rw [haliases, hnames]; decide +kernel)
      (by rw [htable]; unfold Unbraced; decide +kernel) hcolumnNames
    have hderived : account.starColumns = [⟨"id", "id"⟩, ⟨"holder", "holder"⟩] := by
      rw [Model.starColumns, hnames]
      decide +kernel
    rw [hsome, hsql, hderived]
  · have htwice : holder.starAliases = ["id", "id"] := by
      rw [haliases, hnames']
      decide +kernel
    rw [htwice] at hrepeated
    obtain ⟨a, hcount, herror⟩ := hrepeated (by decide)
    have ha : a ∈ ["id", "id"] := List.count_pos_iff.mp (by omega)
    obtain rfl : a = "id" := by simpa using ha
    exact herror

end PathQuery
