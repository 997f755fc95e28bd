import PathQuery.Proofs.Compile.Correlation
import PathQuery.Proofs.Join.Terminal

/-!
Fields of the enclosing row. In a correlated sub-query `outer.f` is the column that `f` is in the
query around it, for every field with a column of its own, whatever the level, the alias of the row
and the relations joined on either side. Only `pk` is not known there by that name.
-/

namespace PathQuery.Compile

open Steps

variable {scope : Scope} {m : Model} {field : Field} {name sql : String} {o : Outer}

/-- Whatever is gathered already, the path compiles to the text and joins nothing. -/
def ReadsAs (scope : Scope) (head : String) (rest : List String) (sql : String) : Prop :=
  ∀ registry nested g, path ⟨scope, registry, nested⟩ head rest g =
    .ok (sql, { g with fieldReads := g.fieldReads + 1 })

/-- Whatever is gathered already, the path fails. -/
def Refuses (scope : Scope) (head : String) (rest : List String) : Prop :=
  ∀ registry nested g, ∃ e, path ⟨scope, registry, nested⟩ head rest g = .error e

/-- The name is a column of the master: compiled while nothing else is there, it joins nothing. -/
def IsMasterColumn (scope : Scope) (name sql : String) : Prop :=
  ∃ registry nested g,
    path ⟨scope, registry, nested⟩ name [] { relations := [scope.master] } = .ok (sql, g) ∧
      g.relations = [scope.master]

theorem ReadsAs.unique {head other : String} {rest : List String} (h : ReadsAs scope head rest sql)
    (h' : ReadsAs scope head rest other) : sql = other := by
  have hsame := (h default (fun _ _ => .error .emptyColumns) ⟨[], false, [], 0, []⟩).symm.trans
    (h' _ _ _)
  simpa using hsame

theorem Refuses.not_readsAs {head : String} {rest : List String} (h : Refuses scope head rest) :
    ¬ ReadsAs scope head rest sql := by
  intro hreads
  obtain ⟨e, he⟩ := h default (fun _ _ => .error .emptyColumns) ⟨[], false, [], 0, []⟩
  rw [hreads] at he
  cases he

theorem readsAs_of_resolvePath {head : String} {rest : List String} {c : ColumnRef}
    (h : ∀ rs, Join.resolvePath scope head rest rs = .ok (⟨c, none⟩, rs)) :
    ReadsAs scope head rest c.sql := by
  intro registry nested g
  simp only [path, h]
  rfl

theorem readsAs_master (hm : Join.modelOf scope scope.master = .ok m)
    (hf : Join.lastField m name = .ok field) (hc : field.isConcrete) :
    ReadsAs scope name [] (scope.master.column field.columnName).sql :=
  readsAs_of_resolvePath (Join.resolvePath_concrete hm hf hc)

theorem resolvePath_outerColumn (ho : scope.outer = some o) (name : String) (rs : List Relation) :
    Join.resolvePath scope "outer" [name] rs = Join.lift (Join.outerColumn o name) rs := by
  have hof : Join.outerOf scope "outer" = some o := ho
  simp only [Join.resolvePath, hof]

theorem readsAs_outer (ho : scope.outer = some o) (hf : o.model.field? name = some field)
    (hc : field.isConcrete) :
    ReadsAs scope "outer" [name] (ColumnRef.mk o.reference field.columnName).sql := by
  refine readsAs_of_resolvePath fun rs => ?_
  rw [resolvePath_outerColumn ho, Join.lift_ok_iff]
  exact ⟨Join.outerColumn_ok_iff.mpr ⟨field, hf, hc, rfl⟩, rfl⟩

theorem refuses_outer (ho : scope.outer = some o)
    (h : ∀ field, o.model.field? name = some field → field.isConcrete = false) :
    Refuses scope "outer" [name] := by
  intro registry nested g
  cases hcolumn : Join.outerColumn o name with
  | error e => exact ⟨e, by simp [path, resolvePath_outerColumn ho, Join.lift, hcolumn]⟩
  | ok t =>
    obtain ⟨field, hf, hc, -⟩ := Join.outerColumn_ok_iff.mp hcolumn
    rw [h field hf] at hc
    cases hc

/-- A name that is a column of the master is a field with a column of its own. -/
theorem IsMasterColumn.exists_field (h : IsMasterColumn scope name sql)
    (hm : Join.modelOf scope scope.master = .ok m) (hpath : scope.master.path = "")
    (hname : name ≠ "") (hk : ¬ Join.IsKeyword m name) :
    ∃ field, m.field? name = some field ∧ field.isConcrete ∧
      sql = (scope.master.column field.columnName).sql := by
  obtain ⟨registry, nested, g, h, halone⟩ := h
  simp only [path, Join.resolvePath_single] at h
  split at h
  · next t rs ht =>
    cases h
    simp at ht
    obtain ⟨c, hterminal, rfl⟩ := ht
    obtain rfl : rs = [scope.master] := halone
    obtain ⟨_, field, hm', hlast, hends⟩ := Join.terminal_ends hterminal
    obtain rfl := Except.ok.inj (hm.symm.trans hm')
    have hf : m.field? name = some field := by
      rwa [Join.lastField_eq hk, Join.resolveField_ok_iff] at hlast
    have hfield := Join.field?_name hf
    cases hends with
    | own hc => exact ⟨field, hf, hc, rfl⟩
    | reverse _ _ _ hj => exact absurd rfl (hj.ne_singleton hpath (hfield ▸ hname))
    | bridge _ _ hj => exact absurd rfl (hj.ne_singleton hpath (hfield ▸ hname))
  · cases h

theorem ReadsAs.isMasterColumn (h : ReadsAs scope name [] sql) : IsMasterColumn scope name sql :=
  ⟨default, fun _ _ => .error .emptyColumns, _, h _ _ _, rfl⟩

theorem Level.modelOf_master {models : List Model} {schema : Schema} {model : Model}
    {options : Options} {joinTypes : Table JoinType} {registry : Registry} {around? : Option Scope}
    (hschema : Schema.build models = .ok schema) (hmodel : model ∈ schema.models)
    (h : Level registry (.top schema options model joinTypes) around? scope) :
    Join.modelOf scope scope.master = .ok scope.model := by
  have hget := (Schema.build_distinct hschema).get?_eq (h.model_mem hmodel)
  simp [Join.modelOf, h.master_eq, h.schema_eq, Relation.master, hget]

/-- In every correlated sub-query, at any level and in any state of it, `outer.f` compiles to a text
exactly if `f` is a column of the master of the query around it with that text, and is not `pk` for
the key; `f` is then that text in every state there. Otherwise `outer.f` fails, and so it does if
`f` fails there in any state. A key with a column of its own is `pk` in the query around, so that
name is the exception. -/
theorem outer_readsAs_iff {models : List Model} {schema : Schema} {model : Model}
    (hschema : Schema.build models = .ok schema) (hmodel : model ∈ schema.models)
    (registry : Registry) (options : Options) (joinTypes : Table JoinType) {around scope : Scope}
    (hlevel : Level registry (.top schema options model joinTypes) (some around) scope)
    (houter : scope.outer.isSome) {name : String} (hname : name ≠ "") :
    (∀ sql, ReadsAs scope "outer" [name] sql ↔
      IsMasterColumn around name sql ∧ ¬ Join.IsKeyword around.model name) ∧
    (∀ sql, ReadsAs scope "outer" [name] sql → ReadsAs around name [] sql) ∧
    ((∀ sql, ¬ ReadsAs scope "outer" [name] sql) → Refuses scope "outer" [name]) ∧
    (∀ registry nested g e, path ⟨around, registry, nested⟩ name [] g = .error e →
      Refuses scope "outer" [name]) ∧
    (Join.IsKeyword around.model name → ∀ key, around.model.key? = some key → key.isConcrete →
      ReadsAs around name [] (around.master.column key.columnName).sql) := by
  obtain ⟨o, ho⟩ := Option.isSome_iff_exists.mp houter
  obtain ⟨_, hsame, rfl⟩ := hlevel.outer_eq ho
  obtain rfl := Option.some.inj hsame
  obtain ⟨⟨around?, haround⟩, -⟩ := hlevel.inner_facts
  have hm := haround.modelOf_master hschema hmodel
  have hpath : around.master.path = "" := by
    rw [haround.master_eq]
    rfl
  have reads {field : Field} (hf : around.model.field? name = some field) (hc : field.isConcrete) :
      ReadsAs around name [] (around.master.column field.columnName).sql ∧
        ReadsAs scope "outer" [name] (around.master.column field.columnName).sql := by
    have hinner := readsAs_outer ho hf hc
    exact ⟨readsAs_master hm (Join.lastField_of_field? hf) hc, hinner⟩
  -- the field of the name in the model around decides what `outer.f` does
  have decided : Refuses scope "outer" [name] ∨
      ∃ field, around.model.field? name = some field ∧ field.isConcrete := by
    by_cases h : ∃ field, around.model.field? name = some field ∧ field.isConcrete
    · exact .inr h
    · refine .inl (refuses_outer ho fun field hf => ?_)
      by_contra hc
      exact h ⟨field, hf, by simpa using hc⟩
  have known {sql : String} (h : ReadsAs scope "outer" [name] sql) :
      ∃ field, around.model.field? name = some field ∧ field.isConcrete ∧
        sql = (around.master.column field.columnName).sql := by
    rcases decided with hrefuses | ⟨field, hf, hc⟩
    · exact absurd h hrefuses.not_readsAs
    · exact ⟨field, hf, hc, h.unique (reads hf hc).2⟩
  refine ⟨fun sql => ⟨fun h => ?_, fun ⟨h, hk⟩ => ?_⟩, fun sql h => ?_, fun h => ?_,
    fun _ _ _ _ h => ?_, fun hk key hkey hc => ?_⟩
  · obtain ⟨field, hf, hc, rfl⟩ := known h
    refine ⟨(reads hf hc).1.isMasterColumn, fun hk => ?_⟩
    simp [hk.2] at hf
  · obtain ⟨field, hf, hc, rfl⟩ := h.exists_field hm hpath hname hk
    exact (reads hf hc).2
  · obtain ⟨field, hf, hc, rfl⟩ := known h
    exact (reads hf hc).1
  · rcases decided with hrefuses | ⟨field, hf, hc⟩
    · exact hrefuses
    · exact absurd (reads hf hc).2 (h _)
  · rcases decided with hrefuses | ⟨field, hf, hc⟩
    · exact hrefuses
    · rw [(reads hf hc).1] at h
      cases h
  · exact readsAs_master hm (Join.lastField_keyword hk hkey) hc

/-- Books with a key that is not named `pk` and a link to who has them. -/
def lendingModels : List Model :=
  [⟨"s", "Book", "book", [.key "code", .foreignKey "holder" "Reader"]⟩,
   ⟨"s", "Reader", "reader", [.key "id"]⟩]

theorem outer_readsAs_iff_lending :
    ∃ schema model around scope, Schema.build lendingModels = .ok schema ∧ model ∈ schema.models ∧
      Level {} (.top schema {} model {}) (some around) scope ∧ scope.outer.isSome ∧
      ReadsAs scope "outer" ["holder"] (ColumnRef.mk "sq1" "holder_id").sql ∧
      ReadsAs around "pk" [] (ColumnRef.mk "sq1" "code").sql ∧ Refuses scope "outer" ["pk"] := by
  have h : ((Schema.build lendingModels).toOption.bind fun schema =>
      (schema.resolveModel "Book" none).toOption.map fun model =>
        ((model.field? "holder").map fun f => (f.columnName, f.isConcrete),
          (model.field? "pk").isNone, model.key?.map fun f => (f.columnName, f.isConcrete))) =
      some (some ("holder_id", true), true, some ("code", true)) := by
    decide +kernel
  simp only [Option.bind_eq_some_iff, Option.map_eq_some_iff, toOption_eq_some_iff,
    Prod.mk.injEq] at h
  obtain ⟨schema, hschema, model, hresolved, ⟨holder, hholder, hcolumn, hconcrete⟩, hpk, key, hkey,
    hcode, hcode'⟩ := h
  have hmem := (Schema.resolveModel_mem hresolved).1
  -- a sub-query on books in a sub-query on books, both on the first relation of what is around
  have below (scope : Scope) (hm : Join.resolveModel scope "Book" = .ok model) :
      Subquery ⟨scope, {}, fun _ _ => .error .emptyColumns⟩ [scope.master]
        (scope.below [scope.master] model (some ⟨scope.model, scope.master.reference⟩) {}
          scope.trail) { select := "*" } none :=
    .correlated hm
  have haround : Level {} (.top schema {} model {}) (some (.top schema {} model {})) _ :=
    .inner .outermost (.refl _) (below _ hresolved)
  have hscope := Level.inner haround (.refl _) (below _ hresolved)
  have hm := haround.modelOf_master hschema hmem
  have hlevel : "sq" ++ Text.ofNat 1 = "sq1" := by decide +kernel
  have hkeyword : Join.IsKeyword model "pk" := ⟨rfl, by simpa using hpk⟩
  obtain ⟨hreads, -⟩ :=
    outer_readsAs_iff hschema hmem {} {} {} hscope rfl (show "holder" ≠ "" by decide)
  obtain ⟨hpkReads, -, hrefuses, -, hreal⟩ :=
    outer_readsAs_iff hschema hmem {} {} {} hscope rfl (show "pk" ≠ "" by decide)
  refine ⟨schema, model, _, _, hschema, hmem, hscope, rfl, ?_, ?_, ?_⟩
  · have hmaster := readsAs_master hm (Join.lastField_of_field? hholder) hconcrete
    rw [hcolumn] at hmaster
    rw [← hlevel]
    exact (hreads _).mpr ⟨hmaster.isMasterColumn, fun hk => absurd hk.1 (by decide)⟩
  · have hmaster := hreal hkeyword key hkey hcode'
    rw [hcode] at hmaster
    rw [← hlevel]
    exact hmaster
  · exact hrefuses fun sql h => ((hpkReads sql).mp h).2 hkeyword

end PathQuery.Compile
