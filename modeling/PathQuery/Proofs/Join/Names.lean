import PathQuery.Proofs.Join.Growth
import PathQuery.Proofs.Schema.Labels

/-!
Names in joined tables. The names of every relation that is joined and of every column that a path
leads to are those of the tables and columns of the schema, or made up of letters, digits and
underscores. What holds of all of these holds of every name in a joined table.
-/

namespace PathQuery

namespace Field

variable {f : Field} {name : String}

theorem isConcrete_of_some (h : f.columnName? = some name) : f.isConcrete := by
  unfold columnName? at h
  split at h
  · assumption
  · cases h

theorem columnName_of_some (h : f.columnName? = some name) : f.columnName = name := by
  rw [columnName, h]
  rfl

end Field

/-- The names of a link table and of its columns. -/
def Link.sqlNames : Link → List String
  | .manyToMany _ through sourceColumn targetColumn _ => [through, sourceColumn, targetColumn]
  | _ => []

/-- The name of the field on the other side that a link refers to. -/
def Link.keyName? : Link → Option String
  | .foreignKey _ toField _ => toField
  | .reverse _ field => some field
  | .manyToMany .. => none

/-- A name that is made up of the characters of names. -/
def IsMade (name : String) : Prop :=
  ∀ c ∈ name.toList, Text.isNameChar c

instance (name : String) : Decidable (IsMade name) :=
  decidable_of_iff (name.toList.all Text.isNameChar) (by simp [IsMade])

theorem IsMade.append {a b : String} (ha : IsMade a) (hb : IsMade b) : IsMade (a ++ b) := by
  rw [IsMade, String.toList_append]
  exact List.forall_mem_append.mpr ⟨ha, hb⟩

theorem isMade_ofNat (n : Nat) : IsMade (Text.ofNat n) := by
  intro c hc
  rw [Text.ofNat, String.toList_ofList] at hc
  have hdigit := Nat.isDigit_of_mem_toDigits (by decide) (by decide) hc
  have hrange : 48 ≤ c.toNat ∧ c.toNat ≤ 57 := by
    simpa [Char.isDigit, UInt32.le_iff_toNat_le] using hdigit
  rw [Text.isNameChar, Text.isAlphanumeric, if_pos (by omega), Char.isAlphanum, hdigit,
    Bool.or_true, Bool.true_or]

namespace Schema

/-- The names of the fields that links refer to. -/
def keyNames (s : Schema) : List String :=
  s.models.flatMap fun m => m.fields.flatMap fun f => (f.link.bind Link.keyName?).toList

/-- The names of the tables, columns and link tables of a schema. The name of a field that has no
column is taken for one where a link refers to it. -/
def sqlNames (s : Schema) : List String :=
  s.models.flatMap fun m => m.table :: m.fields.flatMap fun f =>
    (if f.isConcrete || s.keyNames.contains f.name then [f.columnName] else []) ++
      (f.link.map Link.sqlNames).getD []

/-- A property of the names of tables and columns. -/
def Named (P : String → Prop) (s : Schema) : Prop :=
  ∀ name ∈ s.sqlNames, P name

variable {P : String → Prop} {s : Schema} {m : Model} {f : Field}

theorem Named.table (h : s.Named P) (hm : m ∈ s.models) : P m.table :=
  h _ (List.mem_flatMap.mpr ⟨m, hm, List.mem_cons_self⟩)

theorem Named.ofField (h : s.Named P) (hm : m ∈ s.models) (hf : f ∈ m.fields) :
    ∀ name ∈ (if f.isConcrete || s.keyNames.contains f.name then [f.columnName] else []) ++
      (f.link.map Link.sqlNames).getD [], P name := by
  intro name hname
  refine h _ (List.mem_flatMap.mpr ⟨m, hm, List.mem_cons_of_mem _ ?_⟩)
  exact List.mem_flatMap.mpr ⟨f, hf, hname⟩

theorem Named.column (h : s.Named P) (hm : m ∈ s.models) (hf : f ∈ m.fields)
    (hused : f.isConcrete ∨ f.name ∈ s.keyNames) : P f.columnName := by
  refine h.ofField hm hf _ (List.mem_append_left _ ?_)
  rw [if_pos (by simpa using hused)]
  exact List.mem_cons_self

theorem Named.link {link : Link} (h : s.Named P) (hm : m ∈ s.models) (hf : f ∈ m.fields)
    (hlink : f.link = some link) : ∀ name ∈ link.sqlNames, P name := by
  intro name hname
  refine h.ofField hm hf _ (List.mem_append_right _ ?_)
  rw [hlink]
  exact hname

theorem Named.keyColumn (h : s.Named P) (hmade : ∀ name, IsMade name → P name)
    (hm : m ∈ s.models) : P m.keyColumn := by
  unfold Model.keyColumn
  cases hkey : m.key?.bind Field.columnName? with
  | none => exact hmade "id" (by decide)
  | some name =>
    obtain ⟨f, hf, hname⟩ := Option.bind_eq_some_iff.mp hkey
    rw [Option.getD_some, ← Field.columnName_of_some hname]
    exact h.column hm (Join.key?_mem hf) (.inl (Field.isConcrete_of_some hname))

theorem mem_keyNames {link : Link} {name : String} (hm : m ∈ s.models) (hf : f ∈ m.fields)
    (hlink : f.link = some link) (hname : link.keyName? = some name) : name ∈ s.keyNames := by
  refine List.mem_flatMap.mpr ⟨m, hm, List.mem_flatMap.mpr ⟨f, hf, ?_⟩⟩
  rw [hlink, Option.bind_some, hname]
  exact List.mem_singleton_self name

/-- The column of a field that a link refers to by its name. -/
theorem Named.resolved {name : String} (h : s.Named P) (hm : m ∈ s.models)
    (hname : name ∈ s.keyNames) (hf : resolveField m name = .ok f) : P f.columnName := by
  refine h.column hm (Join.resolveField_mem hf) (.inr ?_)
  unfold resolveField at hf
  split at hf
  · next hfound =>
    cases hf
    have hsame := List.find?_some hfound
    rwa [beq_iff_eq.mp hsame]
  · cases hf

end Schema

variable {P : String → Prop}

def ColumnRef.Named (P : String → Prop) (c : ColumnRef) : Prop :=
  P c.relation ∧ P c.column

structure Relation.Named (P : String → Prop) (r : Relation) : Prop where
  table : P r.table
  knownAs : ∀ a ∈ r.knownAs, P a
  linkage : ∀ l ∈ r.linkage, l.source.Named P ∧ l.target.Named P

structure Scope.Named (P : String → Prop) (s : Scope) : Prop where
  made : ∀ name, IsMade name → P name
  schema : s.schema.Named P
  model : s.model ∈ s.schema.models
  master : s.master.Named P
  outer : ∀ o ∈ s.outer, o.model ∈ s.schema.models ∧ P o.reference

theorem Relation.Named.reference {r : Relation} (h : r.Named P) : P r.reference := by
  unfold Relation.reference
  cases hknown : r.knownAs with
  | none => exact h.table
  | some a => exact h.knownAs a hknown

theorem Relation.Named.column {r : Relation} {name : String} (h : r.Named P) (hname : P name) :
    (r.column name).Named P :=
  ⟨h.reference, hname⟩

/-- The name of a correlated sub-query is made up. -/
theorem isMade_depthName (depth : Nat) : IsMade ("sq" ++ Text.ofNat depth) := by
  have hsq : IsMade "sq" := by decide
  exact hsq.append (isMade_ofNat depth)

namespace Join

variable {s : Scope} {parent r : Relation} {m : Model} {f : Field} {rs rs' : List Relation}

theorem isMade_flatten (path : String) : IsMade (flatten path) := by
  intro c hc
  rw [flatten, String.toList_ofList, List.mem_flatMap] at hc
  obtain ⟨a, -, hc⟩ := hc
  split at hc
  · next ha =>
    rw [List.mem_singleton.mp hc]
    exact ha
  · simp only [List.mem_cons, List.not_mem_nil, or_false, or_self] at hc
    rw [hc]
    rfl

theorem isMade_aliasFor {table path a : String} (h : aliasFor s rs table path = some a) :
    IsMade a := by
  unfold aliasFor at h
  split at h
  · cases h
    have hbar : IsMade "_" := by decide
    split
    · exact isMade_flatten path
    · exact ((isMade_depthName s.depth).append hbar).append (isMade_flatten path)
  · cases h

theorem attached_named {model : Option String} {table path column : String} {join : JoinType}
    {source : ColumnRef} (hs : s.Named P) (htable : P table) (hsource : source.Named P)
    (hcolumn : P column) :
    (attached s rs model table path join source column).Named P := by
  have hknown : ∀ a ∈ aliasFor s rs table path, P a := fun a ha => hs.made a (isMade_aliasFor ha)
  have hbare : Relation.Named P { model, table, knownAs := aliasFor s rs table path, path, join } :=
    ⟨htable, hknown, by simp⟩
  refine ⟨htable, hknown, ?_⟩
  intro l hl
  obtain rfl := Option.mem_some_iff.mp hl
  exact ⟨hsource, hbare.column hcolumn⟩

theorem modelOf_mem (h : modelOf s r = .ok m) : m ∈ s.schema.models := by
  unfold modelOf at h
  split at h
  · next n hn =>
    cases h
    obtain ⟨label, -, hget⟩ := Option.bind_eq_some_iff.mp hn
    exact List.mem_of_find?_eq_some hget
  · cases h

theorem keyColumnOf_named {toField : Option String} {column : String} (hs : s.Named P)
    (hm : m ∈ s.schema.models) (hname : ∀ name ∈ toField, name ∈ s.schema.keyNames)
    (h : keyColumnOf m toField = .ok column) : P column := by
  cases toField with
  | none =>
    cases h
    exact hs.schema.keyColumn hs.made hm
  | some name =>
    rw [keyColumnOf] at h
    cases hf : Schema.resolveField m name with
    | error =>
      rw [hf] at h
      cases h
    | ok f =>
      rw [hf] at h
      cases h
      exact hs.schema.resolved hm (hname name rfl) hf

theorem referencedColumn_named {source : Model} {key : Field} {column : String} (hs : s.Named P)
    (hm : m ∈ s.schema.models) (hsource : source ∈ s.schema.models) (hkey : key ∈ source.fields)
    (h : referencedColumn m key = .ok column) : P column := by
  unfold referencedColumn at h
  split at h
  · next toField _ hlink =>
    refine keyColumnOf_named hs hm ?_ h
    intro name hname
    exact Schema.mem_keyNames hsource hkey hlink hname
  · cases h
    exact hs.schema.keyColumn hs.made hm

/-- What is joined has such names, if the relations that are there do. -/
theorem Joins.named (hs : s.Named P) (hm : m ∈ s.schema.models) (hp : parent.Named P)
    (hf : f ∈ m.fields) (hrs : ∀ r ∈ rs, r.Named P) (h : Joins s parent m f rs r rs') :
    ∀ r ∈ rs', r.Named P := by
  have push {rs : List Relation} {r : Relation} (hrs : ∀ r ∈ rs, r.Named P) (hr : r.Named P) :
      ∀ x ∈ rs ++ [r], x.Named P := by
    intro x hx
    rcases List.mem_append.mp hx with hx | hx
    · exact hrs x hx
    · rw [List.mem_singleton.mp hx]
      exact hr
  cases h with
  | known => exact hrs
  | forward _ hlink ht hc hr =>
    have htarget := (Schema.resolveModel_mem ht).1
    have hcolumn : P f.columnName :=
      hs.schema.column hm hf (.inl (by rw [Field.isConcrete, hlink]))
    have hkey := keyColumnOf_named hs htarget
      (fun name hname => Schema.mem_keyNames hm hf hlink hname) hc
    rw [hr]
    exact push hrs (attached_named hs (hs.schema.table htarget) (hp.column hcolumn) hkey)
  | reverse _ hlink ht hk hc hr =>
    have htarget := (Schema.resolveModel_mem ht).1
    have hcolumn := referencedColumn_named hs hm htarget (resolveField_mem hk) hc
    have hkey := hs.schema.resolved htarget (Schema.mem_keyNames hm hf hlink rfl) hk
    rw [hr]
    exact push hrs (attached_named hs (hs.schema.table htarget) (hp.column hcolumn) hkey)
  | @bridge toModel through sourceColumn targetColumn _ _ link _ _ hlink ht hl hr =>
    have htarget := (Schema.resolveModel_mem ht).1
    have hnames := hs.schema.link hm hf hlink
    have hlinkNamed : link.Named P := by
      rw [hl]
      exact attached_named hs (hnames through (by simp [Link.sqlNames]))
        (hp.column (hs.schema.keyColumn hs.made hm)) (hnames sourceColumn (by simp [Link.sqlNames]))
    have htargetColumn := hlinkNamed.column (hnames targetColumn (by simp [Link.sqlNames]))
    rw [hr]
    exact push (push hrs hlinkNamed) (attached_named hs (hs.schema.table htarget) htargetColumn
      (hs.schema.keyColumn hs.made htarget))

theorem Grows.named (hs : s.Named P) (h : Grows s rs rs') (hrs : ∀ r ∈ rs, r.Named P) :
    ∀ r ∈ rs', r.Named P := by
  induction h with
  | refl => exact hrs
  | step hp hm hf hj _ ih => exact ih (hj.named hs (modelOf_mem hm) (hrs _ hp) hf hrs)

/-! ### Columns that paths lead to -/

theorem Ends.named {c : ColumnRef} (hs : s.Named P) (hm : modelOf s r = .ok m) (hf : f ∈ m.fields)
    (hr : r.Named P) (hend : ∀ r ∈ rs', r.Named P) (h : Ends s r m f rs c rs') : c.Named P := by
  have hmodel := modelOf_mem hm
  cases h with
  | own hc => exact hr.column (hs.schema.column hmodel hf (.inl hc))
  | reverse hl ht hk hj =>
    exact (hend _ hj.mem).column (hs.schema.resolved (Schema.resolveModel_mem ht).1
      (Schema.mem_keyNames hmodel hf hl rfl) hk)
  | bridge _ ht hj =>
    exact (hend _ hj.mem).column (hs.schema.keyColumn hs.made (Schema.resolveModel_mem ht).1)

theorem Arrives.named {t : PathTarget} (hs : s.Named P) (hrs : ∀ r ∈ rs, r.Named P)
    (h : Arrives s rs t rs') : t.column.Named P := by
  have hend := h.grows.named hs hrs
  cases h with
  | column hg hr hm hf h => exact h.named hs hm hf (hg.named hs hrs _ hr) hend
  | datePart _ hr hm hf hc =>
    exact (hend _ hr).column (hs.schema.column (modelOf_mem hm) hf (.inl hc))

theorem outerColumn_named {o : Outer} {field : String} {t : PathTarget} (hs : s.Named P)
    (hm : o.model ∈ s.schema.models) (hr : P o.reference) (h : outerColumn o field = .ok t) :
    t.column.Named P := by
  unfold outerColumn at h
  split at h
  · cases h
  · next f hf =>
    split at h
    · next column hcolumn =>
      cases h
      rw [← Field.columnName_of_some hcolumn]
      exact ⟨hr, hs.schema.column hm (resolveField_mem hf)
        (.inl (Field.isConcrete_of_some hcolumn))⟩
    · cases h

/-- A path leads to a column with such names. -/
theorem resolvePath_named {head : String} {rest : List String} {t : PathTarget} (hs : s.Named P)
    (hmaster : s.master ∈ rs) (hrs : ∀ r ∈ rs, r.Named P)
    (h : resolvePath s head rest rs = .ok (t, rs')) : t.column.Named P := by
  obtain harrives | ⟨o, field, -, -, ho, hcolumn, -⟩ := resolvePath_cases hmaster h
  · exact harrives.named hs hrs
  · obtain ⟨hmodel, hreference⟩ := hs.outer o ho
    exact outerColumn_named hs hmodel hreference hcolumn

end Join

theorem Scope.named_top {schema : Schema} {m : Model} (hmade : ∀ name, IsMade name → P name)
    (hschema : schema.Named P) (hm : m ∈ schema.models) (o : Options)
    (joinTypes : Table JoinType) : (Scope.top schema o m joinTypes).Named P where
  made := hmade
  schema := hschema
  model := hm
  master := ⟨hschema.table hm, by simp [Scope.top, Relation.master],
    by simp [Scope.top, Relation.master]⟩
  outer := by simp [Scope.top]

/-- The scope of a sub-query has such names, if that of the query around it does. -/
theorem Scope.Named.below {s : Scope} {rs : List Relation} {m : Model} {correlated : Bool}
    {joinTypes : Table JoinType} {trail : List String} (hs : s.Named P)
    (hm : m ∈ s.schema.models) :
    (s.below rs m (if correlated then some ⟨s.model, s.master.reference⟩ else none) joinTypes
      trail).Named P where
  made := hs.made
  schema := hs.schema
  model := hm
  master := by
    refine ⟨hs.schema.table hm, ?_, by simp [Scope.below, Relation.master]⟩
    intro a ha
    cases correlated with
    | true =>
      obtain rfl := Option.mem_some_iff.mp ha
      exact hs.made _ (isMade_depthName _)
    | false => cases ha
  outer := by
    intro o ho
    cases correlated with
    | true =>
      obtain rfl := Option.mem_some_iff.mp ho
      exact ⟨hs.model, hs.master.reference⟩
    | false => cases ho

end PathQuery
