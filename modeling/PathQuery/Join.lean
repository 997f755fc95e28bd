import PathQuery.Options
import PathQuery.Relation
import PathQuery.Schema

/-!
Resolving attribute paths. Each segment but the last is followed through a link to another model,
and the relation for it is joined the first time its path is met.
-/

namespace PathQuery

structure Outer where
  model : Model
  reference : String

structure Scope where
  schema : Schema
  options : Options
  model : Model
  master : Relation
  joinTypes : Table JoinType := {}
  /-- Tables and references of the queries around this one. -/
  enclosing : List String := []
  outer : Option Outer := none
  depth : Nat := 0
  /-- The named queries around this one, innermost first. -/
  trail : List String := []

def Scope.top (schema : Schema) (options : Options) (model : Model)
    (joinTypes : Table JoinType) : Scope :=
  { schema, options, model, master := .master model none, joinTypes }

/-- The scope of a sub-query, one level below `s` with its relations so far. -/
def Scope.below (s : Scope) (relations : List Relation) (model : Model) (outer : Option Outer)
    (joinTypes : Table JoinType) (trail : List String) : Scope :=
  let depth := s.depth + 1
  { s with
    model
    master := .master model (outer.map fun _ => "sq" ++ Text.ofNat depth)
    joinTypes
    enclosing := s.enclosing ++ relations.flatMap fun r => [r.table, r.reference]
    outer
    depth
    trail }

structure PathTarget where
  column : ColumnRef
  datePart : Option String := none
deriving DecidableEq, Repr

def PathTarget.sql (t : PathTarget) (d : Dialect) : String :=
  match t.datePart with
  | some part => (d.datePart? part t.column.sql).getD t.column.sql
  | none => t.column.sql

namespace Join

abbrev Action := StateT (List Relation) (Except Error)

def fail {α : Type} (e : Error) : Action α := fun _ => .error e

def lift {α : Type} (x : Except Error α) : Action α := fun rs =>
  match x with
  | .ok a => .ok (a, rs)
  | .error e => .error e

def push (r : Relation) : Action Relation := fun rs => .ok (r, rs ++ [r])

def modelOf (s : Scope) (r : Relation) : Except Error Model :=
  match r.model.bind s.schema.get? with
  | some m => .ok m
  | none => .error (.noModel r.table)

def resolveModel (s : Scope) (name : String) : Except Error Model :=
  s.schema.resolveModel name s.options.whitelist

/-- A path as an identifier: what is neither letter, digit nor underscore becomes two
underscores. -/
def flatten (path : String) : String :=
  .ofList (path.toList.flatMap fun c => if Text.isNameChar c then [c] else ['_', '_'])

/-- The alias of a new relation, which it needs if its table is in use here or further out. -/
def aliasFor (s : Scope) (relations : List Relation) (table path : String) : Option String :=
  if relations.any (·.table == table) || s.enclosing.contains table then
    some (if s.depth == 0 then flatten path
      else "sq" ++ Text.ofNat s.depth ++ "_" ++ flatten path)
  else none

def pathOf (parent : Relation) (f : Field) : String :=
  if parent.path.isEmpty then f.name else parent.path ++ "." ++ f.name

def attach (s : Scope) (model : Option String) (table path : String) (join : JoinType)
    (source : ColumnRef) (column : String) : Action Relation := fun rs =>
  let r : Relation := { model, table, knownAs := aliasFor s rs table path, path, join }
  push { r with linkage := some ⟨source, r.column column⟩ } rs

def keyColumnOf (m : Model) : Option String → Except Error String
  | some name => (Schema.resolveField m name).map Field.columnName
  | none => .ok m.keyColumn

def referencedColumn (m : Model) (key : Field) : Except Error String :=
  match key.link with
  | some (.foreignKey _ toField _) => keyColumnOf m toField
  | _ => .ok m.keyColumn

/-- The relation on the other side of a field, joined the first time. -/
def joinField (s : Scope) (parent : Relation) (m : Model) (f : Field) : Action Relation := fun rs =>
  let path := pathOf parent f
  match rs.find? (·.path == path) with
  | some r => .ok (r, rs)
  | none =>
    let join := (s.joinTypes.get? path).getD .left
    (match f.link with
    | some (.foreignKey toModel toField _) => do
      let target ← lift (resolveModel s toModel)
      let column ← lift (keyColumnOf target toField)
      attach s (some target.label) target.table path join (parent.column f.columnName) column
    | some (.reverse source field) => do
      let source ← lift (resolveModel s source)
      let key ← lift (Schema.resolveField source field)
      let column ← lift (referencedColumn m key)
      attach s (some source.label) source.table path join (parent.column column) key.columnName
    | some (.manyToMany toModel through sourceColumn targetColumn _) => do
      let target ← lift (resolveModel s toModel)
      let link ← attach s none through (path ++ "." ++ through) join (parent.column m.keyColumn)
        sourceColumn
      attach s (some target.label) target.table path join (link.column targetColumn)
        target.keyColumn
    | none => fail (.fieldNotFound m.label path none) : Action Relation) rs

/-- The field that the last segment of a path names, where `pk` is the key unless a field has that
name. -/
def lastField (m : Model) (name : String) : Except Error Field :=
  match m.field? name, m.key? with
  | none, some key => if name == "pk" then .ok key else Schema.resolveField m name
  | _, _ => Schema.resolveField m name

/-- The column for the last segment of a path. A link that is no column stands for the key on its
other side. -/
def terminal (s : Scope) (r : Relation) (name : String) : Action ColumnRef := do
  let m ← lift (modelOf s r)
  let f ← lift (lastField m name)
  match f.link with
  | none | some (.foreignKey ..) => return r.column f.columnName
  | some (.reverse source field) =>
    let source ← lift (resolveModel s source)
    let key ← lift (Schema.resolveField source field)
    let joined ← joinField s r m f
    return joined.column key.columnName
  | some (.manyToMany toModel ..) =>
    let target ← lift (resolveModel s toModel)
    let joined ← joinField s r m f
    return joined.column target.keyColumn

def follow (s : Scope) (walked : List String) (r : Relation) : List String → Action Relation
  | [] => pure r
  | segment :: rest => do
    let m ← lift (modelOf s r)
    let f ← lift (Schema.resolveField m segment)
    if f.link.isNone then
      fail (.fieldNotFound m.label (Text.join "." (walked ++ [segment])) none)
    else
      let joined ← joinField s r m f
      follow s (walked ++ [segment]) joined rest

def datePart (s : Scope) (r : Relation) (m : Model) (f : Field) (part : String) :
    Except Error PathTarget :=
  let column := r.column f.columnName
  if f.type.isDateLike && (s.options.dialect.datePart? part column.sql).isSome then
    .ok ⟨column, some part⟩
  else .error (.fieldNotFound m.label (f.name ++ "." ++ part) none)

/-- Drops the queried model at the head of a path. A capital letter there means a model, unless a
field has the name. -/
def dropModel (s : Scope) (head : String) (rest : List String) : Except Error (List String) :=
  if rest.isEmpty || (s.model.field? head).isSome then .ok (head :: rest)
  else if head == s.model.name || head == s.model.label then .ok rest
  else if head.toList.head?.any Char.isUpper then
    match resolveModel s head with
    | .ok other => .error (.otherModel other.label s.model.label)
    | .error e => .error e
  else .ok (head :: rest)

def walk (s : Scope) (segments : List String) : Action PathTarget :=
  match segments.reverse with
  | [] => fail (.invalid "empty attribute path")
  | [last] => do return ⟨← terminal s s.master last, none⟩
  | last :: owner :: before => do
    let r ← follow s [] s.master before.reverse
    let m ← lift (modelOf s r)
    let f ← lift (Schema.resolveField m owner)
    if f.link.isNone then lift (datePart s r m f last)
    else
      let joined ← joinField s r m f
      return ⟨← terminal s joined last, none⟩

def outerColumn (o : Outer) (field : String) : Except Error PathTarget :=
  match Schema.resolveField o.model field with
  | .error e => .error e
  | .ok f =>
    match f.columnName? with
    | some column => .ok ⟨⟨o.reference, column⟩, none⟩
    | none => .error (.fieldNotFound o.model.label field none)

def outerOf (s : Scope) (head : String) : Option Outer :=
  if head == "outer" then s.outer else none

def resolvePath (s : Scope) (head : String) (rest : List String) : Action PathTarget :=
  match outerOf s head, rest with
  | some o, [field] => lift (outerColumn o field)
  | _, _ => do
    let segments ← lift (dropModel s head rest)
    walk s segments

end Join
end PathQuery
