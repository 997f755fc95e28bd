import PathQuery.Schema

/-! Schemas as data documents. -/

namespace PathQuery

def optionalMember (name : String) : Option Json → List (String × Json)
  | some v => [(name, v)]
  | none => []

def Link.describe : Link → Json
  | .foreignKey toModel toField relatedName =>
    .obj ([("kind", .str "foreign_key"), ("to", .str toModel)] ++
      optionalMember "to_field" (toField.map .str) ++
      optionalMember "related_name" (relatedName.map .str))
  | .manyToMany toModel through source target relatedName =>
    .obj ([("kind", .str "many_to_many"), ("to", .str toModel), ("through", .str through),
      ("source_column", .str source), ("target_column", .str target)] ++
      optionalMember "related_name" (relatedName.map .str))
  | .reverse source field =>
    .obj [("kind", .str "reverse"), ("from", .str source), ("field", .str field)]

def Field.members (f : Field) : List (String × Json) :=
  [("name", .str f.name)] ++ optionalMember "column" (f.column.map .str) ++
    [("type", .str f.type.name), ("nullable", .bool f.nullable), ("unique", .bool f.unique),
      ("primary_key", .bool f.primaryKey)] ++
    optionalMember "default" f.default ++
    optionalMember "relation" (f.link.map Link.describe) ++
    if f.autoCreated then [("auto_created", .bool true)] else []

def Model.describe (m : Model) : Json :=
  .obj [("namespace", .str m.ns), ("name", .str m.name), ("table", .str m.table),
    ("fields", .arr (m.fields.map fun f => .obj f.members))]

def Schema.describe (s : Schema) (whitelist : Option Whitelist) : Json :=
  .obj ((s.visible whitelist).map fun m => (m.label, m.describe))

end PathQuery
