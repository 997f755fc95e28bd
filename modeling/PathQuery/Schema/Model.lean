import PathQuery.Json

/-! Descriptions of tables: models, their fields, and how fields link models. -/

namespace PathQuery

inductive FieldType where
  | auto | integer | float | decimal | char | text | boolean | date | dateTime | time | json
  | uuid | geometry | foreignKey | oneToOne | manyToMany | reverse
deriving DecidableEq, Repr

namespace FieldType

instance : Inhabited FieldType := ⟨.text⟩

def all : List FieldType :=
  [auto, integer, float, decimal, char, text, boolean, date, dateTime, time, json, uuid, geometry,
    foreignKey, oneToOne, manyToMany, reverse]

def name : FieldType → String
  | .auto => "auto"
  | .integer => "integer"
  | .float => "float"
  | .decimal => "decimal"
  | .char => "char"
  | .text => "text"
  | .boolean => "boolean"
  | .date => "date"
  | .dateTime => "date_time"
  | .time => "time"
  | .json => "json"
  | .uuid => "uuid"
  | .geometry => "geometry"
  | .foreignKey => "foreign_key"
  | .oneToOne => "one_to_one"
  | .manyToMany => "many_to_many"
  | .reverse => "reverse"

def ofName? (s : String) : Option FieldType :=
  if s == "datetime" then some .dateTime else all.find? (·.name == s)

def isDateLike : FieldType → Bool
  | .date | .dateTime => true
  | _ => false

end FieldType

inductive Link where
  /-- A column with the key of `toModel`: its field `toField`, or the primary key. -/
  | foreignKey (toModel : String) (toField relatedName : Option String)
  /-- Rows of the link table `through`, with this model's key and that of `toModel`. -/
  | manyToMany (toModel through sourceColumn targetColumn : String) (relatedName : Option String)
  /-- The other side of the foreign key `field` of the model `source`. -/
  | reverse (source field : String)
deriving DecidableEq, Repr

namespace Link

def target : Link → String
  | .foreignKey toModel .. => toModel
  | .manyToMany toModel .. => toModel
  | .reverse source _ => source

def withTarget (t : String) : Link → Link
  | .foreignKey _ toField relatedName => .foreignKey t toField relatedName
  | .manyToMany _ through source target relatedName =>
    .manyToMany t through source target relatedName
  | .reverse _ field => .reverse t field

def withRelatedName (name : String) : Link → Link
  | .foreignKey toModel toField _ => .foreignKey toModel toField (some name)
  | .manyToMany toModel through source target _ =>
    .manyToMany toModel through source target (some name)
  | link => link

end Link

structure Field where
  name : String
  column : Option String := none
  type : FieldType := .text
  nullable : Bool := false
  unique : Bool := false
  primaryKey : Bool := false
  default : Option Json := none
  link : Option Link := none
  /-- Made by the schema for the other side of a link. -/
  autoCreated : Bool := false

namespace Field

instance : Inhabited Field := ⟨⟨"", none, .text, false, false, false, none, none, false⟩⟩

def key (name : String) : Field :=
  { name, type := .auto, primaryKey := true, unique := true }

def foreignKey (name toModel : String) : Field :=
  { name, type := .foreignKey, link := some (.foreignKey toModel none none) }

def manyToMany (name toModel through sourceColumn targetColumn : String) : Field :=
  { name, type := .manyToMany,
    link := some (.manyToMany toModel through sourceColumn targetColumn none) }

def withRelatedName (f : Field) (name : String) : Field :=
  { f with link := f.link.map (·.withRelatedName name) }

def isConcrete (f : Field) : Bool :=
  match f.link with
  | none | some (.foreignKey ..) => true
  | _ => false

def columnName? (f : Field) : Option String :=
  if f.isConcrete then some (f.column.getD f.name) else none

def columnName (f : Field) : String :=
  f.columnName?.getD f.name

end Field

structure Model where
  ns : String
  name : String
  table : String
  fields : List Field := []

namespace Model

instance : Inhabited Model := ⟨⟨"", "", "", []⟩⟩

def label (m : Model) : String :=
  m.ns ++ "." ++ m.name

def field? (m : Model) (name : String) : Option Field :=
  m.fields.find? (·.name == name)

/-- The key: the field marked as such, else the one named `id`. -/
def key? (m : Model) : Option Field :=
  (m.fields.find? (·.primaryKey)).or (m.field? "id")

def keyColumn (m : Model) : String :=
  (m.key?.bind Field.columnName?).getD "id"

def concreteFields (m : Model) : List Field :=
  m.fields.filter Field.isConcrete

end Model

/-- Models that may be used, by namespace. An empty list admits the whole namespace, and a
namespace that is not listed admits nothing. -/
structure Whitelist where
  names : Table (List String) := {}

namespace Whitelist

def allows (w : Whitelist) (m : Model) : Bool :=
  match w.names.get? m.ns with
  | some names => names.isEmpty || names.contains m.name
  | none => false

def admits (w : Option Whitelist) (m : Model) : Bool :=
  w.all (·.allows m)

end Whitelist
end PathQuery
