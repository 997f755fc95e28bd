import PathQuery.Json.Reader
import PathQuery.Schema
import PathQuery.Toml.Reader

/-!
Schemas from documents. A record is an object, whose unknown members are passed over and whose
known ones occur once, or an array of its fields in order.
-/

namespace PathQuery.Schema

/-- The notations of a schema document. They differ in how a value without content is written. -/
inductive Format where
  | json | toml
deriving DecidableEq

def positions (exact : Bool) (names : List (List String)) : Json → Option (List (Option Json))
  | .obj members =>
    names.mapM fun keys =>
      match members.filter fun m => keys.contains m.1 with
      | [] => some none
      | [(_, v)] => some (some v)
      | _ => none
  | .arr items =>
    if exact && names.length < items.length then none
    else some (names.mapIdx fun i _ => items[i]?)
  | _ => none

def text? : Json → Option String
  | .str s => some s
  | _ => none

def flag? : Json → Option Bool
  | .bool b => some b
  | _ => none

def items? {α : Type} (read : Json → Option α) : Json → Option (List α)
  | .arr items => items.mapM read
  | _ => none

def required {α : Type} (read : Json → Option α) : Option Json → Option α
  | some v => read v
  | none => none

def withDefault {α : Type} (d : α) (read : Json → Option α) : Option Json → Option α
  | some v => read v
  | none => some d

def optional {α : Type} (read : Json → Option α) : Option Json → Option (Option α)
  | none | some .null => some none
  | some v => (read v).map some

/-- One of several names: the name itself, or an object that holds nothing but the name. -/
def choice? {α : Type} (format : Format) (ofName? : String → Option α) : Json → Option α
  | .str s => ofName? s
  | .obj [(s, content)] =>
    match format, content with
    | .json, .null | .toml, .obj [] | .toml, .arr [] => ofName? s
    | _, _ => none
  | _ => none

def valueDepth : Nat := Json.maxDepth - 5

def linkKind? : Json → Option (String × Json)
  | .obj members =>
    match members.filter (·.1 == "kind") with
    | [(_, .str kind)] => some (kind, .obj (members.filter (·.1 != "kind")))
    | _ => none
  | .arr (.str kind :: rest) => some (kind, .arr rest)
  | _ => none

def link? (v : Json) : Option Link := do
  if !v.fits valueDepth then none
  else
    let (kind, record) ← linkKind? v
    match kind with
    | "foreign_key" =>
      match ← positions true [["to"], ["to_field"], ["related_name"]] record with
      | [toModel, toField, relatedName] =>
        return .foreignKey (← required text? toModel) (← optional text? toField)
          (← optional text? relatedName)
      | _ => none
    | "many_to_many" =>
      match ← positions true
          [["to"], ["through"], ["source_column"], ["target_column"], ["related_name"]] record with
      | [toModel, through, source, target, relatedName] =>
        return .manyToMany (← required text? toModel) (← required text? through)
          (← required text? source) (← required text? target) (← optional text? relatedName)
      | _ => none
    | "reverse" =>
      match ← positions true [["from"], ["field"]] record with
      | [source, field] => return .reverse (← required text? source) (← required text? field)
      | _ => none
    | _ => none

def default? (v : Json) : Option Json :=
  if v.fits valueDepth then some v.sorted else none

def field? (format : Format) (v : Json) : Option Field := do
  match ← positions (format == .json)
      [["name"], ["column"], ["type", "typ"], ["nullable"], ["unique"], ["primary_key"],
        ["default"], ["relation"], ["auto_created"]] v with
  | [name, column, type, nullable, unique, primaryKey, default, link, autoCreated] =>
    return {
      name := ← required text? name
      column := ← optional text? column
      type := ← withDefault .text (choice? format FieldType.ofName?) type
      nullable := ← withDefault false flag? nullable
      unique := ← withDefault false flag? unique
      primaryKey := ← withDefault false flag? primaryKey
      default := ← optional default? default
      link := ← optional link? link
      autoCreated := ← withDefault false flag? autoCreated }
  | _ => none

def model? (format : Format) (v : Json) : Option Model := do
  match ← positions (format == .json) [["namespace"], ["name"], ["table"], ["fields"]] v with
  | [ns, name, table, fields] =>
    return {
      ns := ← required text? ns
      name := ← required text? name
      table := ← required text? table
      fields := ← withDefault [] (items? (field? format)) fields }
  | _ => none

def models? (format : Format) (v : Json) : Option (List Model) := do
  match ← positions (format == .json) [["models"]] v with
  | [models] => required (items? (model? format)) models
  | _ => none

def ofDocument (format : Format) : Option Json → Except Error Schema
  | some v =>
    match models? format v with
    | some models => build models
    | none => .error .malformedSchema
  | none => .error .malformedSchema

def ofJson (text : String) : Except Error Schema :=
  ofDocument .json (Json.readLoose? text)

def ofToml (text : String) : Except Error Schema :=
  ofDocument .toml (Toml.read? text)

/-- The extension of a file name: what follows its last point, unless that starts the name. -/
def extension? (path : String) : Option String :=
  let name := (path.toList.reverse.takeWhile (· != '/'))
  let ext := name.takeWhile (· != '.')
  if ext.length + 1 < name.length then some (.ofList ext.reverse) else none

def ofFile (path text : String) : Except Error Schema :=
  if extension? path == some "toml" then ofToml text else ofJson text

end PathQuery.Schema
