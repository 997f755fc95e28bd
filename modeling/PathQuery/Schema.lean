import PathQuery.Error
import PathQuery.Schema.Model
import PathQuery.Text.Distance
import PathQuery.Text.Lower

/-!
Schemas: models in the order of their labels, with every link naming the label of its target and
with the other side of each foreign key and many-to-many link added to the target model.
-/

namespace PathQuery

structure Schema where
  models : List Model := []

namespace Schema

instance : Inhabited Schema := ⟨{}⟩

def get? (s : Schema) (label : String) : Option Model :=
  s.models.find? (·.label == label)

/-! ### Building -/

def place (m : Model) : List Model → List Model
  | [] => [m]
  | n :: rest => if m.label < n.label then m :: n :: rest else n :: place m rest

/-- The models in the order of their labels, which have to differ. -/
def arrange (placed : List Model) : List Model → Except Error (List Model)
  | [] => .ok placed
  | m :: rest =>
    if placed.any (·.label == m.label) then .error (.duplicateModel m.label)
    else arrange (place m placed) rest

/-- The label of the model that `target` names inside the namespace `ns`: a dotted name is a
label, any other one is looked up in the namespace first and then among all models. -/
def qualify (models : List Model) (ns target : String) : Except Error String :=
  if target.toList.contains '.' then
    if models.any (·.label == target) then .ok target else .error (.unknownTarget target)
  else
    let near := ns ++ "." ++ target
    if models.any (·.label == near) then .ok near
    else
      match models.find? (·.name == target) with
      | some m => .ok m.label
      | none => .error (.unknownTarget target)

def defaultColumn (f : Field) : Option String :=
  match f.link with
  | none => some f.name
  | some (.foreignKey ..) => some (f.name ++ "_id")
  | some _ => none

def completeField (models : List Model) (ns : String) (f : Field) : Except Error Field :=
  let f := { f with column := f.column.or (defaultColumn f) }
  match f.link with
  | none => .ok f
  | some link =>
    match qualify models ns link.target with
    | .ok t => .ok { f with link := some (link.withTarget t) }
    | .error e => .error e

def completeModel (models : List Model) (m : Model) : Except Error Model := do
  let fields ← m.fields.mapM (completeField models m.ns)
  return { m with fields }

/-- A field for the other side of a link of `m`, named after the model if no name is given. -/
def otherField (m : Model) (relatedName : Option String) (type : FieldType) (link : Link) : Field :=
  { name := relatedName.getD (Text.lower m.name), type, nullable := true, autoCreated := true,
    link := some link }

def otherSide? (m : Model) (f : Field) : Option (String × Field) :=
  if f.autoCreated then none
  else
    match f.link with
    | some (.foreignKey toModel _ relatedName) =>
      some (toModel, otherField m relatedName .reverse (.reverse m.label f.name))
    | some (.manyToMany toModel through source target relatedName) =>
      some (toModel, otherField m relatedName .manyToMany
        (.manyToMany m.label through target source none))
    | _ => none

def otherSides (models : List Model) : List (String × Field) :=
  models.flatMap fun m => m.fields.filterMap (otherSide? m)

def addField (label : String) (f : Field) : List Model → Except Error (List Model)
  | [] => .ok []
  | m :: rest =>
    if m.label == label then
      if (m.field? f.name).isSome then .error (.accessorClash f.name label)
      else .ok ({ m with fields := m.fields ++ [f] } :: rest)
    else
      match addField label f rest with
      | .ok rest => .ok (m :: rest)
      | .error e => .error e

def addFields : List (String × Field) → List Model → Except Error (List Model)
  | [], models => .ok models
  | (label, f) :: rest, models =>
    match addField label f models with
    | .ok models => addFields rest models
    | .error e => .error e

def build (models : List Model) : Except Error Schema := do
  let models ← arrange [] models
  let models ← models.mapM (completeModel models)
  let models ← addFields (otherSides models) models
  return ⟨models⟩

/-! ### Looking up -/

/-- The model of a name or label, if the whitelist admits it. Of several models of one name, the
first in the order of labels is meant. -/
def resolveModel (s : Schema) (name : String) (whitelist : Option Whitelist) :
    Except Error Model :=
  let found :=
    if name.toList.contains '.' then s.get? name else s.models.find? (·.name == name)
  match found with
  | some m => if Whitelist.admits whitelist m then .ok m else .error (.modelNotFound name)
  | none => .error (.modelNotFound name)

def tolerance (bytes : Nat) : Nat :=
  if bytes ≤ 2 then 0 else if bytes ≤ 5 then 2 else 3

/-- The first of the candidates that are nearest to `name`, if near enough. -/
def nearest? (name : String) (candidates : List String) : Option String :=
  let limit := tolerance (Text.byteLength name.toList)
  (candidates.foldl (fun best c =>
    let d := Text.editDistance name c
    if limit < d then best
    else
      match best with
      | some (b, _) => if d < b then some (d, c) else best
      | none => some (d, c)) none).map fun p : Nat × String => p.2

def resolveField (m : Model) (name : String) : Except Error Field :=
  match m.field? name with
  | some f => .ok f
  | none => .error (.fieldNotFound m.label name (nearest? name (m.fields.map (·.name))))

def relatedModel (s : Schema) (f : Field) (whitelist : Option Whitelist) : Except Error Model :=
  match f.link with
  | some link => s.resolveModel link.target whitelist
  | none => .error (.notRelation f.name)

def visible (s : Schema) (whitelist : Option Whitelist) : List Model :=
  s.models.filter (Whitelist.admits whitelist)

end Schema
end PathQuery
