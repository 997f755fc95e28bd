import PathQuery.Json

/-!
The tables of a TOML document while it is read. Headers and dotted keys make tables on the way
down; each table remembers whether it has been defined in full and by which of the two it was made,
since neither may reopen what the other has closed.
-/

namespace PathQuery.Toml

mutual

inductive Node where
  | leaf (v : Json)
  | table (t : Group)
  | tables (items : List Group)

/-- A table: `implicit` until it has a header of its own, `dotted` if a dotted key made it. -/
inductive Group where
  | mk (implicit dotted : Bool) (entries : List (String × Node))

end

namespace Group

instance : Inhabited Group := ⟨.mk false false []⟩

def implicit : Group → Bool
  | .mk i _ _ => i

def dotted : Group → Bool
  | .mk _ d _ => d

def entries : Group → List (String × Node)
  | .mk _ _ es => es

def get? (g : Group) (k : String) : Option Node :=
  Table.find? k g.entries

def set (g : Group) (k : String) (n : Node) : Group :=
  .mk g.implicit g.dotted (Table.put k n g.entries)

def modify (dotted : Bool) (f : Group → Option Group) : List String → Group → Option Group
  | [], g => f g
  | k :: path, g =>
    match g.get? k with
    | none => (modify dotted f path (.mk true dotted [])).map fun child => g.set k (.table child)
    | some (.leaf _) => none
    | some (.table child) =>
      if dotted && !child.implicit then none
      else (modify dotted f path child).map fun child => g.set k (.table child)
    | some (.tables items) =>
      match items.reverse with
      | [] => none
      | last :: before =>
        (modify dotted f path last).map fun last => g.set k (.tables (last :: before).reverse)

def assign (path : List String) (k : String) (v : Json) (g : Group) : Option Group :=
  g.modify true (fun t =>
    if t.dotted == path.isEmpty || (t.get? k).isSome then none else some (t.set k (.leaf v))) path

def openTable (path : List String) (k : String) (g : Group) : Option Group :=
  g.modify false (fun t =>
    match t.get? k with
    | none => some (t.set k (.table (.mk false false [])))
    | some (.table child) =>
      if child.implicit && !child.dotted then
        some (t.set k (.table (.mk false false child.entries)))
      else none
    | some _ => none) path

def openItem (path : List String) (k : String) (g : Group) : Option Group :=
  g.modify false (fun t =>
    match t.get? k with
    | none => some (t.set k (.tables [.mk false false []]))
    | some (.tables items) => some (t.set k (.tables (items ++ [.mk false false []])))
    | some _ => none) path

end Group

mutual

def Node.toJson : Node → Json
  | .leaf v => v
  | .table g => g.toJson
  | .tables items => .arr (groupsToJson items)

def Group.toJson : Group → Json
  | .mk _ _ entries => .obj (entriesToJson entries)

def groupsToJson : List Group → List Json
  | [] => []
  | g :: rest => g.toJson :: groupsToJson rest

def entriesToJson : List (String × Node) → List (String × Json)
  | [] => []
  | (k, n) :: rest => (k, n.toJson) :: entriesToJson rest

end

end PathQuery.Toml
