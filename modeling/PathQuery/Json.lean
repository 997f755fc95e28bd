import PathQuery.Number.Layout
import PathQuery.Table
import PathQuery.Text.Edit

/-! Data documents in JSON: the tree and its compact text. -/

namespace PathQuery

/-- A document. Members keep their order, and a name may occur more than once. A number that no
double can hold is `overflow`. -/
inductive Json where
  | null
  | bool (b : Bool)
  | int (n : Int)
  | real (x : Float)
  | overflow
  | str (s : String)
  | arr (items : List Json)
  | obj (members : List (String × Json))

namespace Json

instance : Inhabited Json := ⟨.null⟩

def hexPadded (n : Nat) : List Char :=
  let ds := Nat.toDigits 16 n
  List.replicate (4 - ds.length) '0' ++ ds

def escapeChar (c : Char) : List Char :=
  if c == '"' || c == '\\' then ['\\', c]
  else if c == '\x08' then ['\\', 'b']
  else if c == '\x0c' then ['\\', 'f']
  else if c == '\n' then ['\\', 'n']
  else if c == '\r' then ['\\', 'r']
  else if c == '\t' then ['\\', 't']
  else if c.toNat < 0x20 then ['\\', 'u'] ++ hexPadded c.toNat
  else [c]

def renderString (s : String) : String :=
  .ofList ('"' :: s.toList.flatMap escapeChar ++ ['"'])

mutual

def render : Json → String
  | .null => "null"
  | .bool b => if b then "true" else "false"
  | .int n => Text.ofInt n
  | .real x => (Number.document? x).getD "null"
  | .overflow => "null"
  | .str s => renderString s
  | .arr items => "[" ++ Text.join "," (renderItems items) ++ "]"
  | .obj members => "\x7b" ++ Text.join "," (renderMembers members) ++ "\x7d"

def renderItems : List Json → List String
  | [] => []
  | v :: rest => render v :: renderItems rest

def renderMembers : List (String × Json) → List String
  | [] => []
  | (k, v) :: rest => (renderString k ++ ":" ++ render v) :: renderMembers rest

end

mutual

/-- Members in the order of their names, the last of equal names kept. -/
def sorted : Json → Json
  | .arr items => .arr (sortedItems items)
  | .obj members => .obj (Table.ofListSorted (sortedMembers members)).entries
  | v => v

def sortedItems : List Json → List Json
  | [] => []
  | v :: rest => sorted v :: sortedItems rest

def sortedMembers : List (String × Json) → List (String × Json)
  | [] => []
  | (k, v) :: rest => (k, sorted v) :: sortedMembers rest

end

mutual

def fits (depth : Nat) : Json → Bool
  | .overflow => false
  | .arr items => 0 < depth && fitsItems (depth - 1) items
  | .obj members => 0 < depth && fitsMembers (depth - 1) members
  | _ => true

def fitsItems (depth : Nat) : List Json → Bool
  | [] => true
  | v :: rest => fits depth v && fitsItems depth rest

def fitsMembers (depth : Nat) : List (String × Json) → Bool
  | [] => true
  | (_, v) :: rest => fits depth v && fitsMembers depth rest

end

def maxDepth : Nat := 127

end Json
end PathQuery
