import PathQuery.Calendar
import PathQuery.Json
import PathQuery.Number.Decimal
import PathQuery.Number.Read

/-! Values of parameters and rows. -/

namespace PathQuery

open Number (Decimal)

inductive Value where
  | null
  | bool (b : Bool)
  | int (n : Int64)
  | float (x : Float)
  | decimal (d : Decimal)
  | text (s : String)
  | date (d : Date)
  | dateTime (t : DateTime)
  | list (items : List Value)

abbrev Context := Table Value

namespace Value

instance : Inhabited Value := ⟨.null⟩

mutual

/-- Whether the value counts as supplied: not null, not empty, and for a list, some item is. -/
def isPresent : Value → Bool
  | .null => false
  | .text s => !s.isEmpty
  | .list items => anyPresent items
  | _ => true

def anyPresent : List Value → Bool
  | [] => false
  | v :: rest => isPresent v || anyPresent rest

end

def isNull : Value → Bool
  | .null => true
  | _ => false

def minInt : Int := -9223372036854775808

def maxInt : Int := 9223372036854775807

def int64? (n : Int) : Option Int64 :=
  if minInt ≤ n && n ≤ maxInt then some (Int64.ofInt n) else none

def clamp (n : Int) : Int64 :=
  Int64.ofInt (max minInt (min maxInt n))

/-- A double without its places, held within 64 bits; zero for what is no number. -/
def floatToInt (x : Float) : Int64 :=
  match Number.parts x with
  | .nan => 0
  | .infinite negative => clamp (if negative then minInt else maxInt)
  | .finite .. => clamp ((Number.truncate? x).getD 0)

def toInt64? : Value → Option Int64
  | .int n => some n
  | .float x => some (floatToInt x)
  | .decimal d => int64? d.truncate
  | .bool b => some (if b then 1 else 0)
  | .text s => (Text.toInt? s.toList).bind int64?
  | _ => none

def text? : Value → Option String
  | .text s => some s
  | _ => none

mutual

def display : Value → String
  | .null => ""
  | .bool b => if b then "true" else "false"
  | .int n => Text.ofInt n.toInt
  | .float x => Number.plain x
  | .decimal d => d.render
  | .text s => s
  | .date d => d.render
  | .dateTime t => t.render
  | .list items => "[" ++ Text.join ", " (displayItems items) ++ "]"

def displayItems : List Value → List String
  | [] => []
  | v :: rest => display v :: displayItems rest

end

mutual

def toJson : Value → Json
  | .null => .null
  | .bool b => .bool b
  | .int n => .int n.toInt
  | .float x => if x.isFinite then .real x else .null
  | .decimal d => .str d.render
  | .text s => .str s
  | .date d => .str d.render
  | .dateTime t => .str t.renderDocument
  | .list items => .arr (toJsonItems items)

def toJsonItems : List Value → List Json
  | [] => []
  | v :: rest => toJson v :: toJsonItems rest

end

def ofInt (n : Int) : Value :=
  match int64? n with
  | some n => .int n
  | none => .float (Number.nearest (n < 0) n.natAbs 1)

mutual

/-- The value of a data document; an object is kept as its text. -/
def ofJson : Json → Value
  | .null | .overflow => .null
  | .bool b => .bool b
  | .int n => ofInt n
  | .real x => .float x
  | .str s => .text s
  | .arr items => .list (ofJsonItems items)
  | .obj members => .text (Json.obj members).sorted.render

def ofJsonItems : List Json → List Value
  | [] => []
  | v :: rest => ofJson v :: ofJsonItems rest

end

end Value
end PathQuery
