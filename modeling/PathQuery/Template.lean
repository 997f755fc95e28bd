import PathQuery.Column
import PathQuery.Placeholder
import PathQuery.Select
import PathQuery.Value

/-!
Compiled text that still holds placeholders, the values that it carries for some of them, and the
binding of both to the markers of a dialect. A carried value is named by its place in the list.
-/

namespace PathQuery

namespace Splice

def lead : List Char := "__djaq".toList

def token (i : Nat) : String :=
  Placeholder.token (.ofList (lead ++ Text.digits i))

def placeLimit : Nat := 18446744073709551616

def index? (name : String) : Option Nat :=
  match Text.dropLead? lead name.toList with
  | some cs =>
    match Text.toNat? cs with
    | some i => if i < placeLimit then some i else none
    | none => none
  | none => none

/-- One token of a text that is moved behind `offset` carried values. Places move on by as much;
other names become carried values if the text has a context of its own and stay if it has none. -/
def moveToken (offset : Nat) (own : Option Context) (name : String) :
    StateT (List Value) (Except Error) String := fun carried =>
  match index? name, own with
  | some i, _ => .ok (token ((offset + i) % placeLimit), carried)
  | none, some context =>
    match context.get? name with
    | some v => .ok (token carried.length, carried ++ [v])
    | none => .error (.missingParameter name)
  | none, none => .ok (Placeholder.token name, carried)

def move (sql : String) (carried : List Value) (own : Option Context) (before : List Value) :
    Except Error (String × List Value) :=
  Placeholder.substitute (moveToken before.length own) sql (before ++ carried)

end Splice

structure Template where
  sql : String
  carried : List Value
  columns : List Column
  /-- The plan that `sql` is the text of. -/
  select : Select
  /-- The plans of the sub-queries, at any depth. -/
  nested : List Select

def Template.relations (t : Template) : Nat :=
  t.select.relations.length

structure Compiled where
  sql : String
  parameters : List Value
  columns : List Column
  /-- The number of relations, with the master. -/
  relations : Nat

namespace Compiled

def aliases (c : Compiled) : List String :=
  c.columns.map (·.name)

def countSql (c : Compiled) : String :=
  "SELECT COUNT(*) FROM (" ++ c.sql ++ ") c"

end Compiled

namespace Template

def markers (d : Dialect) (count : Nat) : List Value → List String
  | [] => []
  | _ :: rest => d.marker (count + 1) :: markers d (count + 1) rest

/-- The text for a value behind `parameters`, and the parameters with it. A list has a marker for
each of its items, and an empty one is NULL. -/
def pushValue (d : Dialect) (v : Value) (parameters : List Value) : String × List Value :=
  match v with
  | .list [] => ("(NULL)", parameters)
  | .list items =>
    ("(" ++ Text.join ", " (markers d parameters.length items) ++ ")", parameters ++ items)
  | v => (d.marker (parameters.length + 1), parameters ++ [v])

def valueOf? (carried : List Value) (context : Context) (name : String) : Option Value :=
  match Splice.index? name with
  | some i => carried[i]?
  | none => context.get? name

def bindToken (d : Dialect) (carried : List Value) (context : Context) (name : String) :
    StateT (List Value) (Except Error) String := fun parameters =>
  match valueOf? carried context name with
  | some v => .ok (pushValue d v parameters)
  | none => .error (.missingParameter name)

def bind (t : Template) (d : Dialect) (context : Context) : Except Error Compiled :=
  match Placeholder.substitute (bindToken d t.carried context) t.sql [] with
  | .ok (sql, parameters) =>
    .ok { sql, parameters, columns := t.columns, relations := t.relations }
  | .error e => .error e

end Template
end PathQuery
