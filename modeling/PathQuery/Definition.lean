import PathQuery.Condition
import PathQuery.Select

/-! Queries as they are put together, before they are compiled, and the names they are known by. -/

namespace PathQuery

structure Definition where
  model : String
  select : String
  condition : Option Condition := none
  orderBy : Option String := none
  limit : Option Nat := none
  offset : Option Nat := none
  distinct : Bool := false
  context : Context := {}
  joinTypes : Table JoinType := {}

namespace Definition

instance : Inhabited Definition := ⟨{ model := "", select := "" }⟩

def sourceOf (pieces : List String) : String :=
  Text.join ", " pieces

def filter (d : Definition) (c : Condition) : Definition :=
  { d with condition := some (match d.condition with
      | some existing => existing.both c
      | none => c) }

def withContext (d : Definition) (context : Context) : Definition :=
  { d with context := d.context.merge context }

def withJoinType (d : Definition) (path : String) (join : JoinType) : Definition :=
  { d with joinTypes := d.joinTypes.insert path join }

def filterSource? (d : Definition) (context : Context) : Option String :=
  match d.condition with
  | some c =>
    let s := c.render context
    if s.isEmpty then none else some s
  | none => none

def statement (d : Definition) (context : Context) : Statement :=
  { select := d.select, filter := d.filterSource? context, orderBy := d.orderBy,
    limit := d.limit, offset := d.offset, distinct := d.distinct }

end Definition

inductive Source where
  /-- A query, compiled in place with its own context. -/
  | query (definition : Definition)
  /-- Values, bound as a list of parameters. -/
  | values (items : List Value)
  /-- SQL of the caller, whose placeholders are bound from its own context. -/
  | sql (text : String) (context : Context)

/-- Sources by name; a name that is registered again is replaced. -/
abbrev Registry := Table Source

end PathQuery
