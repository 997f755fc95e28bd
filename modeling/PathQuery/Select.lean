import PathQuery.Expr
import PathQuery.Relation

/-!
The plan of one SELECT: output columns, joined relations, filter and order, each fragment with the
expression that it was made from. A plan with an aggregate is grouped by the columns that read a
field and are no aggregates themselves.
-/

namespace PathQuery

structure Statement where
  select : String
  filter : Option String := none
  orderBy : Option String := none
  limit : Option Nat := none
  offset : Option Nat := none
  distinct : Bool := false
deriving DecidableEq, Repr

structure Fragment where
  expr : Expr
  sql : String
  readsField : Bool
deriving Repr

structure Select where
  /-- How many SELECTs stand around this one. -/
  depth : Nat
  /-- The named queries whose text this SELECT is part of, innermost first. -/
  trail : List String
  /-- The reference by which the enclosing row is known, in a correlated sub-query. -/
  outer : Option String
  columns : List (Fragment × String)
  relations : List Relation
  filter : Option Fragment
  orderBy : List (Fragment × Bool)
  aggregated : Bool
  distinct : Bool
  limit : Option Nat
  offset : Option Nat
deriving Repr

namespace Select

/-- Whether the outermost function of a fragment is an aggregate: the word before the first
parenthesis, once leading parentheses and blanks are gone. -/
def isAggregateSql (d : Dialect) (sql : String) : Bool :=
  let body := sql.toList.dropWhile fun c => c == '(' || Text.isBlank c
  let name := body.takeWhile (· != '(')
  if name.length < body.length then d.isAggregate (.ofList (Text.trimChars name)) else false

def distinctTexts : List String → List String
  | [] => []
  | s :: rest => s :: (distinctTexts rest).filter (· != s)

def groupColumns (d : Dialect) (fragments : List (String × Bool)) : List String :=
  distinctTexts ((fragments.filter fun f => f.2 && !isAggregateSql d f.1).map (·.1))

def groupBy (s : Select) (d : Dialect) : List String :=
  if s.aggregated then groupColumns d (s.columns.map fun c => (c.1.sql, c.1.readsField)) else []

def columnSql (c : Fragment × String) : String :=
  c.1.sql ++ " AS " ++ Text.quoteIdent c.2

def orderSql (t : Fragment × Bool) : String :=
  t.1.sql ++ if t.2 then " DESC" else " ASC"

def clause (word : String) (terms : List String) : String :=
  if terms.isEmpty then "" else word ++ Text.join ", " terms

/-- A bound on rows, where zero is no bound. -/
def bound (word : String) : Option Nat → String
  | some n => if n == 0 then "" else word ++ Text.ofNat n
  | none => ""

def fromSql : List Relation → String
  | [] => ""
  | master :: joined =>
    joined.foldl (fun sql r =>
      match r.joinSql? with
      | some join => sql ++ " " ++ join
      | none => sql) (" FROM " ++ master.tableSql)

def filterSql (filter : Option Fragment) : String :=
  match filter with
  | some f => if f.sql.isEmpty then "" else " WHERE " ++ f.sql
  | none => ""

def render (s : Select) (d : Dialect) : String :=
  "SELECT " ++ (if s.distinct then "DISTINCT " else "") ++
    Text.join ", " (s.columns.map columnSql) ++ fromSql s.relations ++ filterSql s.filter ++
    clause " GROUP BY " (s.groupBy d) ++ clause " ORDER BY " (s.orderBy.map orderSql) ++
    bound " LIMIT " s.limit ++ bound " OFFSET " s.offset

end Select
end PathQuery
