import PathQuery.Dialect
import PathQuery.Schema.Model
import PathQuery.Text.Quoted

/-! Table instances of one SELECT and how they are joined. -/

namespace PathQuery

inductive JoinType where
  | left | right | inner
deriving DecidableEq, Repr

namespace JoinType

instance : Inhabited JoinType := ⟨.left⟩

def sql : JoinType → String
  | .left => "LEFT JOIN"
  | .right => "RIGHT JOIN"
  | .inner => "INNER JOIN"

def ofName? : String → Option JoinType
  | "left" => some .left
  | "right" => some .right
  | "inner" => some .inner
  | _ => none

end JoinType

structure ColumnRef where
  relation : String
  column : String
deriving DecidableEq, Repr

def ColumnRef.sql (c : ColumnRef) : String :=
  Text.quoteIdent c.relation ++ "." ++ Text.quoteIdent c.column

/-- The columns that have to be equal for a relation to be joined: one of an earlier relation and
one of its own. -/
structure Linkage where
  source : ColumnRef
  target : ColumnRef
deriving DecidableEq, Repr

def Linkage.sql (l : Linkage) : String :=
  l.source.sql ++ " = " ++ l.target.sql

/-- One table instance. The master relation has no linkage and an empty path; a link table has no
model. -/
structure Relation where
  model : Option String
  table : String
  knownAs : Option String := none
  path : String := ""
  join : JoinType := .left
  linkage : Option Linkage := none
deriving DecidableEq, Repr

namespace Relation

def master (m : Model) (knownAs : Option String) : Relation :=
  { model := some m.label, table := m.table, knownAs }

def reference (r : Relation) : String :=
  r.knownAs.getD r.table

def column (r : Relation) (name : String) : ColumnRef :=
  ⟨r.reference, name⟩

def tableSql (r : Relation) : String :=
  match r.knownAs with
  | some a => Text.quoteIdent r.table ++ " AS " ++ Text.quoteIdent a
  | none => Text.quoteIdent r.table

def joinSql? (r : Relation) : Option String :=
  r.linkage.map fun l => r.join.sql ++ " " ++ r.tableSql ++ " ON (" ++ l.sql ++ ")"

end Relation
end PathQuery
