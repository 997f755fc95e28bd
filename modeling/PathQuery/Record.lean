import PathQuery.Error
import PathQuery.Value

/-! Rows, and rows keyed by the aliases of their columns. -/

namespace PathQuery

abbrev Row := List Value

/-- A row by column. A column that occurs twice keeps its first place and its last value. -/
abbrev Record := Table Value

namespace Record

def ofRow (columns : List String) (row : Row) : Except Error Record :=
  if columns.length == row.length then .ok (Table.ofList (columns.zip row))
  else .error (.rowWidth row.length columns.length)

def toJson (r : Record) : Json :=
  .obj (r.mapValues Value.toJson).entries

def line (r : Record) : String :=
  (toJson r).render

end Record
end PathQuery
