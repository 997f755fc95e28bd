import PathQuery.Text.Quoted
import PathQuery.Value

/-! Rows as lines of comma-separated values. Only fields that read as numbers stand bare. -/

namespace PathQuery.Csv

def field (text : String) : String :=
  if (Number.read? text.toList).isSome then text else Text.quoted '"' text

/-- The texts as a record, which ends with a line feed; without texts it has one empty field. -/
def record (texts : List String) : String :=
  (if texts.isEmpty then "\"\"" else Text.join "," (texts.map field)) ++ "\n"

def isBreak (c : Char) : Bool :=
  c == '\r' || c == '\n'

def line (row : List Value) : String :=
  .ofList ((record (row.map Value.display)).toList.reverse.dropWhile isBreak).reverse

end PathQuery.Csv
