import PathQuery.Text.Edit

/-! What differs between the databases that statements are written for. -/

namespace PathQuery

inductive Dialect where
  | postgres | sqlite | generic
deriving DecidableEq, Repr

namespace Dialect

instance : Inhabited Dialect := ⟨.postgres⟩

def name : Dialect → String
  | .postgres => "postgres"
  | .sqlite => "sqlite"
  | .generic => "generic"

def ofName? (s : String) : Option Dialect :=
  [postgres, sqlite, generic].find? (·.name == s)

def ofUrl? (url : String) : Option Dialect :=
  if Text.startsWith "postgres://" url || Text.startsWith "postgresql://" url then some .postgres
  else if Text.startsWith "sqlite:" url then some .sqlite
  else none

def marker (d : Dialect) (index : Nat) : String :=
  match d with
  | .postgres => "$" ++ Text.ofNat index
  | .sqlite => "?" ++ Text.ofNat index
  | .generic => "?"

def aggregates : Dialect → List String
  | .postgres =>
    ["avg", "count", "max", "min", "sum", "stddev", "variance", "array_agg", "string_agg"]
  | .sqlite => ["avg", "count", "max", "min", "sum", "group_concat", "total"]
  | .generic => ["avg", "count", "max", "min", "sum"]

def isAggregate (d : Dialect) (function : String) : Bool :=
  d.aggregates.contains (Text.lowerBasic function)

def dateParts : List String :=
  ["year", "month", "day", "hour", "minute", "second", "week", "dow", "doy", "quarter"]

/-- The time format code that SQLite uses for a date part; the quarter comes from the month. -/
def formatCode (part : String) : String :=
  if part == "year" then "%Y"
  else if part == "month" || part == "quarter" then "%m"
  else if part == "day" then "%d"
  else if part == "hour" then "%H"
  else if part == "minute" then "%M"
  else if part == "second" then "%S"
  else if part == "week" then "%W"
  else if part == "dow" then "%w"
  else "%j"

def datePart? (d : Dialect) (part column : String) : Option String :=
  let part := Text.lowerBasic part
  if !dateParts.contains part then none
  else some <|
    match d with
    | .postgres => "date_part('" ++ part ++ "', " ++ column ++ ")"
    | .sqlite =>
      let extracted :=
        "CAST(strftime('" ++ formatCode part ++ "', " ++ column ++ ") AS INTEGER)"
      if part == "quarter" then "((" ++ extracted ++ " + 2) / 3)" else extracted
    | .generic => "EXTRACT(" ++ Text.upperBasic part ++ " FROM " ++ column ++ ")"

def ilike : Dialect → String
  | .postgres => "ILIKE"
  | _ => "LIKE"

def regexMatch : Dialect → String
  | .postgres => "~"
  | _ => "REGEXP"

end Dialect
end PathQuery
