import PathQuery.Database
import PathQuery.Settings
import PathQuery.Text.Lossy

/-! A database in memory: what parameters become on the way in and columns on the way out. -/

namespace PathQuery

inductive Cell where
  | null
  | bool (b : Bool)
  | int (n : Int64)
  | real (x : Float)
  | text (s : String)
  | blob (bytes : List UInt8)

namespace Sqlite

/-- A value as a parameter. Dates go as text, decimals as doubles, and lists not at all. -/
def bind : Value → Except Error Cell
  | .null => .ok .null
  | .bool b => .ok (.bool b)
  | .int n => .ok (.int n)
  | .float x => .ok (.real x)
  | .decimal d => .ok (.real d.toFloat)
  | .text s => .ok (.text s)
  | .date d => .ok (.text d.render)
  | .dateTime t => .ok (.text t.renderSeconds)
  | .list _ => .error (.execution "nested lists cannot be bound as a parameter")

/-- A column as a value. Whole numbers are read with 32 bits, and what is no number is null. -/
def decode : Cell → Value
  | .null => .null
  | .bool b => .int (if b then 1 else 0)
  | .int n => .int n.toInt32.toInt64
  | .real x => if x.isNaN then .null else .float x
  | .text s => .text s
  | .blob bytes => .text (Text.ofBytes bytes)

def selectValues (rows : List Row) : RowSource :=
  match rows.mapM (·.mapM bind) with
  | .ok cells => RowSource.ofRows (cells.map (·.map decode))
  | .error e => [.error e]

def memoryUrl : String := "sqlite::memory:"

def emptyExecutor : Executor := fun _ parameters =>
  match parameters.mapM bind with
  | .ok _ => .ok [.error .refused]
  | .error e => .ok [.error e]

def connect (url : String) : Except Error Executor :=
  if url == memoryUrl then .ok emptyExecutor else .error (.unreachable url)

inductive TableStatement where
  | create
  | insert (rows : Nat)
  | delete

/-- Runs a statement on a table that may be there, with its number of rows. Gives the number of
rows affected. -/
def runRaw (table : Option Nat) : TableStatement → Except Error Nat × Option Nat
  | .create => if table.isSome then (.error .refused, table) else (.ok 0, some 0)
  | .insert n =>
    match table with
    | some m => (.ok n, some (m + n))
    | none => (.error .refused, none)
  | .delete =>
    match table with
    | some m => (.ok m, some 0)
    | none => (.error .refused, none)

end Sqlite

namespace Database

def connect (url : String) (schema : Schema) : Except Error Database :=
  match Sqlite.connect url with
  | .ok run =>
    .ok { schema, options := { dialect := (Dialect.ofUrl? url).getD .generic },
          executor := some run }
  | .error e => .error e

def ofSettings (s : Settings) (files : Table String) : Except Error Database :=
  match s.schema with
  | none => .error .noSchemaFile
  | some path =>
    match files.get? path with
    | none => .error (.unreadable path)
    | some text =>
      match Schema.ofFile path text with
      | .error e => .error e
      | .ok schema =>
        match s.databaseUrl with
        | none => .ok { schema, options := s.options }
        | some url =>
          match Sqlite.connect url with
          | .ok run => .ok { schema, options := s.options, executor := some run }
          | .error e => .error e

end Database
end PathQuery
