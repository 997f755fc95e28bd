import PathQuery.Csv
import PathQuery.Database

/-!
Queries that are built step by step and read row by row. What was compiled and the cursor over the
rows are kept until a step changes the query. Each statement that is sent to the database is noted.
-/

namespace PathQuery

abbrev Validator := String → Value → Except Error Value

structure Sent where
  sql : String
  parameters : List Value

structure Query where
  db : Database
  definition : Definition
  registry : Registry := {}
  validator : Option Validator := none
  compiled : Option Compiled := none
  cursor : Option Cursor := none
  /-- The statements sent so far, oldest first. -/
  sent : List Sent := []

namespace Query

def start (db : Database) (model select : String) : Except Error Query :=
  match db.resolveModel model with
  | .ok m => .ok { db, definition := { model := m.label, select } }
  | .error e => .error e

/-! ### Building -/

def invalidate (q : Query) : Query :=
  { q with compiled := none, cursor := none }

def define (q : Query) (change : Definition → Definition) : Query :=
  invalidate { q with definition := change q.definition }

def filter (q : Query) (c : Condition) : Query :=
  q.define (·.filter c)

def orderBy (q : Query) (source : String) : Query :=
  q.define ({ · with orderBy := some source })

def limit (q : Query) (n : Nat) : Query :=
  q.define ({ · with limit := some n })

def offset (q : Query) (n : Nat) : Query :=
  q.define ({ · with offset := some n })

def distinct (q : Query) : Query :=
  q.define ({ · with distinct := true })

def context (q : Query) (values : Context) : Query :=
  q.define (·.withContext values)

def joinType (q : Query) (path : String) (join : JoinType) : Query :=
  q.define (·.withJoinType path join)

def names (q : Query) (registry : Registry) : Query :=
  invalidate { q with registry := q.registry.merge registry }

def register (q : Query) (name : String) (source : Source) : Query :=
  invalidate { q with registry := q.registry.insert name source }

def validate (q : Query) (validator : Validator) : Query :=
  invalidate { q with validator := some validator }

/-- Forgets what was read, but not what was compiled. -/
def rewind (q : Query) : Query :=
  { q with cursor := none }

/-! ### Compiling -/

/-- Each entry as the validator gives it, one after the other: the error is that of the first value
to be refused. -/
def validated (validator : Validator) :
    List (String × Value) → Except Error (List (String × Value))
  | [] => .ok []
  | (name, v) :: rest =>
    match validator name v with
    | .error e => .error e
    | .ok v =>
      match validated validator rest with
      | .error e => .error e
      | .ok rest => .ok ((name, v) :: rest)

def validatedContext (q : Query) : Except Error Context :=
  match q.validator with
  | some validator =>
    match validated validator q.definition.context.entries with
    | .ok entries => .ok ⟨entries⟩
    | .error e => .error e
  | none => .ok q.definition.context

def build (q : Query) : Except Error Compiled :=
  match q.validatedContext with
  | .ok context => q.db.compile q.registry q.definition context
  | .error e => .error e

def compile (q : Query) : Except Error Compiled × Query :=
  match q.compiled with
  | some c => (.ok c, q)
  | none =>
    match q.build with
    | .ok c => (.ok c, { q with compiled := some c })
    | .error e => (.error e, q)

def sql (q : Query) : Except Error String × Query :=
  match q.compile with
  | (.ok c, q) => (.ok c.sql, q)
  | (.error e, q) => (.error e, q)

/-! ### Running -/

def send (q : Query) (sql : Compiled → String) : Except Error (Compiled × RowSource) × Query :=
  match q.db.executor with
  | none => (.error .noDatabase, q)
  | some run =>
    match q.compile with
    | (.error e, q) => (.error e, q)
    | (.ok c, q) =>
      let q := { q with sent := q.sent ++ [⟨sql c, c.parameters⟩] }
      match run (sql c) c.parameters with
      | .ok source => (.ok (c, source), q)
      | .error e => (.error e, q)

def openCursor (q : Query) : Except Error Cursor × Query :=
  match q.cursor with
  | some c => (.ok c, q)
  | none =>
    match q.send Compiled.sql with
    | (.ok (c, source), q) =>
      let cursor : Cursor := { source, columns := c.aliases }
      (.ok cursor, { q with cursor := some cursor })
    | (.error e, q) => (.error e, q)

variable {α : Type}

/-- Reads from the cursor, which stays with the query even if reading fails. -/
def reading (q : Query) (read : Cursor → Except Error α × Cursor) : Except Error α × Query :=
  match q.openCursor with
  | (.ok c, q) =>
    let (result, c) := read c
    (result, { q with cursor := some c })
  | (.error e, q) => (.error e, q)

def nextRow (q : Query) : Except Error (Option Row) × Query :=
  q.reading Cursor.nextRow

def nextRecord (q : Query) : Except Error (Option Record) × Query :=
  q.reading Cursor.nextRecord

def tuples (q : Query) : Except Error (List Row) × Query :=
  q.reading Cursor.rows

def scalars (q : Query) : Except Error (List Value) × Query :=
  match q.tuples with
  | (.ok rows, q) => (.ok rows.flatten, q)
  | (.error e, q) => (.error e, q)

def dicts (q : Query) : Except Error (List Record) × Query :=
  q.reading Cursor.records

def map (q : Query) (f : Record → α) : Except Error (List α) × Query :=
  match q.dicts with
  | (.ok records, q) => (.ok (records.map f), q)
  | (.error e, q) => (.error e, q)

def decodeAll (decode : Json → Option α) : List Record → Except Error (List α)
  | [] => .ok []
  | r :: rest =>
    match decode (Record.toJson r) with
    | none => .error .wrongShape
    | some x =>
      match decodeAll decode rest with
      | .ok xs => .ok (x :: xs)
      | .error e => .error e

def objects (q : Query) (decode : Json → Option α) : Except Error (List α) × Query :=
  match q.dicts with
  | (.ok records, q) => (decodeAll decode records, q)
  | (.error e, q) => (.error e, q)

def csv (q : Query) : Except Error (List String) × Query :=
  match q.tuples with
  | (.ok rows, q) => (.ok (rows.map Csv.line), q)
  | (.error e, q) => (.error e, q)

def json (q : Query) : Except Error (List String) × Query :=
  q.map Record.line

def fetchAll (q : Query) : Except Error ResultSet × Query :=
  q.reading ResultSet.ofCursor

def iterate (q : Query) : Except Error (List (Except Error Row)) × Query :=
  q.reading fun c =>
    let (replies, c) := c.allReplies
    (.ok replies, c)

def value (q : Query) : Except Error (Option Value) × Query :=
  match q.rewind.nextRow with
  | (.ok row, q) => (.ok (row.bind List.head?), q)
  | (.error e, q) => (.error e, q)

def countIn (source : RowSource) : Except Error Int64 :=
  match (RowSource.fetch source).1 with
  | .error e => .error e
  | .ok row =>
    match (row.bind List.head?).bind Value.toInt64? with
    | some n => .ok n
    | none => .error (.execution "count returned no value")

def count (q : Query) : Except Error Int64 × Query :=
  match q.send Compiled.countSql with
  | (.ok (_, source), q) => (countIn source, q)
  | (.error e, q) => (.error e, q)

def keyName : String := "djaq_pk"

/-- The query for the one record with a key, with this query's columns and filter. -/
def lookup (q : Query) (key : Value) : Query :=
  let d := q.definition.filter (.leaf ("pk == " ++ Placeholder.token keyName))
  let d := d.withContext (.ofList [(keyName, key)])
  { q with definition := { d with limit := some 1, offset := none }, compiled := none,
           cursor := none }

/-- The record with a key, if the key is present. The query's own cursor stays where it is. -/
def get (q : Query) (key : Value) : Except Error (Option Record) × Query :=
  if !key.isPresent then (.ok none, q)
  else
    let (result, after) := (q.lookup key).nextRecord
    (result, { q with sent := after.sent })

end Query
end PathQuery
