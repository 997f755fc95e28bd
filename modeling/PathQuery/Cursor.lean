import PathQuery.Record
import PathQuery.Text.Quoted

/-!
Reading the rows of a statement that was run. A cursor passes over them once; a result set keeps
them. What was read stays read when a later row fails.
-/

namespace PathQuery

/-- The replies of a running statement to the requests for its next row. After the last of them
every request meets the end. -/
abbrev RowSource := List (Except Error (Option Row))

namespace RowSource

def ofRows (rows : List Row) : RowSource :=
  rows.map fun r => .ok (some r)

def fetch : RowSource → Except Error (Option Row) × RowSource
  | [] => (.ok none, [])
  | reply :: rest => (reply, rest)

end RowSource

structure Cursor where
  source : RowSource
  columns : List String
  /-- How many rows were handed out. -/
  fetched : Nat := 0
  /-- Whether the end was met. -/
  done : Bool := false

namespace Cursor

/-- The next row, nothing at the end. The source is not asked again after its end. -/
def nextRow (c : Cursor) : Except Error (Option Row) × Cursor :=
  if c.done then (.ok none, c)
  else
    match RowSource.fetch c.source with
    | (.ok (some row), source) => (.ok (some row), { c with source, fetched := c.fetched + 1 })
    | (.ok none, source) => (.ok none, { c with source, done := true })
    | (.error e, source) => (.error e, { c with source })

def nextRecord (c : Cursor) : Except Error (Option Record) × Cursor :=
  match c.nextRow with
  | (.ok (some row), c) => ((Record.ofRow c.columns row).map some, c)
  | (.ok none, c) => (.ok none, c)
  | (.error e, c) => (.error e, c)

variable {α : Type}

/-- Everything up to the end or to the first failure, asking at most so many times. -/
def drain (next : Cursor → Except Error (Option α) × Cursor) :
    Nat → Cursor → Except Error (List α) × Cursor
  | 0, c => (.ok [], c)
  | n + 1, c =>
    match next c with
    | (.error e, c) => (.error e, c)
    | (.ok none, c) => (.ok [], c)
    | (.ok (some x), c) =>
      match drain next n c with
      | (.ok xs, c) => (.ok (x :: xs), c)
      | (.error e, c) => (.error e, c)

def requests (c : Cursor) : Nat :=
  c.source.length + 1

def rows (c : Cursor) : Except Error (List Row) × Cursor :=
  drain nextRow c.requests c

def records (c : Cursor) : Except Error (List Record) × Cursor :=
  drain nextRecord c.requests c

def replies : Nat → Cursor → List (Except Error Row) × Cursor
  | 0, c => ([], c)
  | n + 1, c =>
    match c.nextRow with
    | (.ok none, c) => ([], c)
    | (.ok (some row), c) =>
      let (rest, c) := replies n c
      (.ok row :: rest, c)
    | (.error e, c) =>
      let (rest, c) := replies n c
      (.error e :: rest, c)

/-- Every reply that is left; a failure does not end them. -/
def allReplies (c : Cursor) : List (Except Error Row) × Cursor :=
  replies c.requests c

def flagText (b : Bool) : String :=
  if b then "true" else "false"

def describe (c : Cursor) : String :=
  "Cursor \x7b columns: [" ++ Text.join ", " (c.columns.map fun s => Text.dump s.toList) ++
    "], fetched: " ++ Text.ofNat c.fetched ++ ", done: " ++ flagText c.done ++ " \x7d"

end Cursor

structure ResultSet where
  columns : List String
  rows : List Row
  position : Nat := 0

namespace ResultSet

def ofCursor (c : Cursor) : Except Error ResultSet × Cursor :=
  match c.rows with
  | (.ok rows, c) => (.ok { columns := c.columns, rows }, c)
  | (.error e, c) => (.error e, c)

def records (s : ResultSet) : Except Error (List Record) :=
  s.rows.mapM (Record.ofRow s.columns)

def nextRecord (s : ResultSet) : Except Error (Option Record) × ResultSet :=
  match s.rows[s.position]? with
  | some row => ((Record.ofRow s.columns row).map some, { s with position := s.position + 1 })
  | none => (.ok none, s)

def rewind (s : ResultSet) : ResultSet :=
  { s with position := 0 }

end ResultSet
end PathQuery
