import PathQuery.Query

/-!
What can be done with a query, as data: changes of what it asks for, readings of its rows, and the
rest. A run is any sequence of these operations, with those that fail. Of what a query asks for
(`bare`), only changes alter anything.
-/

namespace PathQuery

/-- The steps that build a query. -/
inductive Change where
  | filter (condition : Condition)
  | orderBy (source : String)
  | limit (n : Nat)
  | offset (n : Nat)
  | distinct
  | context (values : Context)
  | joinType (path : String) (join : JoinType)
  | names (registry : Registry)
  | register (name : String) (source : Source)
  | validate (validator : Validator)

/-- The ways to read rows. -/
inductive Reading where
  | nextRow | nextRecord | tuples | scalars | dicts | csv | json | fetchAll
deriving DecidableEq, Repr

/-- What a reading gives. -/
inductive Reply where
  | row (row : Option Row)
  | record (record : Option Record)
  | rows (rows : List Row)
  | values (values : List Value)
  | records (records : List Record)
  | lines (lines : List String)
  | set (set : ResultSet)

inductive Operation where
  | change (change : Change)
  | rewind
  | compile
  | sql
  | count
  | value
  | get (key : Value)
  | read (reading : Reading)

/-- The change that an operation makes, if it is one. -/
def Operation.change? : Operation → Option Change
  | .change s => some s
  | _ => none

namespace Reading

/-- A reading of a query. -/
def perform (q : Query) : Reading → Except Error Reply × Query
  | .nextRow => q.nextRow.map (.map .row) id
  | .nextRecord => q.nextRecord.map (.map .record) id
  | .tuples => q.tuples.map (.map .rows) id
  | .scalars => q.scalars.map (.map .values) id
  | .dicts => q.dicts.map (.map .records) id
  | .csv => q.csv.map (.map .lines) id
  | .json => q.json.map (.map .lines) id
  | .fetchAll => q.fetchAll.map (.map .set) id

/-- The same reading of a cursor. -/
def onCursor (c : Cursor) : Reading → Except Error Reply × Cursor
  | .nextRow => c.nextRow.map (.map .row) id
  | .nextRecord => c.nextRecord.map (.map .record) id
  | .tuples => c.rows.map (.map .rows) id
  | .scalars => c.rows.map (.map fun rows => .values rows.flatten) id
  | .dicts => c.records.map (.map .records) id
  | .csv => c.rows.map (.map fun rows => .lines (rows.map Csv.line)) id
  | .json => c.records.map (.map fun records => .lines (records.map Record.line)) id
  | .fetchAll => (ResultSet.ofCursor c).map (.map .set) id

end Reading

namespace Query

variable {α β γ : Type}

/-! ### Runs -/

def change (q : Query) : Change → Query
  | .filter c => q.filter c
  | .orderBy source => q.orderBy source
  | .limit n => q.limit n
  | .offset n => q.offset n
  | .distinct => q.distinct
  | .context values => q.context values
  | .joinType path join => q.joinType path join
  | .names registry => q.names registry
  | .register name source => q.register name source
  | .validate validator => q.validate validator

/-- The query after an operation, whether it failed or not. -/
def after (q : Query) : Operation → Query
  | .change s => q.change s
  | .rewind => q.rewind
  | .compile => q.compile.2
  | .sql => q.sql.2
  | .count => q.count.2
  | .value => q.value.2
  | .get key => (q.get key).2
  | .read r => (r.perform q).2

def run (q : Query) (ops : List Operation) : Query :=
  ops.foldl after q

/-- What the query asks for, as a query that was never compiled or read. -/
def bare (q : Query) : Query :=
  { q with compiled := none, cursor := none, sent := [] }

/-! ### Readings are readings of the cursor -/

theorem reading_map (q : Query) (read : Cursor → Except Error α × Cursor) (f : α → β) :
    (q.reading read).map (.map f) id = q.reading fun c => (read c).map (.map f) id := by
  unfold reading
  rcases q.openCursor with ⟨e | c, q'⟩ <;> rfl

theorem scalars_eq (q : Query) : q.scalars = q.tuples.map (.map List.flatten) id := by
  unfold scalars
  rcases q.tuples with ⟨e | rows, q'⟩ <;> rfl

theorem csv_eq (q : Query) : q.csv = q.tuples.map (.map (List.map Csv.line)) id := by
  unfold csv
  rcases q.tuples with ⟨e | rows, q'⟩ <;> rfl

theorem json_eq (q : Query) : q.json = q.dicts.map (.map (List.map Record.line)) id := by
  unfold json map
  rcases q.dicts with ⟨e | records, q'⟩ <;> rfl

/-- Two changes of what was read are one. -/
theorem reading_map_map (q : Query) (read : Cursor → Except Error α × Cursor) (f : α → β)
    (g : β → γ) : ((q.reading read).map (.map f) id).map (.map g) id =
      q.reading fun c => (read c).map (.map (g ∘ f)) id := by
  rw [← reading_map]
  rcases q.reading read with ⟨e | x, q'⟩ <;> rfl

theorem perform_eq (q : Query) (r : Reading) : r.perform q = q.reading fun c => r.onCursor c := by
  cases r with
  | nextRow => exact reading_map q _ _
  | nextRecord => exact reading_map q _ _
  | tuples => exact reading_map q _ _
  | dicts => exact reading_map q _ _
  | fetchAll => exact reading_map q _ _
  | scalars =>
    rw [Reading.perform, scalars_eq]
    exact reading_map_map q _ _ _
  | csv =>
    rw [Reading.perform, csv_eq]
    exact reading_map_map q _ _ _
  | json =>
    rw [Reading.perform, json_eq]
    exact reading_map_map q _ _ _

/-! ### What operations leave as it is -/

theorem compile_bare (q : Query) : q.compile.2.bare = q.bare := by
  unfold compile
  split
  · rfl
  · split <;> rfl

theorem sql_state (q : Query) : q.sql.2 = q.compile.2 := by
  unfold sql
  rcases q.compile with ⟨e | c, q'⟩ <;> rfl

theorem send_bare (q : Query) (sql : Compiled → String) : (q.send sql).2.bare = q.bare := by
  have hbare := q.compile_bare
  unfold send
  split
  · rfl
  · revert hbare
    rcases q.compile with ⟨e | c, q'⟩ <;> intro hbare
    · exact hbare
    · dsimp only
      split <;> exact hbare

theorem openCursor_bare (q : Query) : q.openCursor.2.bare = q.bare := by
  have hbare := q.send_bare Compiled.sql
  unfold openCursor
  split
  · rfl
  · revert hbare
    rcases q.send Compiled.sql with ⟨e | ⟨c, source⟩, q'⟩ <;> exact id

theorem reading_bare (q : Query) (read : Cursor → Except Error α × Cursor) :
    (q.reading read).2.bare = q.bare := by
  have hbare := q.openCursor_bare
  revert hbare
  unfold reading
  rcases q.openCursor with ⟨e | c, q'⟩ <;> exact id

theorem count_state (q : Query) : q.count.2 = (q.send Compiled.countSql).2 := by
  unfold count
  rcases q.send Compiled.countSql with ⟨e | ⟨c, source⟩, q'⟩ <;> rfl

theorem value_state (q : Query) : q.value.2 = (q.rewind.reading Cursor.nextRow).2 := by
  unfold value nextRow
  rcases q.rewind.reading Cursor.nextRow with ⟨e | row, q'⟩ <;> rfl

theorem get_bare (q : Query) (key : Value) : (q.get key).2.bare = q.bare := by
  unfold get
  split <;> rfl

theorem change_bare (q : Query) (s : Change) : (q.change s).bare = q.bare.change s := by
  cases s <;> rfl

theorem after_bare (q : Query) (op : Operation) :
    (q.after op).bare = op.change?.toList.foldl change q.bare := by
  cases op with
  | change s => exact q.change_bare s
  | rewind => rfl
  | compile => exact q.compile_bare
  | sql => exact (congrArg bare q.sql_state).trans q.compile_bare
  | count => exact (congrArg bare q.count_state).trans (q.send_bare _)
  | value => exact (congrArg bare q.value_state).trans (q.rewind.reading_bare _)
  | get key => exact q.get_bare key
  | read r => exact (congrArg (bare ·.2) (q.perform_eq r)).trans (q.reading_bare _)

/-- A run asks for what its changes ask for. -/
theorem run_bare (q : Query) (ops : List Operation) :
    (q.run ops).bare = (ops.filterMap Operation.change?).foldl change q.bare := by
  induction ops generalizing q with
  | nil => rfl
  | cons op ops ih =>
    refine (ih (q.after op)).trans ?_
    rw [after_bare]
    cases h : op.change? <;> simp [h]

end Query
end PathQuery
