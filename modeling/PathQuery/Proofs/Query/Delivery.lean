import PathQuery.Proofs.Query.Current
import PathQuery.Proofs.Record.Columns

/-!
Readings hand out the rows of a source once and in order. Each reading takes the next row or all
that are left; what the readings of a run took, one after the other, is a beginning of the rows, as
long as the cursor has counted. After the end nothing is handed out and the source is not asked.
-/

namespace PathQuery

namespace RowSource

/-- The rows up to the end or to a failure. -/
def rows : RowSource → List Row
  | .ok (some row) :: rest => row :: rows rest
  | _ => []

/-- No request fails before the end. -/
def Sound : RowSource → Prop
  | .ok (some _) :: rest => Sound rest
  | .error _ :: _ => False
  | _ => True

theorem rows_length_le (source : RowSource) : (rows source).length ≤ source.length := by
  fun_induction rows source with
  | case1 row rest ih => simpa using ih
  | case2 => simp

theorem fetch_of_rows_nil {source : RowSource} (h : Sound source) (hrows : rows source = []) :
    ∃ left, fetch source = (.ok none, left) := by
  match source, h, hrows with
  | [], _, _ => exact ⟨[], rfl⟩
  | .ok none :: left, _, _ => exact ⟨left, rfl⟩

theorem fetch_of_rows_cons {source : RowSource} {row : Row} {more : List Row} (h : Sound source)
    (hrows : rows source = row :: more) :
    ∃ left, fetch source = (.ok (some row), left) ∧ Sound left ∧ rows left = more := by
  match source, h, hrows with
  | .ok (some _) :: left, h, rfl => exact ⟨left, rfl, h, rfl⟩

end RowSource

/-- The record of a row. -/
def keyed (columns : List String) (row : Row) : Record :=
  ⟨columns.zip row⟩

namespace Cursor

/-- The rows that are still to be handed out. -/
def rest (c : Cursor) : List Row :=
  if c.done then [] else RowSource.rows c.source

/-- Every row that is left can be handed out, as a row and as a record. -/
structure Sound (c : Cursor) : Prop where
  distinct : c.columns.Nodup
  source : c.done = false → RowSource.Sound c.source
  width : ∀ row ∈ c.rest, row.length = c.columns.length

/-- The cursor handed out `rows` and became `c'`. -/
structure Takes (c : Cursor) (rows : List Row) (c' : Cursor) : Prop where
  rest : c.rest = rows ++ c'.rest
  fetched : c'.fetched = c.fetched + rows.length
  columns : c'.columns = c.columns
  sound : c'.Sound

variable {α : Type} {c c' : Cursor} {row : Row} {rows more : List Row}

theorem Sound.takes_nil (h : c.Sound) : c.Takes [] c :=
  ⟨rfl, rfl, rfl, h⟩

theorem Takes.trans {c'' : Cursor} (h : c.Takes rows c') (h' : c'.Takes more c'') :
    c.Takes (rows ++ more) c'' where
  rest := by rw [h.rest, h'.rest, List.append_assoc]
  fetched := by rw [h'.fetched, h.fetched, List.length_append, Nat.add_assoc]
  columns := h'.columns.trans h.columns
  sound := h'.sound

theorem nextRow_done (h : c.done = true) : c.nextRow = (.ok none, c) := by
  simp [nextRow, h]

/-- At the end a request hands out nothing, and the end is known from then on. -/
theorem Sound.nextRow_nil (h : c.Sound) (hrest : c.rest = []) :
    ∃ c', c.nextRow = (.ok none, c') ∧ c.Takes [] c' ∧ c'.done = true := by
  rcases hdone : c.done with _ | _
  · have hrows : RowSource.rows c.source = [] := by simpa [rest, hdone] using hrest
    obtain ⟨left, hfetch⟩ := RowSource.fetch_of_rows_nil (h.source hdone) hrows
    refine ⟨{ c with source := left, done := true }, by simp [nextRow, hdone, hfetch],
      ⟨hrest, rfl, rfl, h.distinct, by simp, by simp [rest]⟩, rfl⟩
  · exact ⟨c, nextRow_done hdone, h.takes_nil, hdone⟩

/-- A request hands out the first row that is left. -/
theorem Sound.nextRow_cons (h : c.Sound) (hrest : c.rest = row :: more) :
    ∃ c', c.nextRow = (.ok (some row), c') ∧ c.Takes [row] c' := by
  rcases hdone : c.done with _ | _
  · have hrows : RowSource.rows c.source = row :: more := by simpa [rest, hdone] using hrest
    obtain ⟨left, hfetch, hsound, hleft⟩ :=
      RowSource.fetch_of_rows_cons (h.source hdone) hrows
    have hrest' : rest { c with source := left, fetched := c.fetched + 1 } = more := by
      simp [rest, hdone, hleft]
    refine ⟨{ c with source := left, fetched := c.fetched + 1 },
      by simp [nextRow, hdone, hfetch], ⟨by rw [hrest, hrest']; rfl, rfl, rfl, h.distinct,
      fun _ => hsound, ?_⟩⟩
    rw [hrest']
    intro r hr
    exact h.width r (hrest ▸ List.mem_cons_of_mem _ hr)
  · simp [rest, hdone] at hrest

/-- `next` hands out rows one by one in a shape. -/
structure Hands (next : Cursor → Except Error (Option α) × Cursor)
    (shape : List String → Row → α) : Prop where
  done : ∀ {c : Cursor}, c.done = true → next c = (.ok none, c)
  nil : ∀ {c : Cursor}, c.Sound → c.rest = [] →
    ∃ c', next c = (.ok none, c') ∧ c.Takes [] c' ∧ c'.done = true
  cons : ∀ {c : Cursor} {row : Row} {more : List Row}, c.Sound → c.rest = row :: more →
    ∃ c', next c = (.ok (some (shape c.columns row)), c') ∧ c.Takes [row] c'

theorem nextRow_hands : Hands nextRow fun _ row => row :=
  ⟨nextRow_done, Sound.nextRow_nil, Sound.nextRow_cons⟩

theorem nextRecord_hands : Hands nextRecord keyed where
  done h := by simp [nextRecord, nextRow_done h]
  nil h hrest := by
    obtain ⟨c', hnext, htakes⟩ := h.nextRow_nil hrest
    exact ⟨c', by simp [nextRecord, hnext], htakes⟩
  cons {c row more} h hrest := by
    obtain ⟨c', hnext, htakes⟩ := h.nextRow_cons hrest
    have hwidth : row.length = c.columns.length := h.width row (by simp [hrest])
    refine ⟨c', ?_, htakes⟩
    simp only [nextRecord, hnext, htakes.columns, Record.ofRow_of_nodup h.distinct hwidth]
    rfl

variable {next : Cursor → Except Error (Option α) × Cursor} {shape : List String → Row → α}

theorem Hands.drain_done (h : Hands next shape) (hdone : c.done = true) (n : Nat) :
    drain next (n + 1) c = (.ok [], c) := by
  simp [drain, h.done hdone]

/-- With requests to spare, everything that is left is handed out. -/
theorem Hands.drain (h : Hands next shape) (hc : c.Sound) {n : Nat} (hn : c.rest.length < n) :
    ∃ c', drain next n c = (.ok (c.rest.map (shape c.columns)), c') ∧ c.Takes c.rest c' ∧
      c'.done = true := by
  induction n generalizing c with
  | zero => omega
  | succ n ih =>
    -- one request more than rows, so the end is met before the requests run out
    rcases hrest : c.rest with _ | ⟨row, more⟩
    · obtain ⟨c', hnext, htakes⟩ := h.nil hc hrest
      exact ⟨c', by simp [Cursor.drain, hnext], htakes⟩
    · obtain ⟨c', hnext, htakes⟩ := h.cons hc hrest
      have hmore : c'.rest = more := by simpa [hrest] using htakes.rest.symm
      obtain ⟨c'', hdrain, htakes', hdone⟩ :=
        ih htakes.sound (by simp [hmore, hrest] at hn ⊢; omega)
      refine ⟨c'', ?_, hmore ▸ htakes.trans htakes', hdone⟩
      simp [Cursor.drain, hnext, hdrain, hmore, htakes.columns]

theorem rest_length_lt (c : Cursor) : c.rest.length < c.requests := by
  unfold rest requests
  split
  · simp
  · exact Nat.lt_succ_of_le (RowSource.rows_length_le c.source)

end Cursor

namespace Reading

/-- Whether a reading goes on to the end. -/
def drains : Reading → Bool
  | .nextRow => false
  | .nextRecord => false
  | _ => true

/-- The reply of a reading and the rows it stands for. -/
inductive Delivers (columns : List String) : Reading → Reply → List Row → Prop
  | nextRow (row : Option Row) : Delivers columns .nextRow (.row row) row.toList
  | nextRecord (row : Option Row) :
      Delivers columns .nextRecord (.record (row.map (keyed columns))) row.toList
  | tuples (rows : List Row) : Delivers columns .tuples (.rows rows) rows
  | scalars (rows : List Row) : Delivers columns .scalars (.values rows.flatten) rows
  | dicts (rows : List Row) : Delivers columns .dicts (.records (rows.map (keyed columns))) rows
  | csv (rows : List Row) : Delivers columns .csv (.lines (rows.map Csv.line)) rows
  | json (rows : List Row) :
      Delivers columns .json (.lines (rows.map fun row => (keyed columns row).line)) rows
  | fetchAll (rows : List Row) : Delivers columns .fetchAll (.set { columns, rows }) rows

/-- The replies of readings and the rows they stand for, one after the other. -/
inductive Delivered (columns : List String) :
    List Reading → List (Except Error Reply) → List Row → Prop
  | nil : Delivered columns [] [] []
  | cons {r : Reading} {rs : List Reading} {reply : Reply} {replies : List (Except Error Reply)}
      {rows more : List Row} (first : Delivers columns r reply rows)
      (others : Delivered columns rs replies more) :
      Delivered columns (r :: rs) (.ok reply :: replies) (rows ++ more)

variable {c c₁ c₂ : Cursor} {r : Reading} {columns : List String} {reply : Reply}
  {rows : List Row} {row : Option Row}

theorem onCursor_of_one (hr : r.drains = false) (hrow : c.nextRow = (.ok row, c₁))
    (hrecord : c.nextRecord = (.ok (row.map (keyed c.columns)), c₂)) :
    ∃ reply c', (c' = c₁ ∨ c' = c₂) ∧ r.onCursor c = (.ok reply, c') ∧
      Delivers c.columns r reply row.toList := by
  cases r with
  | nextRow => exact ⟨_, c₁, .inl rfl, by rw [onCursor, hrow]; rfl, .nextRow row⟩
  | nextRecord => exact ⟨_, c₂, .inr rfl, by rw [onCursor, hrecord]; rfl, .nextRecord row⟩
  | _ => cases hr

theorem onCursor_of_all (hr : r.drains = true) (hrows : c.rows = (.ok rows, c₁))
    (hrecords : c.records = (.ok (rows.map (keyed c.columns)), c₂))
    (hcolumns : c₁.columns = c.columns) :
    ∃ reply c', (c' = c₁ ∨ c' = c₂) ∧ r.onCursor c = (.ok reply, c') ∧
      Delivers c.columns r reply rows := by
  cases r with
  | nextRow => cases hr
  | nextRecord => cases hr
  | tuples => exact ⟨_, c₁, .inl rfl, by rw [onCursor, hrows]; rfl, .tuples rows⟩
  | scalars => exact ⟨_, c₁, .inl rfl, by rw [onCursor, hrows]; rfl, .scalars rows⟩
  | csv => exact ⟨_, c₁, .inl rfl, by rw [onCursor, hrows]; rfl, .csv rows⟩
  | dicts => exact ⟨_, c₂, .inr rfl, by rw [onCursor, hrecords]; rfl, .dicts rows⟩
  | json =>
    refine ⟨_, c₂, .inr rfl, ?_, .json rows⟩
    simp [onCursor, hrecords, Except.map, Function.comp_def]
  | fetchAll =>
    refine ⟨_, c₁, .inl rfl, ?_, .fetchAll rows⟩
    simp [onCursor, ResultSet.ofCursor, hrows, hcolumns, Except.map]

/-- After the end, every reading hands out nothing and leaves the cursor as it is. -/
theorem onCursor_done (r : Reading) (h : c.done = true) :
    ∃ reply, r.onCursor c = (.ok reply, c) ∧ Delivers c.columns r reply [] := by
  rcases hr : r.drains with _ | _
  · obtain ⟨reply, c', rfl | rfl, hspec⟩ := onCursor_of_one hr
      (Cursor.nextRow_done h) (Cursor.nextRecord_hands.done h)
    all_goals exact ⟨reply, hspec⟩
  · obtain ⟨reply, c', rfl | rfl, hspec⟩ := onCursor_of_all hr
      (Cursor.nextRow_hands.drain_done h _) (Cursor.nextRecord_hands.drain_done h _) rfl
    all_goals exact ⟨reply, hspec⟩

/-- A reading hands out the next row or all that are left. -/
theorem onCursor_sound (r : Reading) (h : c.Sound) :
    ∃ reply rows c', r.onCursor c = (.ok reply, c') ∧ Delivers c.columns r reply rows ∧
      c.Takes rows c' ∧ (r.drains = true → rows = c.rest) ∧
      (r.drains = true ∨ rows = [] → c'.done = true) := by
  rcases hr : r.drains with _ | _
  · rcases hrest : c.rest with _ | ⟨row, more⟩
    · obtain ⟨c₁, hrow, hend₁⟩ := h.nextRow_nil hrest
      obtain ⟨c₂, hrecord, hend₂⟩ := Cursor.nextRecord_hands.nil h hrest
      obtain ⟨reply, c', hc', hread, hdelivers⟩ := onCursor_of_one hr hrow hrecord
      have hend : c.Takes [] c' ∧ c'.done = true := by
        rcases hc' with rfl | rfl
        exacts [hend₁, hend₂]
      exact ⟨reply, [], c', hread, hdelivers, hend.1, by simp, fun _ => hend.2⟩
    · obtain ⟨c₁, hrow, htakes₁⟩ := h.nextRow_cons hrest
      obtain ⟨c₂, hrecord, htakes₂⟩ := Cursor.nextRecord_hands.cons h hrest
      obtain ⟨reply, c', hc', hread, hdelivers⟩ := onCursor_of_one hr hrow hrecord
      have htakes : c.Takes [row] c' := by
        rcases hc' with rfl | rfl
        exacts [htakes₁, htakes₂]
      exact ⟨reply, [row], c', hread, hdelivers, htakes, by simp, by simp⟩
  · obtain ⟨c₁, hrows, hend₁⟩ := Cursor.nextRow_hands.drain h c.rest_length_lt
    obtain ⟨c₂, hrecords, hend₂⟩ := Cursor.nextRecord_hands.drain h c.rest_length_lt
    rw [List.map_id'] at hrows
    obtain ⟨reply, c', hc', hread, hdelivers⟩ := onCursor_of_all hr hrows hrecords hend₁.1.columns
    have hend : c.Takes c.rest c' ∧ c'.done = true := by
      rcases hc' with rfl | rfl
      exacts [hend₁, hend₂]
    exact ⟨reply, c.rest, c', hread, hdelivers, hend.1, fun _ => rfl, fun _ => hend.2⟩

/-- A reply to a request for one row stands for nothing only if there was none. -/
theorem Delivers.eq_nil (h : Delivers columns r reply rows) {nothing : List Row}
    (h' : Delivers columns r reply nothing) (hnothing : nothing = [])
    (hr : r.drains = false) : rows = [] := by
  cases h with
  | nextRow row =>
    cases h'
    exact hnothing
  | nextRecord row =>
    generalize hreply : Reply.record (row.map (keyed columns)) = reply at h'
    cases h' with
    | nextRecord row' =>
      obtain rfl : row' = none := by simpa using hnothing
      simpa using hreply
  | _ => cases hr

end Reading

namespace Query

variable {q : Query} {c : Cursor}

/-- The readings one after the other, with their replies. -/
def readAll (q : Query) : List Reading → List (Except Error Reply) × Query
  | [] => ([], q)
  | r :: rs =>
    let (reply, q) := r.perform q
    let (replies, q) := q.readAll rs
    (reply :: replies, q)

/-- How many rows the cursor has handed out. -/
def fetched (q : Query) : Nat :=
  (q.cursor.map (·.fetched)).getD 0

/-- The query with another source under its cursor. -/
def onSource (q : Query) (source : RowSource) : Query :=
  { q with cursor := q.cursor.map ({ · with source }) }

theorem perform_held (hc : q.cursor = some c) (r : Reading) :
    r.perform q = ((r.onCursor c).1, { q with cursor := some (r.onCursor c).2 }) := by
  rw [perform_eq, reading, openCursor, hc]

/-- What the readings of a run hand out is what is taken from the cursor. -/
theorem readAll_held (hc : q.cursor = some c) (h : c.Sound) (rs : List Reading) :
    ∃ rows c', Reading.Delivered c.columns rs (q.readAll rs).1 rows ∧ c.Takes rows c' ∧
      (q.readAll rs).2 = { q with cursor := some c' } := by
  induction rs generalizing q c with
  | nil => exact ⟨[], c, .nil, h.takes_nil, by rw [← hc]; rfl⟩
  | cons r rs ih =>
    obtain ⟨reply, rows, c', hread, hdelivers, htakes, -⟩ := r.onCursor_sound h
    have hperform := perform_held hc r
    rw [hread] at hperform
    obtain ⟨more, c'', hmore, htakes', hstate⟩ :=
      ih (q := { q with cursor := some c' }) rfl htakes.sound
    simp only [readAll, hperform]
    exact ⟨rows ++ more, c'', .cons hdelivers (htakes.columns ▸ hmore), htakes.trans htakes',
      hstate⟩

/-- After the end, nothing is handed out and nothing changes. -/
theorem readAll_done (hc : q.cursor = some c) (h : c.done = true) (rs : List Reading) :
    ∃ replies, q.readAll rs = (replies, q) ∧ Reading.Delivered c.columns rs replies [] := by
  induction rs with
  | nil => exact ⟨[], rfl, .nil⟩
  | cons r rs ih =>
    obtain ⟨replies, hreplies, hdelivered⟩ := ih
    obtain ⟨reply, hread, hdelivers⟩ := r.onCursor_done h
    have hq : { q with cursor := some c } = q := by rw [← hc]
    have hperform : r.perform q = (.ok reply, q) := by rw [perform_held hc, hread, hq]
    exact ⟨.ok reply :: replies, by simp [readAll, hperform, hreplies], .cons hdelivers hdelivered⟩

/-- One more reading: it hands out all that is left if it goes on to the end, and once the end was
met no source is asked. -/
theorem perform_sound (hc : q.cursor = some c) (h : c.Sound) (r : Reading) :
    ∃ reply, (r.perform q).1 = .ok reply ∧
      (r.drains = true → r.Delivers c.columns reply c.rest ∧
        (r.perform q).2.fetched = c.fetched + c.rest.length) ∧
      (r.drains = true ∨ r.Delivers c.columns reply [] → ∀ later other, ∃ replies,
        ((r.perform q).2.onSource other).readAll later =
            (replies, (r.perform q).2.onSource other) ∧
          Reading.Delivered c.columns later replies []) := by
  obtain ⟨reply, rows, c', hread, hdelivers, htakes, hall, hdone⟩ := r.onCursor_sound h
  have hperform : r.perform q = (.ok reply, { q with cursor := some c' }) := by
    rw [perform_held hc, hread]
  rw [hperform]
  refine ⟨reply, rfl, fun hr => ?_, fun hend later other => ?_⟩
  · obtain rfl := hall hr
    exact ⟨hdelivers, htakes.fetched⟩
  · have hmet : c'.done = true := by
      rcases hr : r.drains with _ | _
      · have hnothing : r.Delivers c.columns reply [] := by simpa [hr] using hend
        exact hdone (.inr (hdelivers.eq_nil hnothing rfl hr))
      · exact hdone (.inl hr)
    rw [← htakes.columns]
    exact readAll_done (c := { c' with source := other }) rfl hmet later

/-! ### The first reading opens the cursor -/

theorem Current.openCursor_eq (h : q.Current) {compiled : Compiled} {run : Executor}
    {source : RowSource} (hcursor : q.cursor = none) (hbuild : q.build = .ok compiled)
    (hrun : q.db.executor = some run)
    (hsource : run compiled.sql compiled.parameters = .ok source) :
    let cursor : Cursor := { source, columns := compiled.aliases }
    q.openCursor = (.ok cursor, { q with
      compiled := some compiled, cursor := some cursor,
      sent := q.sent ++ [⟨compiled.sql, compiled.parameters⟩] }) := by
  simp [Query.openCursor, Query.send, hcursor, hrun, h.compile_eq, hbuild, hsource,
    Except.toOption]

variable {opened : Query}

theorem perform_opened (hopen : q.openCursor = (.ok c, opened)) (hc : opened.cursor = some c)
    (r : Reading) : r.perform q = r.perform opened := by
  rw [perform_held hc, perform_eq, reading, hopen]

/-- It makes no difference whether the cursor is opened by the first reading or before it. -/
theorem readAll_opened (hcursor : q.cursor = none) (hopen : q.openCursor = (.ok c, opened))
    (hc : opened.cursor = some c) (hfetched : c.fetched = 0) (rs : List Reading) :
    (q.readAll rs).1 = (opened.readAll rs).1 ∧
      (q.readAll rs).2.fetched = (opened.readAll rs).2.fetched ∧
      ∀ r : Reading, r.perform (q.readAll rs).2 = r.perform (opened.readAll rs).2 := by
  cases rs with
  | nil =>
    refine ⟨rfl, ?_, perform_opened hopen hc⟩
    simp [readAll, fetched, hcursor, hc, hfetched]
  | cons r rs =>
    have hread : q.readAll (r :: rs) = opened.readAll (r :: rs) := by
      rw [readAll, perform_opened hopen hc r]
      rfl
    rw [hread]
    exact ⟨rfl, rfl, fun _ => rfl⟩

/-- Readings of a source that does not fail hand out its rows once and in order. What a run of them
hands out is as many of the first rows as the cursor has counted; a reading that goes on to the end
hands out all the others; and once the end was met, every reading hands out nothing and changes
nothing, whatever the source would reply. -/
theorem readAll_in_order {q : Query} {db : Database} {definition : Definition}
    {before : List Operation} (hq : q = Query.run { db, definition } before)
    (hcursor : q.cursor = none) {compiled : Compiled} (hbuild : q.build = .ok compiled)
    {run : Executor} (hrun : q.db.executor = some run) {source : RowSource}
    (hsource : run compiled.sql compiled.parameters = .ok source) (hsound : RowSource.Sound source)
    (hwidth : ∀ row ∈ RowSource.rows source, row.length = compiled.aliases.length)
    (rs : List Reading) :
    let rows := RowSource.rows source
    let q' := (q.readAll rs).2
    q'.fetched ≤ rows.length ∧
      Reading.Delivered compiled.aliases rs (q.readAll rs).1 (rows.take q'.fetched) ∧
      ∀ r : Reading, ∃ reply, (r.perform q').1 = .ok reply ∧
        (r.drains = true → r.Delivers compiled.aliases reply (rows.drop q'.fetched) ∧
          (r.perform q').2.fetched = rows.length) ∧
        (r.drains = true ∨ r.Delivers compiled.aliases reply [] → ∀ later other, ∃ replies,
          ((r.perform q').2.onSource other).readAll later =
              (replies, (r.perform q').2.onSource other) ∧
            Reading.Delivered compiled.aliases later replies []) := by
  intro rows q'
  have hcurrent : q.Current := hq ▸ Current.run (.of_none rfl rfl) before
  have hdistinct : compiled.aliases.Nodup := by
    obtain ⟨context, m, -, -, hcompile⟩ := build_eq_ok_iff.1 hbuild
    exact compile_aliases_nodup hcompile
  have hstart : Cursor.Sound { source, columns := compiled.aliases } :=
    ⟨hdistinct, fun _ => hsound, hwidth⟩
  obtain ⟨opened, hopen, hheld⟩ : ∃ opened : Query,
      q.openCursor = (.ok { source, columns := compiled.aliases }, opened) ∧
        opened.cursor = some { source, columns := compiled.aliases } :=
    ⟨_, hcurrent.openCursor_eq hcursor hbuild hrun hsource, rfl⟩
  obtain ⟨hreplies, hfetched, hperform⟩ := readAll_opened hcursor hopen hheld rfl rs
  obtain ⟨taken, c, hdelivered, htakes, hstate⟩ := readAll_held hheld hstart rs
  -- the rows taken so far and the rows left are the rows of the source
  have hrows : rows = taken ++ c.rest := htakes.rest
  have hcount : q'.fetched = taken.length := by
    rw [hfetched, hstate]
    exact htakes.fetched.trans (Nat.zero_add _)
  have hleft : c.rest = rows.drop q'.fetched := by rw [hrows, hcount, List.drop_left]
  refine ⟨by simp [hrows, hcount], ?_, fun r => ?_⟩
  · rw [hreplies, hrows, hcount, List.take_left]
    exact hdelivered
  · rw [hperform, hstate]
    obtain ⟨reply, hreply, hall, hend⟩ := perform_sound (q := { opened with cursor := some c }) rfl
      htakes.sound r
    rw [htakes.columns] at hall hend
    refine ⟨reply, hreply, fun hr => ?_, hend⟩
    obtain ⟨hdelivers, htotal⟩ := hall hr
    refine ⟨hleft ▸ hdelivers, htotal.trans ?_⟩
    simp [hrows, htakes.fetched]

theorem readAll_in_order_shop :
    let q := Query.run { db := shopDatabase, definition := { model := "A", select := "id" } }
      [.read .tuples, .change (.limit 5)]
    let q' := (q.readAll [.nextRecord, .csv]).2
    ∃ compiled reply, q.build = .ok compiled ∧ compiled.aliases = ["id"] ∧ q'.fetched = 2 ∧
      Reading.Delivered ["id"] [.nextRecord, .csv] (q.readAll [.nextRecord, .csv]).1
        [[.int 1], [.int 2]] ∧
      (Reading.perform q' .scalars).1 = .ok reply ∧ Reading.Delivers ["id"] .scalars reply [] := by
  intro q q'
  have h : (q.cursor.isNone, q.build.toOption.map (·.aliases), q'.fetched) =
      (true, some ["id"], 2) := by decide +kernel
  simp only [Prod.mk.injEq, Option.isNone_iff_eq_none, Option.map_eq_some_iff,
    Steps.toOption_eq_some_iff] at h
  obtain ⟨hcursor, ⟨compiled, hbuild, haliases⟩, hfetched⟩ := h
  obtain ⟨-, hdelivered, hnext⟩ := readAll_in_order rfl hcursor hbuild rfl rfl trivial
    (by rw [haliases]; decide) [.nextRecord, .csv]
  obtain ⟨reply, hreply, hall, -⟩ := hnext .scalars
  obtain ⟨hdelivers, -⟩ := hall rfl
  rw [haliases, hfetched] at hdelivered hdelivers
  exact ⟨compiled, reply, hbuild, haliases, hfetched, hdelivered, hreply, hdelivers⟩

end Query
end PathQuery
