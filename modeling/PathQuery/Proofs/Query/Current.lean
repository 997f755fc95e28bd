import PathQuery.Proofs.Query.Operation
import PathQuery.Proofs.Steps
import Mathlib.Data.List.Perm.Basic
import PathQuery.Sample.Small

/-!
What a query keeps is never out of date. Through every run, what is kept as compiled is what the
query compiles to now, and a cursor that is kept reads the rows of that statement. A statement is
sent only where rows are read and no cursor is kept, where rows are counted and where a key is
looked up.
-/

namespace PathQuery

/-- The cursors that requests for rows lead to. -/
inductive Cursor.Leads (start : Cursor) : Cursor → Prop
  | start : Leads start start
  | next {c : Cursor} : Leads start c → Leads start c.nextRow.2

namespace Cursor

theorem Leads.trans {a b c : Cursor} (hab : Leads a b) (hbc : Leads b c) : Leads a c := by
  induction hbc with
  | start => exact hab
  | next _ ih => exact ih.next

theorem nextRecord_state (c : Cursor) : c.nextRecord.2 = c.nextRow.2 := by
  unfold nextRecord
  rcases c.nextRow with ⟨e | _ | row, c'⟩ <;> rfl

theorem drain_leads {α : Type} {next : Cursor → Except Error (Option α) × Cursor}
    (hnext : ∀ c, (next c).2 = c.nextRow.2) (n : Nat) (c : Cursor) :
    Leads c (drain next n c).2 := by
  induction n generalizing c with
  | zero => exact .start
  | succ n ih =>
    have hfirst : Leads c (next c).2 := hnext c ▸ Leads.start.next
    unfold drain
    rcases h : next c with ⟨e | _ | x, c'⟩ <;> rw [h] at hfirst
    · exact hfirst
    · exact hfirst
    · have hrest := hfirst.trans (ih c')
      dsimp only
      revert hrest
      rcases drain next n c' with ⟨e | xs, c''⟩ <;> exact id

theorem ofCursor_state (c : Cursor) : (ResultSet.ofCursor c).2 = c.rows.2 := by
  unfold ResultSet.ofCursor
  rcases c.rows with ⟨e | rows, c'⟩ <;> rfl

end Cursor

theorem Reading.onCursor_leads (r : Reading) (c : Cursor) : c.Leads (r.onCursor c).2 := by
  have hrows : c.Leads c.rows.2 := Cursor.drain_leads (fun _ => rfl) _ c
  have hrecords : c.Leads c.records.2 := Cursor.drain_leads Cursor.nextRecord_state _ c
  cases r with
  | nextRow => exact Cursor.Leads.start.next
  | nextRecord => exact c.nextRecord_state ▸ Cursor.Leads.start.next
  | tuples => exact hrows
  | scalars => exact hrows
  | csv => exact hrows
  | fetchAll => exact c.ofCursor_state ▸ hrows
  | dicts => exact hrecords
  | json => exact hrecords

namespace Query

variable {α : Type} {q : Query}

/-! ### The invariant -/

/-- The context that the validator, if there is one, makes of the values given. -/
def InContext (q : Query) (context : Context) : Prop :=
  match q.validator with
  | none => context = q.definition.context
  | some validator =>
    List.Forall₂ (fun given made => made.1 = given.1 ∧ validator given.1 given.2 = .ok made.2)
      q.definition.context.entries context.entries

/-- `c` is what the compiler makes of the definition as it is now. -/
def CompilesTo (q : Query) (c : Compiled) : Prop :=
  ∃ context m, q.InContext context ∧ q.db.resolveModel q.definition.model = .ok m ∧
    PathQuery.compile q.registry (.top q.db.schema q.db.options m q.definition.joinTypes) context
      (q.definition.statement context) = .ok c

/-- The cursor reads the rows that the statement of `c` gave when it was sent. -/
def Opened (q : Query) (c : Compiled) (cursor : Cursor) : Prop :=
  ∃ run source, q.db.executor = some run ∧ run c.sql c.parameters = .ok source ∧
    ⟨c.sql, c.parameters⟩ ∈ q.sent ∧ Cursor.Leads { source, columns := c.aliases } cursor

/-- What is kept is up to date. -/
structure Current (q : Query) : Prop where
  compiled : ∀ c ∈ q.compiled, q.build = .ok c
  cursor : ∀ cursor ∈ q.cursor, ∃ c ∈ q.compiled, q.Opened c cursor

theorem validated_eq_ok_iff {validator : Validator} {given made : List (String × Value)} :
    validated validator given = .ok made ↔
      List.Forall₂ (fun g m => m.1 = g.1 ∧ validator g.1 g.2 = .ok m.2) given made := by
  induction given generalizing made with
  | nil => simp [validated, eq_comm]
  | cons g given ih =>
    obtain ⟨name, v⟩ := g
    rw [List.forall₂_cons_left_iff]
    unfold validated
    constructor
    · intro h
      split at h
      · cases h
      · next v' hv =>
        split at h
        · cases h
        · next rest hrest =>
          cases h
          exact ⟨(name, v'), rest, ⟨rfl, hv⟩, ih.1 hrest, rfl⟩
    · rintro ⟨⟨_, v'⟩, rest, ⟨rfl, hv⟩, hrest, rfl⟩
      rw [hv, ih.2 hrest]

/-- In what order the values stand makes no difference to whether they are all accepted and to what
becomes of each. It does to the error, which is that of the first value to be refused. -/
theorem validated_perm {validator : Validator} {given given' made : List (String × Value)}
    (hperm : given'.Perm given) (h : validated validator given = .ok made) :
    ∃ made', validated validator given' = .ok made' ∧ made'.Perm made := by
  obtain ⟨made', hmade, hperm⟩ := List.perm_comp_forall₂ hperm (validated_eq_ok_iff.1 h)
  exact ⟨made', validated_eq_ok_iff.2 hmade, hperm⟩

theorem validatedContext_eq_ok_iff {context : Context} :
    q.validatedContext = .ok context ↔ q.InContext context := by
  unfold validatedContext InContext
  rcases q.validator with _ | validator
  · simp [eq_comm]
  · dsimp only
    rw [← validated_eq_ok_iff]
    obtain ⟨entries⟩ := context
    cases validated validator q.definition.context.entries <;> simp

theorem build_eq_ok_iff {c : Compiled} : q.build = .ok c ↔ q.CompilesTo c := by
  unfold build CompilesTo Database.compile
  simp only [← validatedContext_eq_ok_iff]
  cases q.validatedContext with
  | error e => simp
  | ok context => cases q.db.resolveModel q.definition.model <;> simp

/-- A query that keeps nothing is not out of date. -/
theorem Current.of_none (hcompiled : q.compiled = none) (hcursor : q.cursor = none) :
    q.Current := by
  constructor <;> simp [hcompiled, hcursor]

/-! ### Compiling and sending -/

/-- The statement that is sent if nothing fails before. -/
def statements (q : Query) (sql : Compiled → String) : List Sent :=
  match q.db.executor, q.build with
  | some _, .ok c => [⟨sql c, c.parameters⟩]
  | _, _ => []

/-- Keeping what the query compiles to, and noting statements. -/
theorem Current.keep (h : q.Current) {kept : Option Compiled}
    (hkept : kept = q.compiled ∨ kept = q.build.toOption) (more : List Sent) :
    Current { q with compiled := kept, sent := q.sent ++ more } := by
  -- what was compiled before is what the query compiles to, so it is kept in both cases
  have hmem {c : Compiled} (hc : c ∈ q.compiled) : c ∈ kept := by
    rcases hkept with rfl | rfl
    · exact hc
    · rw [h.compiled c hc]
      rfl
  refine ⟨fun c hc => ?_, fun cursor hcursor => ?_⟩
  · show q.build = .ok c
    rcases hkept with rfl | rfl
    · exact h.compiled c hc
    · exact Steps.toOption_eq_some_iff.1 hc
  · obtain ⟨c, hc, run, source, hrun, hsource, hsent, hleads⟩ := h.cursor cursor hcursor
    exact ⟨c, hmem hc, run, source, hrun, hsource, List.mem_append_left _ hsent, hleads⟩

theorem Current.compile_eq (h : q.Current) :
    q.compile = (q.build, { q with compiled := q.build.toOption }) := by
  unfold compile
  rcases hc : q.compiled with _ | c
  · rcases hb : q.build with e | c
    · have hq : { q with compiled := none } = q := by rw [← hc]
      exact congrArg _ hq.symm
    · rfl
  · have hq : { q with compiled := some c } = q := by rw [← hc]
    rw [h.compiled c hc]
    exact congrArg _ hq.symm

/-- Everything that sending can come to. -/
theorem Current.send_cases (h : q.Current) (sql : Compiled → String) :
    (∃ e kept, (kept = q.compiled ∨ kept = q.build.toOption) ∧ q.send sql =
      (.error e, { q with compiled := kept, sent := q.sent ++ q.statements sql })) ∨
    ∃ run c source, q.db.executor = some run ∧ q.build = .ok c ∧
      run (sql c) c.parameters = .ok source ∧ q.statements sql = [⟨sql c, c.parameters⟩] ∧
      q.send sql =
        (.ok (c, source), { q with compiled := some c, sent := q.sent ++ q.statements sql }) := by
  unfold send
  rcases hx : q.db.executor with _ | run
  · exact .inl ⟨.noDatabase, q.compiled, .inl rfl, by simp [statements, hx]⟩
  · rw [h.compile_eq]
    rcases hb : q.build with e | c
    · exact .inl ⟨e, none, .inr rfl, by simp [statements, hx, hb, Except.toOption]⟩
    · rcases hr : run (sql c) c.parameters with e | source
      · exact .inl ⟨e, some c, .inr rfl, by simp [statements, hx, hb, hr, Except.toOption]⟩
      · exact .inr ⟨run, c, source, rfl, rfl, hr, by simp [statements, hx, hb],
          by simp [statements, hx, hb, hr, Except.toOption]⟩

theorem Current.send (h : q.Current) (sql : Compiled → String) :
    (q.send sql).2.Current ∧ (q.send sql).2.sent = q.sent ++ q.statements sql := by
  rcases h.send_cases sql with ⟨e, kept, hkept, hsend⟩ | ⟨_, c, _, _, hb, _, _, hsend⟩
  · rw [hsend]
    exact ⟨h.keep hkept _, rfl⟩
  · rw [hsend]
    exact ⟨h.keep (.inr (hb ▸ rfl)) _, rfl⟩

/-! ### Reading -/

/-- The statement that is sent to read rows, if there is no cursor yet. -/
def opening (q : Query) : List Sent :=
  if q.cursor.isSome then [] else q.statements Compiled.sql

theorem Current.openCursor (h : q.Current) :
    q.openCursor.2.Current ∧ q.openCursor.2.sent = q.sent ++ q.opening ∧
      ∀ c, q.openCursor.1 = .ok c → q.openCursor.2.cursor = some c := by
  unfold Query.openCursor
  rcases hcursor : q.cursor with _ | c
  · have hopening : q.opening = q.statements Compiled.sql := by simp [opening, hcursor]
    rw [hopening]
    rcases h.send_cases Compiled.sql with
      ⟨e, kept, hkept, hsend⟩ | ⟨run, c, source, hrun, hb, hsource, hsent, hsend⟩
    · rw [hsend]
      exact ⟨h.keep hkept _, rfl, by simp⟩
    · have hkeep := h.keep (.inr (show some c = _ from hb ▸ rfl)) (q.statements Compiled.sql)
      rw [hsend]
      -- the cursor is new, and its statement is the last that was sent
      refine ⟨⟨hkeep.compiled, ?_⟩, rfl, by simp⟩
      rintro _ ⟨⟩
      exact ⟨c, rfl, run, source, hrun, hsource, by simp [hsent], .start⟩
  · exact ⟨h, by simp [opening, hcursor], by simp [hcursor]⟩

/-- A cursor that is kept can be read on. -/
theorem Current.move (h : q.Current) {c c' : Cursor} (hc : q.cursor = some c)
    (hleads : c.Leads c') : Current { q with cursor := some c' } := by
  refine ⟨h.compiled, ?_⟩
  rintro _ ⟨⟩
  obtain ⟨compiled, hcompiled, run, source, hrun, hsource, hsent, hstart⟩ := h.cursor c hc
  exact ⟨compiled, hcompiled, run, source, hrun, hsource, hsent, hstart.trans hleads⟩

theorem Current.reading (h : q.Current) {read : Cursor → Except Error α × Cursor}
    (hread : ∀ c : Cursor, c.Leads (read c).2) :
    (q.reading read).2.Current ∧ (q.reading read).2.sent = q.sent ++ q.opening := by
  obtain ⟨hcurrent, hsent, hheld⟩ := h.openCursor
  unfold Query.reading
  rcases hopen : q.openCursor with ⟨e | c, q'⟩ <;> rw [hopen] at hcurrent hsent hheld
  · exact ⟨hcurrent, hsent⟩
  · exact ⟨hcurrent.move (hheld c rfl) (hread c), hsent⟩

/-! ### Runs -/

/-- The statements that an operation sends. A value is read from the start, with no cursor kept. -/
def sends (q : Query) : Operation → List Sent
  | .read _ => q.opening
  | .value => q.rewind.opening
  | .count => q.statements Compiled.countSql
  | .get key => if key.isPresent then (q.lookup key).opening else []
  | _ => []

theorem Current.rewind (h : q.Current) : q.rewind.Current :=
  ⟨h.compiled, by simp [Query.rewind]⟩

theorem current_change (q : Query) (s : Change) : (q.change s).Current := by
  cases s <;> exact .of_none rfl rfl

/-- Looking up a key changes nothing but what was sent. -/
theorem get_state (q : Query) (key : Value) :
    (q.get key).2 = { q with sent := q.sent ++ q.sends (.get key) } := by
  have hlookup : (q.lookup key).Current := .of_none rfl rfl
  have hread : (q.lookup key).nextRecord.2.sent = q.sent ++ (q.lookup key).opening :=
    (hlookup.reading fun c => c.nextRecord_state ▸ .next .start).2
  rcases hkey : key.isPresent with _ | _
  · simp [Query.get, sends, hkey]
  · simp [Query.get, sends, hkey, hread]

theorem Current.get (h : q.Current) (key : Value) :
    (q.get key).2.Current ∧ (q.get key).2.sent = q.sent ++ q.sends (.get key) := by
  rw [get_state]
  exact ⟨h.keep (.inl rfl) _, rfl⟩

theorem Current.after (h : q.Current) (op : Operation) :
    (q.after op).Current ∧ (q.after op).sent = q.sent ++ q.sends op := by
  have hcompile : q.compile.2.Current ∧ q.compile.2.sent = q.sent ++ [] := by
    rw [h.compile_eq, List.append_nil]
    exact ⟨by simpa using h.keep (.inr rfl) [], rfl⟩
  cases op with
  | change s =>
    refine ⟨q.current_change s, ?_⟩
    cases s <;> exact (List.append_nil _).symm
  | rewind => exact ⟨h.rewind, (List.append_nil _).symm⟩
  | compile => exact hcompile
  | sql =>
    rw [Query.after, sql_state]
    exact hcompile
  | count =>
    rw [Query.after, count_state]
    exact h.send _
  | value =>
    rw [Query.after, value_state]
    exact h.rewind.reading fun c => .next .start
  | get key => exact h.get key
  | read r =>
    rw [Query.after, perform_eq]
    exact h.reading r.onCursor_leads

theorem Current.run (h : q.Current) (ops : List Operation) : (q.run ops).Current := by
  induction ops generalizing q with
  | nil => exact h
  | cons op ops ih => exact ih (h.after op).1

theorem Current.sql_eq (h : q.Current) : q.sql.1 = q.build.map Compiled.sql := by
  unfold Query.sql
  rw [h.compile_eq]
  cases q.build <;> rfl

/-- What a query keeps after any run is up to date: the compiled statement is what the compiler
makes of the query as it is now, the cursor reads the rows of that statement, the text is that of a
query that was only built in the same way, and what the next operation sends is what `sends` says.
Where there is no text, the equality of the errors is for the same context in the same order: both
queries validate its values one after the other, and in another order another value may be the first
to be refused (`validated_perm` says what does not depend on the order). -/
theorem run_current (db : Database) (definition : Definition) (ops : List Operation) :
    let q := Query.run { db, definition } ops
    let built := (ops.filterMap Operation.change?).foldl change { db, definition }
    (∀ c ∈ q.compiled, q.CompilesTo c) ∧
      (∀ cursor ∈ q.cursor, ∃ c ∈ q.compiled, q.Opened c cursor) ∧
      q.bare = built ∧ q.sql.1 = built.sql.1 ∧
      ∀ op, (q.after op).sent = q.sent ++ q.sends op := by
  intro q built
  have hcurrent : q.Current := Current.run (.of_none rfl rfl) ops
  have hbare : q.bare = built := run_bare _ ops
  have hfresh : q.bare.Current := .of_none rfl rfl
  refine ⟨fun c hc => build_eq_ok_iff.1 (hcurrent.compiled c hc), hcurrent.cursor, hbare, ?_,
    fun op => (hcurrent.after op).2⟩
  rw [← hbare, hcurrent.sql_eq, hfresh.sql_eq]
  rfl

/-- A model, and a place to run statements that gives two rows for each. -/
def shopDatabase : Database where
  schema := ⟨[Sample.card]⟩
  executor := some fun _ _ => .ok (.ofRows [[.int 1], [.int 2]])

def shopRun : List Operation :=
  [.change (.context ⟨[("k", .int 7)]⟩), .change (.validate fun _ v => .ok v), .read .tuples,
    .change (.filter (.leaf "id < \x7bk\x7d")), .read .nextRow, .count, .get (.int 1), .rewind,
    .sql, .read .nextRecord]

theorem run_current_shop :
    let q : Query :=
      Query.run { db := shopDatabase, definition := { model := "A", select := "id" } } shopRun
    ∃ c cursor, q.compiled = some c ∧ q.cursor = some cursor ∧ cursor.fetched = 1 ∧
      q.sent.map (·.parameters.length) = [0, 1, 1, 2, 1] ∧ q.CompilesTo c ∧ q.Opened c cursor := by
  intro q
  have h : (q.cursor.map (·.fetched), q.sent.map (·.parameters.length)) =
      (some 1, [0, 1, 1, 2, 1]) := by decide +kernel
  simp only [Prod.mk.injEq, Option.map_eq_some_iff] at h
  obtain ⟨⟨cursor, hcursor, hfetched⟩, hsent⟩ := h
  obtain ⟨hcompiled, hopened, -⟩ := run_current shopDatabase _ shopRun
  obtain ⟨c, hc, hopen⟩ := hopened cursor hcursor
  exact ⟨c, cursor, hc, hcursor, hfetched, hsent, hcompiled c hc, hopen⟩

end Query
end PathQuery
