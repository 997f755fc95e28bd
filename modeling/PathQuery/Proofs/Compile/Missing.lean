import PathQuery.Proofs.Compile.Run
import PathQuery.Proofs.Template.Places

/-!
Missing values before any is bound. A statement cannot be compiled for want of a value only if it
uses a registered source whose own context lacks a name: nothing else that can go wrong is of this
kind.
-/

namespace PathQuery

open Steps

/-- Something else than a missing value went wrong. -/
def Error.isOther (e : Error) : Bool :=
  e.kind != .missingParameter

/-! ### Reading -/

theorem Column.stripOuter_raises (cs : List Char) : Raises (·.isOther) (stripOuter cs) := by
  unfold stripOuter
  split
  · split
    · exact .error rfl
    · exact .ok _
    · exact .ok _
  · exact .ok _

theorem Column.ofParts_raises (columns : List Column) (parts : List (List Char)) :
    Raises (·.isOther) (ofParts columns parts) := by
  induction parts generalizing columns with
  | nil => exact .ok _
  | cons part parts ih =>
    simp only [ofParts]
    split
    · exact ih _
    · split
      · exact .error rfl
      · exact ih _

theorem Column.parseList_raises (source : String) : Raises (·.isOther) (parseList source) := by
  have hstrip := stripOuter_raises (Text.trimChars source.toList)
  unfold parseList
  split
  · next e he => exact .error (hstrip e he)
  · split
    · exact .error rfl
    · exact ofParts_raises _ _

theorem Expr.parse_raises (source : String) : Raises (·.isOther) (parse source) := by
  unfold parse
  dsimp only
  split
  · exact .error rfl
  · split
    · exact .ok _
    · exact .error rfl

theorem OrderTerm.ofParsed_raises (t : Expr × Option Bool) : Raises (·.isOther) (ofParsed t) := by
  unfold ofParsed
  split
  · exact .error rfl
  · exact .ok _
  · exact .ok _

theorem OrderTerm.ofAll_raises (ts : List (Expr × Option Bool)) :
    Raises (·.isOther) (ofAll ts) := by
  induction ts with
  | nil => exact .ok _
  | cons t ts ih =>
    unfold ofAll
    split
    · next e he => exact .error (ofParsed_raises t e he)
    · split
      · next e he => exact .error (ih e he)
      · exact .ok _

theorem OrderTerm.parseList_raises (source : String) : Raises (·.isOther) (parseList source) := by
  have hstrip := Column.stripOuter_raises (Text.trimChars source.toList)
  unfold parseList
  split
  · next e he => exact .error (hstrip e he)
  · exact .ok _
  · split
    · exact .error rfl
    · dsimp only
      split
      · exact ofAll_raises _
      · exact .error rfl

theorem Builtin.render_raises {b : Builtin} {name : String} {args : List String} {d : Dialect} :
    Raises (·.isOther) (b.render name args d) := by
  intro e he
  unfold render at he
  repeat' split at he
  all_goals cases he
  all_goals rfl

/-! ### Paths -/

theorem Schema.resolveModel_raises {schema : Schema} {name : String} {w : Option Whitelist} :
    Raises (·.isOther) (schema.resolveModel name w) := by
  unfold resolveModel
  dsimp only
  split
  · split
    · exact .ok _
    · exact .error rfl
  · exact .error rfl

theorem Schema.resolveField_raises {m : Model} {name : String} :
    Raises (·.isOther) (resolveField m name) := by
  unfold resolveField
  split
  · exact .ok _
  · exact .error rfl

namespace Join

variable {s : Scope} {r : Relation} {m : Model} {f : Field} {name path : String}

theorem lift_raises {α : Type} {P : Error → Prop} {x : Except Error α} (h : Raises P x) :
    StepsRaise P (lift x) := by
  intro rs
  cases x with
  | ok a => exact .ok _
  | error e => exact .error (h e rfl)

theorem modelOf_raises : Raises (·.isOther) (modelOf s r) := by
  unfold modelOf
  split
  · exact .ok _
  · exact .error rfl

theorem resolveModel_raises : Raises (·.isOther) (resolveModel s name) :=
  Schema.resolveModel_raises

theorem keyColumnOf_raises {field : Option String} : Raises (·.isOther) (keyColumnOf m field) := by
  cases field with
  | none => exact .ok _
  | some name =>
    have hfield : Raises (·.isOther) (Schema.resolveField m name) := Schema.resolveField_raises
    rw [keyColumnOf]
    cases h : Schema.resolveField m name with
    | ok f => exact .ok _
    | error e => exact .error (hfield e h)

theorem referencedColumn_raises : Raises (·.isOther) (referencedColumn m f) := by
  unfold referencedColumn
  split
  · exact keyColumnOf_raises
  · exact .ok _

theorem attach_raises {model : Option String} {table column : String} {join : JoinType}
    {source : ColumnRef} :
    StepsRaise (·.isOther) (attach s model table path join source column) :=
  fun _ => .ok _

theorem joinField_raises : StepsRaise (·.isOther) (joinField s r m f) := by
  intro rs
  unfold joinField
  dsimp only
  split
  · exact .ok _
  · rcases f.link with _ | (_ | _ | _)
    · exact .error rfl
    · refine StepsRaise.bind (lift_raises resolveModel_raises) (fun target => ?_) rs
      exact .bind (lift_raises keyColumnOf_raises) fun _ => attach_raises
    · refine StepsRaise.bind (lift_raises resolveModel_raises) (fun target => ?_) rs
      exact .bind attach_raises fun _ => attach_raises
    · refine StepsRaise.bind (lift_raises resolveModel_raises) (fun source => ?_) rs
      refine .bind (lift_raises Schema.resolveField_raises) fun key => ?_
      exact .bind (lift_raises referencedColumn_raises) fun _ => attach_raises

theorem lastField_raises : Raises (·.isOther) (lastField m name) := by
  unfold lastField
  split
  · split
    · exact .ok _
    · exact Schema.resolveField_raises
  · exact Schema.resolveField_raises

theorem terminal_raises : StepsRaise (·.isOther) (terminal s r name) := by
  refine .bind (lift_raises modelOf_raises) fun m => ?_
  refine .bind (lift_raises lastField_raises) fun f => ?_
  split
  · exact .pure _
  · exact .pure _
  · refine .bind (lift_raises resolveModel_raises) fun source => ?_
    refine .bind (lift_raises Schema.resolveField_raises) fun key => ?_
    exact .bind joinField_raises fun _ => .pure _
  · refine .bind (lift_raises resolveModel_raises) fun target => ?_
    exact .bind joinField_raises fun _ => .pure _

theorem follow_raises {walked segments : List String} :
    StepsRaise (·.isOther) (follow s walked r segments) := by
  induction segments generalizing walked r with
  | nil => exact .pure _
  | cons segment rest ih =>
    refine .bind (lift_raises modelOf_raises) fun m => ?_
    refine .bind (lift_raises Schema.resolveField_raises) fun f => ?_
    split
    · exact fun _ => .error rfl
    · exact .bind joinField_raises fun _ => ih

theorem datePart_raises : Raises (·.isOther) (datePart s r m f name) := by
  unfold datePart
  dsimp only
  split
  · exact .ok _
  · exact .error rfl

theorem walk_raises {segments : List String} : StepsRaise (·.isOther) (walk s segments) := by
  unfold walk
  split
  · exact fun _ => .error rfl
  · exact .bind terminal_raises fun _ => .pure _
  · refine .bind follow_raises fun r => ?_
    refine .bind (lift_raises modelOf_raises) fun m => ?_
    refine .bind (lift_raises Schema.resolveField_raises) fun f => ?_
    split
    · exact lift_raises datePart_raises
    · refine .bind joinField_raises fun joined => ?_
      exact .bind terminal_raises fun _ => .pure _

theorem dropModel_raises {rest : List String} : Raises (·.isOther) (dropModel s name rest) := by
  unfold dropModel
  split
  · exact .ok _
  · split
    · exact .ok _
    · split
      · split
        · exact .error rfl
        · next e he => exact .error (resolveModel_raises e he)
      · exact .ok _

theorem outerColumn_raises {o : Outer} : Raises (·.isOther) (outerColumn o name) := by
  unfold outerColumn
  split
  · next e he => exact .error (Schema.resolveField_raises e he)
  · split
    · exact .ok _
    · exact .error rfl

/-- No path fails for want of a value. -/
theorem resolvePath_raises {rest : List String} :
    StepsRaise (·.isOther) (resolvePath s name rest) := by
  unfold resolvePath
  split
  · exact lift_raises outerColumn_raises
  · exact .bind (lift_raises dropModel_raises) fun _ => walk_raises

end Join

/-! ### Statements -/

/-- The context that a source brings along. -/
def Source.context? : Source → Option Context
  | .query d => some d.context
  | .values _ => none
  | .sql _ context => some context

/-- A registered source has no value of its own for the name. -/
def Registry.Lacks (registry : Registry) (name : String) : Prop :=
  ∃ key source own, registry.get? key = some source ∧ source.context? = some own ∧
    own.get? name = none

namespace Compile

/-- If a value is missing, it is missing in a registered source. -/
def Excused (registry : Registry) (e : Error) : Prop :=
  ∀ name, e = .missingParameter name → registry.Lacks name

theorem excused_of_isOther {registry : Registry} {e : Error} (h : e.isOther) :
    Excused registry e := by
  rintro name rfl
  cases h

variable {f : Frame} {registry : Registry}

theorem lift_raises {α : Type} {P : Error → Prop} {x : Except Error α} (h : Raises P x) :
    StepsRaise P (lift x) := by
  intro g
  cases x with
  | ok a => exact .ok _
  | error e => exact .error (h e rfl)

/-- What fails for other reasons only is excused. -/
theorem lift_excused {α : Type} {x : Except Error α} (h : Raises (·.isOther) x) :
    StepsRaise (Excused registry) (lift x) :=
  lift_raises (h.mono fun _ => excused_of_isOther)

theorem fail_excused {α : Type} {e : Error} (h : e.isOther) :
    StepsRaise (Excused registry) (fail e : Action α) :=
  fun _ => .error (excused_of_isOther h)

theorem path_excused {head : String} {rest : List String} :
    StepsRaise (Excused registry) (path f head rest) := by
  intro g
  unfold path
  split
  · exact .ok _
  · next e he => exact .error (excused_of_isOther (Join.resolvePath_raises _ e he))

theorem moveToken_error {offset : Nat} {own : Option Context} {name : String} {st : List Value}
    {e : Error} (h : Splice.moveToken offset own name st = .error e) :
    e = .missingParameter name ∧ ∃ context, own = some context ∧ context.get? name = none := by
  unfold Splice.moveToken at h
  split at h
  · cases h
  · next context _ =>
    split at h
    · cases h
    · next hnone =>
      cases h
      exact ⟨rfl, context, rfl, hnone⟩
  · cases h

/-- A move misses values only in a context that the text brings along. -/
theorem move_error {sql : String} {carried before : List Value} {own : Option Context} {e : Error}
    (h : Splice.move sql carried own before = .error e) :
    ∃ name context, e = .missingParameter name ∧ own = some context ∧
      context.get? name = none := by
  rcases bind_error_iff.mp h with h | ⟨_, _, -, h⟩
  · obtain ⟨name, -, st, hfails⟩ := Sql.fill_error h
    obtain ⟨rfl, context, hown, hnone⟩ := moveToken_error hfails
    exact ⟨name, context, rfl, hown, hnone⟩
  · cases h

theorem splice_excused {sql : String} {carried : List Value} {own : Option Context}
    (hown : ∀ context, own = some context → ∀ name, context.get? name = none →
      registry.Lacks name) : StepsRaise (Excused registry) (splice sql carried own) := by
  intro g
  unfold splice
  split
  · exact .ok _
  · next e he =>
    obtain ⟨name, context, rfl, hcontext, hnone⟩ := move_error he
    refine .error ?_
    rintro _ ⟨⟩
    exact hown context hcontext name hnone

/-- Sub-queries miss values only in registered sources. -/
def NestedExcused (f : Frame) : Prop :=
  ∀ scope s, Raises (Excused f.registry) (f.nested scope s)

theorem subquery_excused (hf : NestedExcused f) {model : String} {correlated : Bool}
    {joinTypes : Table JoinType} {trail : List String} {s : Statement} {own : Option Context}
    (hown : ∀ context, own = some context → ∀ name, context.get? name = none →
      f.registry.Lacks name) :
    StepsRaise (Excused f.registry) (subquery f model correlated joinTypes trail s own) := by
  refine .bind (lift_excused Join.resolveModel_raises) fun m => ?_
  refine .bind .get fun g => ?_
  refine .bind (lift_raises (hf _ _)) fun t => ?_
  exact .bind (splice_excused hown) fun _ => .bind (.modify _) fun _ => .pure _

theorem subqueryCall_excused (hf : NestedExcused f) {args : List Expr} :
    StepsRaise (Excused f.registry) (subqueryCall f args) := by
  unfold subqueryCall
  split
  · exact subquery_excused hf (by simp)
  · exact subquery_excused hf (by simp)
  · exact fail_excused rfl

theorem named_excused (hf : NestedExcused f) {name : String} :
    StepsRaise (Excused f.registry) (named f name) := by
  unfold named
  split
  · exact fail_excused rfl
  · next d hd =>
    refine subquery_excused hf ?_
    rintro _ ⟨⟩ missing hnone
    exact ⟨name, .query d, d.context, hd, rfl, hnone⟩
  · exact fun g => .ok _
  · next text context hd =>
    refine splice_excused ?_
    rintro _ ⟨⟩ missing hnone
    exact ⟨name, .sql text context, context, hd, rfl, hnone⟩

theorem string_excused (hf : NestedExcused f) {text : String} :
    StepsRaise (Excused f.registry) (string f text) := by
  unfold string
  split
  · exact named_excused hf
  · split
    · exact .pure _
    · split
      · exact .pure _
      · exact fail_excused rfl

theorem call_excused {name : String} {args : List String} :
    StepsRaise (Excused registry) (call f name args) := by
  refine .bind (.modify _) fun _ => ?_
  split
  · exact lift_excused Builtin.render_raises
  · exact .pure _

mutual

theorem expr_excused (hf : NestedExcused f) : ∀ e : Expr, StepsRaise (Excused f.registry) (expr f e)
  | .path _ _ => path_excused
  | .number _ => .pure _
  | .str _ => string_excused hf
  | .bool _ => .pure _
  | .null => .pure _
  | .placeholder _ => .pure _
  | .star => .pure _
  | .call name args => by
    rw [expr]
    split
    · exact subqueryCall_excused hf
    · split
      · exact .bind (exprs_excused hf args) fun _ => call_excused
      · exact fail_excused rfl
  | .binary _ left right =>
    .bind (expr_excused hf left) fun _ => .bind (expr_excused hf right) fun _ => .pure _
  | .compare op left right => by
    refine .bind (expr_excused hf left) fun _ => ?_
    split
    · exact .pure _
    · exact .bind (expr_excused hf right) fun _ => .pure _
  | .logical _ operands => .bind (exprs_excused hf operands) fun _ => .pure _
  | .unary _ operand => .bind (expr_excused hf operand) fun _ => .pure _
  | .tuple items => .bind (exprs_excused hf items) fun _ => .pure _
  | .list items => .bind (exprs_excused hf items) fun _ => .pure _

theorem exprs_excused (hf : NestedExcused f) :
    ∀ es : List Expr, StepsRaise (Excused f.registry) (exprs f es)
  | [] => .pure _
  | e :: rest => .bind (expr_excused hf e) fun _ => .bind (exprs_excused hf rest) fun _ => .pure _

end

theorem fragment_excused (hf : NestedExcused f) (e : Expr) :
    StepsRaise (Excused f.registry) (fragment f e) := by
  intro g
  unfold fragment
  split
  · exact .ok _
  · next e' he => exact .error (expr_excused hf e g e' he)

theorem columns_excused (hf : NestedExcused f) (cs : List Column) :
    StepsRaise (Excused f.registry) (columns f cs) := by
  induction cs with
  | nil => exact .pure _
  | cons c rest ih =>
    have hcolumn : StepsRaise (Excused f.registry) (column f c) := by
      refine .bind (lift_excused (Expr.parse_raises _)) fun e => ?_
      exact .bind (fragment_excused hf e) fun _ => .pure _
    exact .bind hcolumn fun _ => .bind ih fun _ => .pure _

theorem filter_excused (hf : NestedExcused f) (source : Option String) :
    StepsRaise (Excused f.registry) (filter f source) := by
  cases source with
  | none => exact .pure _
  | some source =>
    rw [filter]
    split
    · exact .pure _
    · refine .bind (lift_excused (Expr.parse_raises _)) fun e => ?_
      exact .bind (fragment_excused hf e) fun _ => .pure _

theorem orderBy_excused (hf : NestedExcused f) (source : Option String) :
    StepsRaise (Excused f.registry) (orderBy f source) := by
  cases source with
  | none => exact .pure _
  | some source =>
    refine .bind (lift_excused (OrderTerm.parseList_raises _)) fun terms => ?_
    induction terms with
    | nil => exact .pure _
    | cons t rest ih => exact .bind (fragment_excused hf t.expr) fun _ => .bind ih fun _ => .pure _

theorem select_excused {nested : Nested} {scope : Scope} {s : Statement}
    (hnested : ∀ scope s, Raises (Excused registry) (nested scope s)) :
    Raises (Excused registry) (select registry nested scope s) := by
  have hf : NestedExcused ⟨scope, registry, nested⟩ := hnested
  unfold select
  split
  · next e he => exact .error (excused_of_isOther (Column.parseList_raises _ e he))
  · exact .error (excused_of_isOther rfl)
  · next cs _ _ =>
    split
    · next e he =>
      have hplan : StepsRaise (Excused registry) (plan ⟨scope, registry, nested⟩ s cs) := by
        refine .bind (columns_excused hf cs) fun _ => ?_
        refine .bind (filter_excused hf _) fun _ => ?_
        refine .bind (orderBy_excused hf _) fun _ => ?_
        exact .bind .get fun _ => .pure _
      exact .error (hplan _ e he)
    · exact .ok _

/-- A statement misses no value before it is bound, but for those of registered sources. -/
theorem template_excused {scope : Scope} {s : Statement} :
    Raises (Excused registry) (template registry scope s) := by
  have hwithin (n : Nat) :
      ∀ scope s, Raises (Excused registry) (templateWithin registry n scope s) := by
    induction n with
    | zero => exact fun scope s => select_excused fun _ _ => .error (excused_of_isOther rfl)
    | succ n ih => exact fun scope s => select_excused ih
  exact hwithin maxDepth scope s

end Compile

end PathQuery
