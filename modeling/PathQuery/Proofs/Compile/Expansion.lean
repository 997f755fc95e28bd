import Mathlib.Data.List.ReduceOption
import PathQuery.Proofs.Compile.Plan
import PathQuery.Sample.Small

/-!
Sub-queries inside sub-queries. What a statement asks for can be read off its sources: correlated
sub-queries, and registered queries by their names. Compiling expands all of it, each on the level
below, so a statement that compiles has no chain of expansions longer than the levels allow. A query
that came up again inside its own expansion would start such a chain over and over.
-/

namespace PathQuery

/-- A sub-query as it is asked for: by the name of a registered query, or written out. -/
structure Subselect where
  name? : Option String
  model : String
  statement : Statement
deriving DecidableEq, Repr

/-- The registered query of a name. -/
def Subselect.named (registry : Registry) (name : String) : Option Subselect :=
  match registry.get? name with
  | some (.query d) => some ⟨some name, d.model, d.statement d.context⟩
  | _ => none

/-- The sub-query that is written out in the arguments of a call. -/
def Subselect.correlated (args : List Expr) : Option Subselect :=
  match args.mapM Expr.text? with
  | some [model, select] => some ⟨none, model, { select }⟩
  | some [model, select, filter] => some ⟨none, model, { select, filter := some filter }⟩
  | _ => none

namespace Expr

mutual

/-- The sub-queries that an expression asks for, but not those inside them. -/
def subselects (registry : Registry) : Expr → List Subselect
  | .str text =>
    match text.toList with
    | '@' :: name => (Subselect.named registry (.ofList name)).toList
    | _ => []
  | .call name args =>
    if Compile.isSubquery name then (Subselect.correlated args).toList
    else allSubselects registry args
  | .binary _ left right => subselects registry left ++ subselects registry right
  | .compare _ left right => subselects registry left ++ subselects registry right
  | .logical _ operands => allSubselects registry operands
  | .unary _ operand => subselects registry operand
  | .tuple items => allSubselects registry items
  | .list items => allSubselects registry items
  | _ => []

def allSubselects (registry : Registry) : List Expr → List Subselect
  | [] => []
  | e :: rest => subselects registry e ++ allSubselects registry rest

end

end Expr

/-- A statement together with the model that it is about. -/
structure Task where
  model : Model
  statement : Statement

namespace Task

/-- The expressions in the sources of a statement, in the order in which they are compiled. -/
def trees (a : Task) : Except Error (List Expr) := do
  let columns ← Column.parseList (Compile.selectSource a.model a.statement.select)
  let columns ← columns.mapM fun c => Expr.parse c.expression
  let filter ← Compile.filterTree a.statement.filter
  let terms ← Compile.orderTrees a.statement.orderBy
  return columns ++ filter.toList ++ terms.map (·.expr)

def subselects (registry : Registry) (a : Task) : List Subselect :=
  match a.trees with
  | .ok es => Expr.allSubselects registry es
  | .error _ => []

theorem subselects_of_trees {registry : Registry} {a : Task} {es : List Expr}
    (h : a.trees = .ok es) : a.subselects registry = Expr.allSubselects registry es := by
  unfold subselects
  generalize a.trees = r at h
  subst h
  rfl

/-- The statement `a` asks for `b`, by the name of a registered query or written out. -/
def Calls (schema : Schema) (w : Option Whitelist) (registry : Registry) (name? : Option String)
    (a b : Task) : Prop :=
  ∃ q ∈ a.subselects registry, q.name? = name? ∧ schema.resolveModel q.model w = .ok b.model ∧
    b.statement = q.statement

/-- Statements of which each asks for the next, with the names that are expanded on the way, the
outermost first. -/
inductive Chain (schema : Schema) (w : Option Whitelist) (registry : Registry) :
    List (Option String) → Task → Task → Prop
  | nil (a : Task) : Chain schema w registry [] a a
  | cons {name? : Option String} {names : List (Option String)} {a b c : Task}
      (h : Calls schema w registry name? a b) (h' : Chain schema w registry names b c) :
      Chain schema w registry (name? :: names) a c

/-- No chain from `a` has more than `n` links. -/
def Bounded (schema : Schema) (w : Option Whitelist) (registry : Registry) (n : Nat)
    (a : Task) : Prop :=
  ∀ names b, Chain schema w registry names a b → names.length ≤ n

variable {schema : Schema} {w : Option Whitelist} {registry : Registry} {a b c : Task}
  {names more : List (Option String)}

theorem Chain.append (h : Chain schema w registry names a b)
    (h' : Chain schema w registry more b c) :
    Chain schema w registry (names ++ more) a c := by
  induction h with
  | nil => exact h'
  | cons hcall _ ih => exact .cons hcall (ih h')

theorem Chain.single {name? : Option String} (h : Calls schema w registry name? a b) :
    Chain schema w registry [name?] a b :=
  .cons h (.nil b)

theorem Chain.repeated (h : Chain schema w registry names a a) (k : Nat) :
    Chain schema w registry (List.replicate k names).flatten a a := by
  induction k with
  | zero => exact .nil a
  | succ k ih =>
    rw [List.replicate_succ, List.flatten_cons]
    exact h.append ih

/-- Where chains are bounded, none comes back to its start. -/
theorem Bounded.no_loop {n : Nat} (hb : Bounded schema w registry n a)
    (h : Chain schema w registry names a a) : names = [] := by
  have hlength := hb _ _ (h.repeated (n + 1))
  rw [List.length_flatten, List.map_replicate, List.sum_replicate_nat] at hlength
  rw [← List.length_eq_zero_iff]
  by_contra hpos
  have : n + 1 ≤ (n + 1) * names.length := Nat.le_mul_of_pos_right _ (by omega)
  omega

theorem Bounded.call {n : Nat} {name? : Option String} (hb : Bounded schema w registry n a)
    (h : Calls schema w registry name? a b) : Bounded schema w registry n b := by
  intro names c hc
  have := hb _ _ (.cons h hc)
  rw [List.length_cons] at this
  omega

end Task

/-- A sub-query with a name is the registered query of that name. -/
theorem Subselect.named_eq_some_iff {registry : Registry} {name : String} {q : Subselect} :
    Subselect.named registry name = some q ↔ ∃ d, registry.get? name = some (.query d) ∧
      q = ⟨some name, d.model, d.statement d.context⟩ := by
  unfold Subselect.named
  split
  · next d hd => simp [hd, eq_comm]
  · next hd =>
    simp only [reduceCtorEq, false_iff, not_exists, not_and]
    intro d hsome
    exact absurd hsome (hd d)

theorem Subselect.correlated_name? {args : List Expr} {q : Subselect}
    (h : Subselect.correlated args = some q) : q.name? = none := by
  unfold Subselect.correlated at h
  split at h
  · cases h
    rfl
  · cases h
    rfl
  · cases h

namespace Expr

mutual

theorem named_of_mem_subselects {registry : Registry} {q : Subselect} {name : String} :
    ∀ e : Expr, q ∈ e.subselects registry → q.name? = some name →
      Subselect.named registry name = some q
  | .path .., h, _ => by simp [subselects] at h
  | .number _, h, _ => by simp [subselects] at h
  | .str text, h, hname => by
    rw [subselects] at h
    split at h
    · have hq := Option.mem_toList.mp h
      obtain ⟨d, -, rfl⟩ := Subselect.named_eq_some_iff.mp hq
      rwa [← Option.some.inj hname]
    · cases h
  | .bool _, h, _ => by simp [subselects] at h
  | .null, h, _ => by simp [subselects] at h
  | .placeholder _, h, _ => by simp [subselects] at h
  | .star, h, _ => by simp [subselects] at h
  | .call _ args, h, hname => by
    rw [subselects] at h
    split at h
    · rw [Subselect.correlated_name? (Option.mem_toList.mp h)] at hname
      cases hname
    · exact named_of_mem_allSubselects args h hname
  | .binary _ left right, h, hname => by
    rw [subselects] at h
    rcases List.mem_append.mp h with h | h
    · exact named_of_mem_subselects left h hname
    · exact named_of_mem_subselects right h hname
  | .compare _ left right, h, hname => by
    rw [subselects] at h
    rcases List.mem_append.mp h with h | h
    · exact named_of_mem_subselects left h hname
    · exact named_of_mem_subselects right h hname
  | .logical _ operands, h, hname => by
    rw [subselects] at h
    exact named_of_mem_allSubselects operands h hname
  | .unary _ operand, h, hname => by
    rw [subselects] at h
    exact named_of_mem_subselects operand h hname
  | .tuple items, h, hname => by
    rw [subselects] at h
    exact named_of_mem_allSubselects items h hname
  | .list items, h, hname => by
    rw [subselects] at h
    exact named_of_mem_allSubselects items h hname

theorem named_of_mem_allSubselects {registry : Registry} {q : Subselect} {name : String} :
    ∀ es : List Expr, q ∈ allSubselects registry es → q.name? = some name →
      Subselect.named registry name = some q
  | [], h, _ => by simp [allSubselects] at h
  | e :: rest, h, hname => by
    rw [allSubselects] at h
    rcases List.mem_append.mp h with h | h
    · exact named_of_mem_subselects e h hname
    · exact named_of_mem_allSubselects rest h hname

end

end Expr

namespace Task

variable {schema : Schema} {w : Option Whitelist} {registry : Registry} {a a' b b' c : Task}
  {names : List (Option String)} {x y : String}

/-- Names with the same source ask for the same. -/
theorem Calls.target_eq (h : Calls schema w registry (some x) a b)
    (h' : Calls schema w registry (some y) a' b') (hxy : registry.get? x = registry.get? y) :
    b = b' := by
  have registered {z : String} {a b : Task} (h : Calls schema w registry (some z) a b) :
      ∃ d, registry.get? z = some (.query d) ∧ schema.resolveModel d.model w = .ok b.model ∧
        b.statement = d.statement d.context := by
    obtain ⟨q, hq, hname, hmodel, hstatement⟩ := h
    unfold subselects at hq
    split at hq
    · obtain ⟨d, hd, rfl⟩ :=
        Subselect.named_eq_some_iff.mp (Expr.named_of_mem_allSubselects _ hq hname)
      exact ⟨d, hd, hmodel, hstatement⟩
    · cases hq
  obtain ⟨d, hd, hm, hs⟩ := registered h
  obtain ⟨d', hd', hm', hs'⟩ := registered h'
  obtain rfl : d = d' := by
    rw [hd, hd'] at hxy
    cases hxy
    rfl
  obtain ⟨m, s⟩ := b
  obtain ⟨m', s'⟩ := b'
  rw [hm, Except.ok.injEq] at hm'
  simp only at hm' hs hs'
  rw [hm', hs, hs']

/-- A name on a chain is asked for somewhere along it. -/
theorem Chain.call_of_mem (h : Chain schema w registry names a c) (hy : some y ∈ names) :
    ∃ front mid b, Chain schema w registry front a mid ∧
      Calls schema w registry (some y) mid b := by
  induction h with
  | nil => cases hy
  | @cons _ _ a b _ hcall _ ih =>
    rcases List.mem_cons.mp hy with rfl | hy
    · exact ⟨[], a, b, .nil a, hcall⟩
    · obtain ⟨front, mid, b, hfront, hb⟩ := ih hy
      exact ⟨_, mid, b, .cons hcall hfront, hb⟩

/-- Where chains are bounded, the names on each have different sources: of two with the same, the
second would close a loop. -/
theorem Bounded.pairwise {n : Nat} (hb : Bounded schema w registry n a)
    (h : Chain schema w registry names a b) :
    names.reduceOption.Pairwise fun x y => registry.get? x ≠ registry.get? y := by
  induction h with
  | nil => exact .nil
  | @cons name? names a b _ hcall htail ih =>
    have htail' := ih (hb.call hcall)
    cases name? with
    | none => rwa [List.reduceOption_cons_of_none]
    | some x =>
      rw [List.reduceOption_cons_of_some, List.pairwise_cons]
      refine ⟨?_, htail'⟩
      intro y hy hxy
      obtain ⟨front, mid, b', hfront, hcall'⟩ :=
        htail.call_of_mem (List.reduceOption_mem_iff.mp hy)
      obtain rfl := hcall.target_eq hcall' hxy
      have hnil := (hb.call hcall).no_loop (hfront.append (.single hcall'))
      simp at hnil

end Task

namespace Compile

open Steps

variable {f : Frame} {g g' : Gathered}

/-- The scope in which a sub-query is compiled. -/
structure Frame.Asks (f : Frame) (q : Subselect) (scope : Scope) : Prop where
  schema : scope.schema = f.scope.schema
  options : scope.options = f.scope.options
  model : Join.resolveModel f.scope q.model = .ok scope.model
  depth : scope.depth = f.scope.depth + 1
  trail : scope.trail = q.name?.toList ++ f.scope.trail

/-- The sub-queries are compiled one after the other, and these are their plans. -/
inductive Answered (f : Frame) : List Subselect → List Select → Prop
  | nil : Answered f [] []
  | cons {q : Subselect} {qs : List Subselect} {scope : Scope} {t : Template}
      {plans : List Select} (hq : f.Asks q scope) (ht : f.nested scope q.statement = .ok t)
      (h : Answered f qs plans) : Answered f (q :: qs) (t.select :: t.nested ++ plans)

theorem Answered.append {qs qs' : List Subselect} {plans plans' : List Select}
    (h : Answered f qs plans) (h' : Answered f qs' plans') :
    Answered f (qs ++ qs') (plans ++ plans') := by
  induction h with
  | nil => exact h'
  | cons hq ht _ ih =>
    rw [List.append_assoc]
    exact .cons hq ht ih

/-- What is asked for is compiled, and its plans are among those gathered. -/
theorem Answered.of_mem {qs : List Subselect} {plans : List Select} {q : Subselect}
    (h : Answered f qs plans) (hq : q ∈ qs) :
    ∃ scope t, f.Asks q scope ∧ f.nested scope q.statement = .ok t ∧
      t.select :: t.nested ⊆ plans := by
  induction h with
  | nil => cases hq
  | @cons _ _ scope t _ hasks ht _ ih =>
    rcases List.mem_cons.mp hq with rfl | hq
    · exact ⟨scope, t, hasks, ht, List.subset_append_left ..⟩
    · obtain ⟨scope, t, hasks, ht, hsub⟩ := ih hq
      exact ⟨scope, t, hasks, ht, List.subset_append_of_subset_right _ hsub⟩

/-- Each plan that is gathered comes from something asked for. -/
theorem Answered.of_mem_plans {qs : List Subselect} {plans : List Select} {plan : Select}
    (h : Answered f qs plans) (hp : plan ∈ plans) :
    ∃ q ∈ qs, ∃ scope t, f.Asks q scope ∧ f.nested scope q.statement = .ok t ∧
      plan ∈ t.select :: t.nested := by
  induction h with
  | nil => cases hp
  | @cons q _ scope t _ hasks ht _ ih =>
    rcases List.mem_append.mp hp with hp | hp
    · exact ⟨q, by simp, scope, t, hasks, ht, hp⟩
    · obtain ⟨q, hq, hrest⟩ := ih hp
      exact ⟨q, List.mem_cons_of_mem _ hq, hrest⟩

/-- The plans gathered between two states are those of the sub-queries asked for. -/
def Expands (f : Frame) (qs : List Subselect) (g g' : Gathered) : Prop :=
  ∃ plans, g'.nested = g.nested ++ plans ∧ Answered f qs plans

theorem expands_of_nested_eq (h : g'.nested = g.nested) : Expands f [] g g' :=
  ⟨[], by simp [h], .nil⟩

theorem Expands.trans {qs qs' : List Subselect} {mid : Gathered} (h : Expands f qs g mid)
    (h' : Expands f qs' mid g') : Expands f (qs ++ qs') g g' := by
  obtain ⟨plans, hplans, hanswered⟩ := h
  obtain ⟨plans', hplans', hanswered'⟩ := h'
  exact ⟨plans ++ plans', by rw [hplans', hplans, List.append_assoc],
    hanswered.append hanswered'⟩

theorem subquery_expands (name? : Option String) {model sql : String} {correlated : Bool}
    {joinTypes : Table JoinType} {s : Statement} {own : Option Context}
    (h : subquery f model correlated joinTypes (name?.toList ++ f.scope.trail) s own g
      = .ok (sql, g')) : Expands f [⟨name?, model, s⟩] g g' := by
  obtain ⟨m, t, _, _, hm, ht, -, -, rfl⟩ := subquery_ok h
  refine ⟨t.select :: t.nested ++ [], by simp, .cons ?_ ht .nil⟩
  exact ⟨rfl, rfl, hm, rfl, rfl⟩

theorem subqueryCall_expands {args : List Expr} {sql : String}
    (h : subqueryCall f args g = .ok (sql, g')) :
    Expands f (Subselect.correlated args).toList g g' := by
  obtain ⟨model, select, filter, hargs, h⟩ := subqueryCall_ok h
  have hcorrelated : Subselect.correlated args = some ⟨none, model, { select, filter }⟩ := by
    cases filter <;> simp [Subselect.correlated, hargs]
  rw [hcorrelated]
  exact subquery_expands none h

theorem named_expands {name sql : String} (h : named f name g = .ok (sql, g')) :
    Expands f (Subselect.named f.registry name).toList g g' := by
  obtain ⟨d, hd, h⟩ | ⟨_, hd, -, rfl⟩ | ⟨_, _, hd, h⟩ := named_cases h
  · simp only [Subselect.named, hd]
    exact subquery_expands (some name) h
  · simp only [Subselect.named, hd]
    exact expands_of_nested_eq rfl
  · obtain ⟨_, _, -, -, rfl⟩ := splice_ok_iff.mp h
    simp only [Subselect.named, hd]
    exact expands_of_nested_eq rfl

theorem string_expands {text sql : String} (h : string f text g = .ok (sql, g')) :
    Expands f ((Expr.str text).subselects f.registry) g g' := by
  rw [Expr.subselects]
  split
  · next name hname =>
    rw [string, hname] at h
    exact named_expands h
  · next hname =>
    obtain ⟨name, htext, -⟩ | ⟨-, ⟨-, rfl⟩ | ⟨-, -, -, rfl⟩⟩ := string_cases h
    · exact absurd htext (hname name)
    · exact expands_of_nested_eq rfl
    · exact expands_of_nested_eq rfl

/-- What a short comparison does not compile asks for nothing. -/
theorem shortComparison?_subselects {op : CompareOp} {right : Expr} {rest : String}
    (h : shortComparison? op right = some rest) (registry : Registry) :
    right.subselects registry = [] := by
  cases right with
  | str text =>
    rw [Expr.subselects]
    split
    · next name hname => cases op <;> simp [shortComparison?, globPattern?, hname] at h
    · rfl
  | null => simp [Expr.subselects]
  | _ => cases op <;> cases h

/-- Compiling an expression expands the sub-queries that it asks for. -/
theorem expands_cases (f : Frame) : Cases f (fun _ => True)
    (fun e g _ g' => Expands f (e.subselects f.registry) g g')
    (fun es g _ g' => Expands f (Expr.allSubselects f.registry es) g g') where
  operand _ _ := trivial
  path h := by
    obtain ⟨_, _, -, -, rfl⟩ := path_ok_iff.mp h
    exact expands_of_nested_eq rfl
  number _ _ := expands_of_nested_eq rfl
  str _ h := string_expands h
  bool _ _ := expands_of_nested_eq rfl
  null _ := expands_of_nested_eq rfl
  placeholder _ _ := expands_of_nested_eq rfl
  star _ := expands_of_nested_eq rfl
  subquery _ hsub h := by
    rw [Expr.subselects, if_pos hsub]
    exact subqueryCall_expands h
  call _ hsub _ hargs h := by
    rw [Expr.subselects, if_neg (Bool.eq_false_iff.mp hsub), call_state h]
    exact hargs
  binary _ hl hr := hl.trans hr
  short _ hs hl := by
    rw [Expr.subselects, shortComparison?_subselects hs, List.append_nil]
    exact hl
  compare _ hl hr := hl.trans hr
  logical h := h
  unary h := h
  tuple h := h
  list h := h
  nil _ := expands_of_nested_eq rfl
  cons _ h hrest := h.trans hrest

/-- The expressions of a statement are those of the fragments of its plan. -/
theorem Written.task_trees {scope : Scope} {s : Statement} {t : Template} (h : Written scope s t) :
    Task.trees ⟨scope.model, s⟩ = .ok (t.select.parts.map (·.expr)) := by
  have hcolumns : t.columns.mapM (fun c => Expr.parse c.expression)
      = .ok (t.select.columns.map (·.1.expr)) := by
    have htrees := h.trees
    generalize t.columns = cs, t.select.columns = ps at htrees
    induction htrees with
    | nil => rfl
    | cons hread _ ih => simp only [List.mapM_cons, hread.1, ih]; rfl
  simp only [Task.trees, h.columns, hcolumns, h.filter, h.orderBy, bind, Except.bind, pure,
    Except.pure, Select.parts, List.map_append, List.map_map, Option.toList_map]
  rfl

/-- Compiling a statement compiles everything that it asks for. -/
theorem select_answered {registry : Registry} {nested : Nested} {scope : Scope} {s : Statement}
    {t : Template} (h : select registry nested scope s = .ok t) :
    Answered ⟨scope, registry, nested⟩ (Task.subselects registry ⟨scope.model, s⟩) t.nested := by
  obtain ⟨hwritten, -, g, hrow, -, -, hnested, -⟩ := select_row h
  obtain ⟨plans, hplans, hanswered⟩ :=
    (expands_cases _).exprs _ (fun _ _ => trivial) hrow.exprs
  rw [List.nil_append] at hplans
  rw [Task.subselects_of_trees hwritten.task_trees, hnested, hplans]
  exact hanswered

section Levels

variable {registry : Registry} {nested : Nested} {scope inner : Scope} {s : Statement}
  {t : Template} {q : Subselect} {names : List (Option String)} {b : Task}

theorem Frame.Asks.calls (h : Frame.Asks ⟨scope, registry, nested⟩ q inner)
    (hq : q ∈ Task.subselects registry ⟨scope.model, s⟩) :
    Task.Calls scope.schema scope.options.whitelist registry q.name? ⟨scope.model, s⟩
      ⟨inner.model, q.statement⟩ :=
  ⟨q, hq, rfl, h.model, rfl⟩

/-- A statement that compiles has compiled the next on every chain from it. -/
theorem select_chain_cons {name? : Option String} {a : Task}
    (h : select registry nested scope s = .ok t)
    (hcall : Task.Calls scope.schema scope.options.whitelist registry name? ⟨scope.model, s⟩ a)
    (htail : Task.Chain scope.schema scope.options.whitelist registry names a b) :
    ∃ inner t', nested inner a.statement = .ok t' ∧ t'.select :: t'.nested ⊆ t.nested ∧
      Task.Chain inner.schema inner.options.whitelist registry names ⟨inner.model, a.statement⟩ b ∧
      inner.depth = scope.depth + 1 ∧ inner.trail = name?.toList ++ scope.trail := by
  obtain ⟨q, hq, rfl, hmodel, hstatement⟩ := hcall
  obtain ⟨inner, t', hasks, ht', hsub⟩ := (select_answered h).of_mem hq
  refine ⟨inner, t', by rw [hstatement]; exact ht', hsub, ?_, hasks.depth, hasks.trail⟩
  have hsame : inner.model = a.model :=
    Except.ok.inj (hasks.model.symm.trans hmodel)
  rw [hsame, hasks.schema, hasks.options]
  exact htail

/-- No chain is longer than there are levels. -/
theorem templateWithin_bounded {n : Nat} (h : templateWithin registry n scope s = .ok t) :
    Task.Bounded scope.schema scope.options.whitelist registry n ⟨scope.model, s⟩ := by
  induction n generalizing scope s t with
  | zero =>
    intro names b hchain
    cases hchain with
    | nil => exact Nat.zero_le _
    | cons hcall htail =>
      obtain ⟨_, _, hnone, _⟩ := select_chain_cons h hcall htail
      cases hnone
  | succ n ih =>
    intro names b hchain
    cases hchain with
    | nil => exact Nat.zero_le _
    | cons hcall htail =>
      obtain ⟨inner, t', ht', -, htail, -⟩ := select_chain_cons h hcall htail
      exact Nat.succ_le_succ (ih ht' _ _ htail)

/-- The plan stands where a chain leads from the scope. -/
def Reached (scope : Scope) (names : List (Option String)) (plan : Select) : Prop :=
  plan.depth = scope.depth + names.length ∧ plan.trail = names.reduceOption.reverse ++ scope.trail

theorem Reached.cons {name? : Option String} {plan : Select} (h : Reached inner names plan)
    (hdepth : inner.depth = scope.depth + 1) (htrail : inner.trail = name?.toList ++ scope.trail) :
    Reached scope (name? :: names) plan := by
  refine ⟨by rw [h.1, hdepth, List.length_cons]; omega, ?_⟩
  rw [h.2, htrail]
  cases name? with
  | none => rw [List.reduceOption_cons_of_none]; rfl
  | some name => simp [List.reduceOption_cons_of_some]

/-- Every chain leads to a plan. -/
theorem templateWithin_plan_of_chain {n : Nat} (h : templateWithin registry n scope s = .ok t)
    (hchain : Task.Chain scope.schema scope.options.whitelist registry names ⟨scope.model, s⟩ b) :
    ∃ plan ∈ t.select :: t.nested, Reached scope names plan := by
  refine templateWithin_induction (P := fun scope s t => ∀ names b,
    Task.Chain scope.schema scope.options.whitelist registry names ⟨scope.model, s⟩ b →
    ∃ plan ∈ t.select :: t.nested, Reached scope names plan) ?_ n h names b hchain
  intro nested hnested scope s t ht names b hchain
  cases hchain with
  | nil =>
    obtain ⟨hdepth, htrail, -⟩ := select_place ht
    exact ⟨t.select, List.mem_cons_self, hdepth, htrail⟩
  | cons hcall htail =>
    obtain ⟨inner, t', ht', hsub, htail, hdepth, htrail⟩ := select_chain_cons ht hcall htail
    obtain ⟨plan, hplan, hreached⟩ := hnested inner _ t' ht' _ _ htail
    exact ⟨plan, List.mem_cons_of_mem _ (hsub hplan), hreached.cons hdepth htrail⟩

/-- Every plan is at the end of a chain. -/
theorem templateWithin_chain_of_plan {n : Nat} {plan : Select}
    (h : templateWithin registry n scope s = .ok t) (hplan : plan ∈ t.select :: t.nested) :
    ∃ names b, Task.Chain scope.schema scope.options.whitelist registry names ⟨scope.model, s⟩ b ∧
      Reached scope names plan := by
  refine templateWithin_induction (P := fun scope s t => ∀ plan ∈ t.select :: t.nested,
    ∃ names b, Task.Chain scope.schema scope.options.whitelist registry names ⟨scope.model, s⟩ b ∧
      Reached scope names plan) ?_ n h plan hplan
  intro nested hnested scope s t ht plan hplan
  rcases List.mem_cons.mp hplan with rfl | hplan
  · obtain ⟨hdepth, htrail, -⟩ := select_place ht
    exact ⟨[], _, .nil _, hdepth, htrail⟩
  · obtain ⟨q, hq, inner, t', hasks, ht', hplan⟩ := (select_answered ht).of_mem_plans hplan
    obtain ⟨names, b, hchain, hreached⟩ := hnested inner _ t' ht' plan hplan
    rw [hasks.schema, hasks.options] at hchain
    exact ⟨q.name? :: names, b, .cons (hasks.calls hq) hchain,
      hreached.cons hasks.depth hasks.trail⟩

end Levels

/-- What compiling comes to, level by level: past the last level it is refused, and before that a
SELECT is compiled once all that can stand below it has come to a result. -/
inductive Returns (registry : Registry) : Scope → Statement → Except Error Template → Prop
  | tooDeep {scope : Scope} {s : Statement} (h : maxDepth < scope.depth) :
      Returns registry scope s (.error (.tooDeep maxDepth))
  | select {scope : Scope} {s : Statement} {nested : Nested} (h : scope.depth ≤ maxDepth)
      (hnested : ∀ rs m outer joinTypes trail inner,
        Returns registry (scope.below rs m outer joinTypes trail) inner
          (nested (scope.below rs m outer joinTypes trail) inner)) :
      Returns registry scope s (Compile.select registry nested scope s)

theorem templateWithin_returns {registry : Registry} {n : Nat} {scope : Scope}
    (h : scope.depth + n = maxDepth) (s : Statement) :
    Returns registry scope s (templateWithin registry n scope s) := by
  induction n generalizing scope s with
  | zero =>
    refine .select (by omega) ?_
    intro rs m outer joinTypes trail inner
    have hdepth : maxDepth < (scope.below rs m outer joinTypes trail).depth := by
      change maxDepth < scope.depth + 1
      omega
    exact .tooDeep hdepth
  | succ n ih =>
    refine .select (by omega) ?_
    intro rs m outer joinTypes trail inner
    have hdepth : (scope.below rs m outer joinTypes trail).depth + n = maxDepth := by
      change scope.depth + 1 + n = maxDepth
      omega
    exact ih hdepth inner

/-- With any registry, also one whose queries name themselves or each other, compiling comes to a
result within eight levels of sub-queries. Where it succeeds, the plans are those at the ends of the
chains of expansions from the statement, and on no chain does a registered query stand inside its
own expansion. -/
theorem template_expansion (schema : Schema) (options : Options) (model : Model)
    (joinTypes : Table JoinType) (registry : Registry) (s : Statement) :
    Returns registry (.top schema options model joinTypes) s
        (template registry (.top schema options model joinTypes) s) ∧
      ∀ t, template registry (.top schema options model joinTypes) s = .ok t →
        (∀ plan ∈ t.select :: t.nested, ∃ names b,
          Task.Chain schema options.whitelist registry names ⟨model, s⟩ b ∧
            plan.depth = names.length ∧ plan.trail = names.reduceOption.reverse) ∧
        ∀ names b, Task.Chain schema options.whitelist registry names ⟨model, s⟩ b →
          (∃ plan ∈ t.select :: t.nested,
            plan.depth = names.length ∧ plan.trail = names.reduceOption.reverse) ∧
          names.length ≤ 8 ∧
          names.reduceOption.Pairwise fun x y => registry.get? x ≠ registry.get? y := by
  have reached {names : List (Option String)} {plan : Select}
      (h : Reached (.top schema options model joinTypes) names plan) :
      plan.depth = names.length ∧ plan.trail = names.reduceOption.reverse := by
    obtain ⟨hdepth, htrail⟩ := h
    exact ⟨by rw [hdepth]; exact Nat.zero_add _, by rw [htrail]; exact List.append_nil _⟩
  refine ⟨templateWithin_returns (Nat.zero_add _) s, ?_⟩
  intro t ht
  have hbounded := templateWithin_bounded ht
  refine ⟨?_, ?_⟩
  · intro plan hplan
    obtain ⟨names, b, hchain, hreached⟩ := templateWithin_chain_of_plan ht hplan
    exact ⟨names, b, hchain, reached hreached⟩
  · intro names b hchain
    obtain ⟨plan, hplan, hreached⟩ := templateWithin_plan_of_chain ht hchain
    exact ⟨⟨plan, hplan, reached hreached⟩, hbounded names b hchain, hbounded.pairwise hchain⟩

/-- Two registered queries of which the first has the second inside. -/
def ledgerRegistry : Registry :=
  ⟨[("o", .query { model := "A", select := "subquery('A', 'id as i') as x, '@p' as y" }),
    ("p", .query { model := "A", select := "id as i" })]⟩

theorem template_expansion_ledger :
    ∃ schema t names b, Schema.build [Sample.card] = .ok schema ∧
      template ledgerRegistry (.top schema {} Sample.card {}) { select := "'@o' as z" } = .ok t ∧
      (t.nested.map fun plan => (plan.depth, plan.trail))
        = [(1, ["o"]), (2, ["o"]), (2, ["p", "o"])] ∧
      Task.Chain schema none ledgerRegistry names ⟨Sample.card, { select := "'@o' as z" }⟩ b ∧
      names.reduceOption = ["o", "p"] ∧ names.length ≤ 8 ∧
      names.reduceOption.Pairwise fun x y => ledgerRegistry.get? x ≠ ledgerRegistry.get? y := by
  have h : ((Schema.build [Sample.card]).toOption.bind fun schema =>
      (template ledgerRegistry (.top schema {} Sample.card {})
        { select := "'@o' as z" }).toOption.map fun t =>
      t.nested.map fun plan => (plan.depth, plan.trail))
      = some [(1, ["o"]), (2, ["o"]), (2, ["p", "o"])] := by decide +kernel
  simp only [Option.bind_eq_some_iff, Option.map_eq_some_iff, toOption_eq_some_iff] at h
  obtain ⟨schema, hschema, t, ht, hplaces⟩ := h
  obtain ⟨hplans, hchains⟩ := (template_expansion schema {} Sample.card {} ledgerRegistry _).2 t ht
  have hinner : (2, ["p", "o"]) ∈ t.nested.map fun plan => (plan.depth, plan.trail) := by
    rw [hplaces]
    simp
  obtain ⟨plan, hplan, hplace⟩ := List.mem_map.mp hinner
  obtain ⟨names, b, hchain, -, htrail⟩ := hplans plan (List.mem_cons_of_mem _ hplan)
  have hnames : names.reduceOption = ["o", "p"] := by
    rw [(Prod.mk.inj hplace).2] at htrail
    exact (List.reverse_eq_iff.mp htrail.symm)
  exact ⟨schema, t, names, b, hschema, ht, hplaces, hchain, hnames, (hchains names b hchain).2⟩

end Compile
end PathQuery
