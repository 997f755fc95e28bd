import PathQuery.Proofs.Compile.Expansion
import PathQuery.Sample.Small

/-!
Functions that a query calls. A call is compiled only if its function is permitted, and nothing that
can hold a call is passed over: what a comparison leaves out is a literal, and the arguments of a
sub-query are texts, whose expressions are compiled on the level below. So no function reaches the
database that is not permitted, wherever it is written.
-/

namespace PathQuery

namespace Expr

mutual

/-- The functions that are called in an expression, at any place in it. -/
def calls : Expr → List String
  | .call name args => name :: allCalls args
  | .binary _ left right => calls left ++ calls right
  | .compare _ left right => calls left ++ calls right
  | .logical _ operands => allCalls operands
  | .unary _ operand => calls operand
  | .tuple items => allCalls items
  | .list items => allCalls items
  | _ => []

def allCalls : List Expr → List String
  | [] => []
  | e :: rest => calls e ++ allCalls rest

end

/-- Nothing is called in a list of string literals. -/
theorem allCalls_of_texts {args : List Expr} {texts : List String}
    (h : args.mapM text? = some texts) : allCalls args = [] := by
  rw [mapM_text?_eq_some_iff.mp h]
  clear h
  induction texts with
  | nil => rfl
  | cons text texts ih => rw [List.map_cons, allCalls, ih]; rfl

theorem mem_allCalls {name : String} {es : List Expr} :
    name ∈ allCalls es ↔ ∃ e ∈ es, name ∈ e.calls := by
  induction es with
  | nil => simp [allCalls]
  | cons e rest ih => simp [allCalls, ih]

end Expr

/-- The function may be called in a query: it takes a sub-query, has SQL of its own, or is on the
list. -/
def Options.Permits (o : Options) (name : String) : Prop :=
  Compile.isSubquery name ∨ (Builtin.ofName? name).isSome ∨ o.functions.allows name

instance (o : Options) (name : String) : Decidable (o.Permits name) :=
  inferInstanceAs (Decidable (_ ∨ _ ∨ _))

namespace Compile

open Steps

variable {f : Frame} {g g' : Gathered}

theorem permits_of_isCallable {o : Options} {name : String} (h : isCallable o name) :
    o.Permits name :=
  .inr ((Bool.or_eq_true _ _).mp h)

/-- What a short comparison leaves out calls nothing. -/
theorem shortComparison?_calls {op : CompareOp} {right : Expr} {rest : String}
    (h : shortComparison? op right = some rest) : right.calls = [] := by
  cases right with
  | str => rfl
  | null => rfl
  | _ => cases op <;> cases h

/-- Every function that is called in what is compiled is permitted. -/
def Frame.PermitsAll (f : Frame) (names : List String) : Prop :=
  ∀ name ∈ names, f.scope.options.Permits name

theorem Frame.permitsAll_nil (f : Frame) : f.PermitsAll [] :=
  List.forall_mem_nil _

theorem Frame.PermitsAll.append {names more : List String} (h : f.PermitsAll names)
    (h' : f.PermitsAll more) : f.PermitsAll (names ++ more) :=
  List.forall_mem_append.mpr ⟨h, h'⟩

theorem permitted_cases (f : Frame) : Cases f (fun _ => True)
    (fun e _ _ _ => f.PermitsAll e.calls) (fun es _ _ _ => f.PermitsAll (Expr.allCalls es)) where
  operand _ _ := trivial
  path _ := f.permitsAll_nil
  number _ _ := f.permitsAll_nil
  str _ _ := f.permitsAll_nil
  bool _ _ := f.permitsAll_nil
  null _ := f.permitsAll_nil
  placeholder _ _ := f.permitsAll_nil
  star _ := f.permitsAll_nil
  subquery _ hsub h := by
    obtain ⟨_, _, _, hargs, -⟩ := subqueryCall_ok h
    rw [Expr.calls, Expr.allCalls_of_texts hargs]
    exact List.forall_mem_singleton.mpr (.inl hsub)
  call _ _ hcallable hargs _ :=
    List.forall_mem_cons.mpr ⟨permits_of_isCallable hcallable, hargs⟩
  binary _ hl hr := hl.append hr
  short _ hs hl := by
    rw [Expr.calls, shortComparison?_calls hs, List.append_nil]
    exact hl
  compare _ hl hr := hl.append hr
  logical h := h
  unary h := h
  tuple h := h
  list h := h
  nil _ := f.permitsAll_nil
  cons _ h hrest := h.append hrest

/-- The functions that are called in the fragments of a plan are permitted. -/
def Permitted (o : Options) (plan : Select) : Prop :=
  ∀ part ∈ plan.parts, ∀ name ∈ part.expr.calls, o.Permits name

theorem templateWithin_permitted {registry : Registry} {n : Nat} {scope : Scope} {s : Statement}
    {t : Template} (h : templateWithin registry n scope s = .ok t) :
    ∀ plan ∈ t.select :: t.nested, Permitted scope.options plan := by
  refine templateWithin_induction (P := fun scope _ t =>
    ∀ plan ∈ t.select :: t.nested, Permitted scope.options plan) ?_ n h
  intro nested hnested scope s t ht plan hplan
  rcases List.mem_cons.mp hplan with rfl | hplan
  · obtain ⟨-, -, g, hrow, -⟩ := select_row ht
    have hcalls := (permitted_cases _).exprs _ (fun _ _ => trivial) hrow.exprs
    intro part hpart name hname
    exact hcalls name (Expr.mem_allCalls.mpr ⟨part.expr, List.mem_map_of_mem hpart, hname⟩)
  · obtain ⟨q, -, inner, t', hasks, ht', hplan⟩ := (select_answered ht).of_mem_plans hplan
    have hinner := hnested inner _ t' ht' plan hplan
    rwa [hasks.options] at hinner

/-- The expressions of every statement that is asked for, at any depth, are compiled. -/
theorem templateWithin_trees {registry : Registry} {n : Nat} {scope : Scope} {s : Statement}
    {t : Template} {names : List (Option String)} {b : Task}
    (h : templateWithin registry n scope s = .ok t)
    (hchain : Task.Chain scope.schema scope.options.whitelist registry names ⟨scope.model, s⟩ b) :
    ∃ plan ∈ t.select :: t.nested, b.trees = .ok (plan.parts.map (·.expr)) := by
  refine templateWithin_induction (P := fun scope s t => ∀ names b,
    Task.Chain scope.schema scope.options.whitelist registry names ⟨scope.model, s⟩ b →
    ∃ plan ∈ t.select :: t.nested, b.trees = .ok (plan.parts.map (·.expr))) ?_ n h names b hchain
  intro nested hnested scope s t ht names b hchain
  cases hchain with
  | nil =>
    obtain ⟨hwritten, -⟩ := select_row ht
    exact ⟨t.select, List.mem_cons_self, hwritten.task_trees⟩
  | cons hcall htail =>
    obtain ⟨inner, t', ht', hsub, htail, -⟩ := select_chain_cons ht hcall htail
    obtain ⟨plan, hplan, htrees⟩ := hnested inner _ t' ht' _ _ htail
    exact ⟨plan, List.mem_cons_of_mem _ (hsub hplan), htrees⟩

/-- Where compiling succeeds, every function that is called is permitted: in the columns, the filter
and the order of the statement and of every sub-query and registered query that is asked for on the
way, at any depth and at any place in an expression. -/
theorem template_permitted {schema : Schema} {options : Options} {model : Model}
    {joinTypes : Table JoinType} {registry : Registry} {s : Statement} {t : Template}
    (h : template registry (.top schema options model joinTypes) s = .ok t) :
    (∀ plan ∈ t.select :: t.nested, ∀ part ∈ plan.parts, ∀ name ∈ part.expr.calls,
      options.Permits name) ∧
    ∀ names b, Task.Chain schema options.whitelist registry names ⟨model, s⟩ b →
      ∃ es, b.trees = .ok es ∧ (∃ plan ∈ t.select :: t.nested, es = plan.parts.map (·.expr)) ∧
        ∀ e ∈ es, ∀ name ∈ e.calls, options.Permits name := by
  have hplans : ∀ plan ∈ t.select :: t.nested, Permitted options plan :=
    templateWithin_permitted h
  refine ⟨hplans, ?_⟩
  intro names b hchain
  obtain ⟨plan, hplan, htrees⟩ := templateWithin_trees h hchain
  refine ⟨_, htrees, ⟨plan, hplan, rfl⟩, ?_⟩
  intro e he name hname
  obtain ⟨part, hpart, rfl⟩ := List.mem_map.mp he
  exact hplans plan hplan part hpart name hname

/-- A registered query with calls of its own. -/
def officeQuery : Definition :=
  { model := "A", select := "Cast(round(id), 'int') as i", orderBy := some "-coalesce(id, 0)" }

def officeRegistry : Registry :=
  ⟨[("p", .query officeQuery)]⟩

def officeStatement : Statement :=
  { select := "abs(id) as x, SubQuery('A', 'max(id) as m', 'id in \"@p\"') as y" }

theorem template_permitted_office :
    ∃ schema t names b es, Schema.build [Sample.card] = .ok schema ∧
      template officeRegistry (.top schema {} Sample.card {}) officeStatement = .ok t ∧
      ((t.select :: t.nested).map fun plan => plan.parts.map (·.expr.calls))
        = [[["abs"], ["SubQuery"]], [["max"], []], [["Cast", "round"], ["coalesce"]]] ∧
      Task.Chain schema none officeRegistry names ⟨Sample.card, officeStatement⟩ b ∧
      names.length = 2 ∧ b.trees = .ok es ∧
      (∀ plan ∈ t.select :: t.nested, ∀ part ∈ plan.parts, ∀ name ∈ part.expr.calls,
        Options.Permits {} name) ∧
      ∀ e ∈ es, ∀ name ∈ e.calls, Options.Permits {} name := by
  have h : ((Schema.build [Sample.card]).toOption.bind fun schema =>
      (template officeRegistry (.top schema {} Sample.card {})
        officeStatement).toOption.map fun t =>
      ((t.select :: t.nested).map fun plan => plan.parts.map (·.expr.calls),
        (t.nested[1]?).map (·.depth)))
      = some ([[["abs"], ["SubQuery"]], [["max"], []], [["Cast", "round"], ["coalesce"]]],
        some 2) := by decide +kernel
  simp only [Option.bind_eq_some_iff, Option.map_eq_some_iff, toOption_eq_some_iff,
    Prod.mk.injEq] at h
  obtain ⟨schema, hschema, t, ht, hcalls, plan, hplan, hdepth⟩ := h
  have hmem : plan ∈ t.select :: t.nested := List.mem_cons_of_mem _ (List.mem_of_getElem? hplan)
  obtain ⟨names, b, hchain, hreached, -⟩ := templateWithin_chain_of_plan ht hmem
  obtain ⟨hplans, hchains⟩ := template_permitted ht
  obtain ⟨es, hes, -, hpermits⟩ := hchains names b hchain
  refine ⟨schema, t, names, b, es, hschema, ht, hcalls, hchain, ?_, hes, hplans, hpermits⟩
  rw [hdepth] at hreached
  exact (hreached.trans (Nat.zero_add _)).symm

end Compile
end PathQuery
