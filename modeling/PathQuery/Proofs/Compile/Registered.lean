import PathQuery.Proofs.Compile.Expansion

/-!
Registered names. A statement uses the names in its strings, those in its sub-queries and those in
the queries that it uses by name. Nothing else of a registry matters: two registries with the same
sources for the names that are used give the same template.
-/

namespace PathQuery

namespace Expr

mutual

/-- The registered names that an expression uses, but not those inside its sub-queries. -/
def mentions : Expr → List String
  | .str text =>
    match text.toList with
    | '@' :: name => [.ofList name]
    | _ => []
  | .call name args => if Compile.isSubquery name then [] else allMentions args
  | .binary _ left right => mentions left ++ mentions right
  | .compare _ left right => mentions left ++ mentions right
  | .logical _ operands => allMentions operands
  | .unary _ operand => mentions operand
  | .tuple items => allMentions items
  | .list items => allMentions items
  | _ => []

def allMentions : List Expr → List String
  | [] => []
  | e :: rest => mentions e ++ allMentions rest

end

variable {e : Expr} {es : List Expr}

theorem mentions_subset (h : e ∈ es) : e.mentions ⊆ allMentions es := by
  induction es with
  | nil => cases h
  | cons x es ih =>
    rw [allMentions]
    rcases List.mem_cons.mp h with rfl | h
    · exact List.subset_append_left ..
    · exact List.subset_append_of_subset_right _ (ih h)

theorem subselects_subset (registry : Registry) (h : e ∈ es) :
    e.subselects registry ⊆ allSubselects registry es := by
  induction es with
  | nil => cases h
  | cons x es ih =>
    rw [allSubselects]
    rcases List.mem_cons.mp h with rfl | h
    · exact List.subset_append_left ..
    · exact List.subset_append_of_subset_right _ (ih h)

end Expr

namespace Task

/-- The expressions of a statement, as far as its sources can be read. -/
def expressions (a : Task) : List Expr :=
  let columns := (Column.parseList (Compile.selectSource a.model a.statement.select)).toOption
  let filter := (Compile.filterTree a.statement.filter).toOption
  let terms := (Compile.orderTrees a.statement.orderBy).toOption
  (columns.getD []).filterMap (fun c => (Expr.parse c.expression).toOption) ++
    filter.join.toList ++ (terms.getD []).map (·.expr)

/-- The registered names that are used in a statement and on so many levels below it. -/
def usedWithin (schema : Schema) (w : Option Whitelist) (registry : Registry) :
    Nat → Task → List String
  | 0, a => Expr.allMentions a.expressions
  | n + 1, a =>
    Expr.allMentions a.expressions ++
      (Expr.allSubselects registry a.expressions).flatMap fun q =>
        match schema.resolveModel q.model w with
        | .ok m => usedWithin schema w registry n ⟨m, q.statement⟩
        | .error _ => []

/-- The registered names that are used when a statement is compiled. -/
def used (schema : Schema) (w : Option Whitelist) (registry : Registry) (a : Task) : List String :=
  a.usedWithin schema w registry Compile.maxDepth

end Task

namespace Compile

open Steps

/-- In the same scope, the frames agree on registered names and on the sub-queries that the first
asks for. -/
structure Frame.Agrees (f f' : Frame) (names : List String) (qs : List Subselect) : Prop where
  scope : f.scope = f'.scope
  registry : ∀ name ∈ names, f.registry.get? name = f'.registry.get? name
  nested : ∀ q ∈ qs, ∀ {scope}, f.Asks q scope →
    f.nested scope q.statement = f'.nested scope q.statement

/-- The frames agree on what an expression uses. -/
def Frame.AgreesOn (f f' : Frame) (e : Expr) : Prop :=
  f.Agrees f' e.mentions (e.subselects f.registry)

variable {f f' : Frame} {names more : List String} {qs qs' : List Subselect}

theorem Frame.Agrees.mono (h : f.Agrees f' names qs) (hnames : more ⊆ names) (hqs : qs' ⊆ qs) :
    f.Agrees f' more qs' :=
  ⟨h.scope, fun name hname => h.registry name (hnames hname), fun q hq => h.nested q (hqs hq)⟩

theorem Frame.Agrees.left (h : f.Agrees f' (names ++ more) (qs ++ qs')) : f.Agrees f' names qs :=
  h.mono (List.subset_append_left ..) (List.subset_append_left ..)

theorem Frame.Agrees.right (h : f.Agrees f' (names ++ more) (qs ++ qs')) : f.Agrees f' more qs' :=
  h.mono (List.subset_append_right ..) (List.subset_append_right ..)

theorem lift_bind_congr {α β : Type} {x : Except Error α} {k k' : α → Action β}
    (h : ∀ a, x = .ok a → k a = k' a) : (lift x >>= k) = lift x >>= k' := by
  funext g
  cases x with
  | error e => rfl
  | ok a => exact congrFun (h a rfl) g

/-! ### Expressions -/

theorem path_congr (h : f.scope = f'.scope) (head : String) (rest : List String) :
    path f head rest = path f' head rest := by
  unfold path
  rw [h]

theorem subquery_congr {name? : Option String} {model : String} {s : Statement}
    (h : f.Agrees f' names [⟨name?, model, s⟩]) (correlated : Bool) (joinTypes : Table JoinType)
    (own : Option Context) :
    subquery f model correlated joinTypes (name?.toList ++ f.scope.trail) s own =
      subquery f' model correlated joinTypes (name?.toList ++ f'.scope.trail) s own := by
  unfold subquery
  rw [← h.scope]
  refine lift_bind_congr fun m hm => ?_
  refine bind_congr fun g => ?_
  have hasks (outer : Option Outer) : f.Asks ⟨name?, model, s⟩
      (f.scope.below g.relations m outer joinTypes (name?.toList ++ f.scope.trail)) :=
    ⟨rfl, rfl, hm, rfl, rfl⟩
  rw [h.nested _ (List.mem_singleton_self _) (hasks _)]

theorem subqueryCall_congr {args : List Expr}
    (h : f.Agrees f' names (Subselect.correlated args).toList) :
    subqueryCall f args = subqueryCall f' args := by
  unfold Subselect.correlated at h
  unfold subqueryCall
  split
  · next hargs =>
    rw [hargs] at h
    exact subquery_congr h true {} none
  · next hargs =>
    rw [hargs] at h
    exact subquery_congr h true {} none
  · rfl

theorem named_congr {name : String}
    (h : f.Agrees f' [name] (Subselect.named f.registry name).toList) :
    named f name = named f' name := by
  have hsource := h.registry name (List.mem_singleton_self name)
  unfold Subselect.named at h
  unfold named
  rw [← hsource]
  cases hd : f.registry.get? name with
  | none => rfl
  | some source =>
    rw [hd] at h
    cases source with
    | query d => exact subquery_congr h false d.joinTypes (some d.context)
    | values items => rfl
    | sql text context => rfl

theorem string_congr {text : String} (h : f.AgreesOn f' (.str text)) :
    string f text = string f' text := by
  rw [Frame.AgreesOn, Expr.mentions, Expr.subselects] at h
  unfold string
  split
  · next name hname =>
    simp only [hname] at h
    exact named_congr h
  · rw [h.scope]

theorem call_congr (h : f.scope = f'.scope) (name : String) (args : List String) :
    call f name args = call f' name args := by
  unfold call
  rw [h]

mutual

theorem expr_congr : ∀ e : Expr, f.AgreesOn f' e → expr f e = expr f' e
  | .path head rest, h => path_congr h.scope head rest
  | .number _, _ => rfl
  | .str _, h => string_congr h
  | .bool _, _ => rfl
  | .null, _ => rfl
  | .placeholder _, _ => rfl
  | .star, _ => rfl
  | .call name args, h => by
    rw [Frame.AgreesOn, Expr.mentions, Expr.subselects] at h
    rw [expr, expr]
    split
    · next hsub =>
      rw [if_pos hsub, if_pos hsub] at h
      exact subqueryCall_congr h
    · next hsub =>
      rw [if_neg hsub, if_neg hsub] at h
      rw [← h.scope, exprs_congr args h]
      split
      · exact bind_congr fun parts => call_congr h.scope name parts
      · rfl
  | .binary _ left right, h => by
    rw [Frame.AgreesOn, Expr.mentions, Expr.subselects] at h
    rw [expr, expr, expr_congr left h.left, expr_congr right h.right]
  | .compare _ left right, h => by
    rw [Frame.AgreesOn, Expr.mentions, Expr.subselects] at h
    rw [expr, expr, expr_congr left h.left, expr_congr right h.right]
  | .logical _ operands, h => by
    rw [Frame.AgreesOn, Expr.mentions, Expr.subselects] at h
    rw [expr, expr, exprs_congr operands h]
  | .unary _ operand, h => by
    rw [Frame.AgreesOn, Expr.mentions, Expr.subselects] at h
    rw [expr, expr, expr_congr operand h]
  | .tuple items, h => by
    rw [Frame.AgreesOn, Expr.mentions, Expr.subselects] at h
    rw [expr, expr, exprs_congr items h]
  | .list items, h => by
    rw [Frame.AgreesOn, Expr.mentions, Expr.subselects] at h
    rw [expr, expr, exprs_congr items h]

theorem exprs_congr : ∀ es : List Expr,
    f.Agrees f' (Expr.allMentions es) (Expr.allSubselects f.registry es) → exprs f es = exprs f' es
  | [], _ => rfl
  | e :: rest, h => by
    rw [Expr.allMentions, Expr.allSubselects] at h
    rw [exprs, exprs, expr_congr e h.left, exprs_congr rest h.right]

end

/-! ### Statements -/

theorem fragment_congr {e : Expr} (h : f.AgreesOn f' e) : fragment f e = fragment f' e := by
  unfold fragment
  rw [expr_congr e h]

theorem columns_congr {cs : List Column}
    (h : ∀ c ∈ cs, ∀ e, Expr.parse c.expression = .ok e → f.AgreesOn f' e) :
    columns f cs = columns f' cs := by
  induction cs with
  | nil => rfl
  | cons c cs ih =>
    rw [List.forall_mem_cons] at h
    have hcolumn : column f c = column f' c := by
      refine lift_bind_congr fun e he => ?_
      rw [fragment_congr (h.1 e he)]
    rw [columns, columns, hcolumn, ih h.2]

theorem filter_congr {source : Option String}
    (h : ∀ e, filterTree source = .ok (some e) → f.AgreesOn f' e) :
    filter f source = filter f' source := by
  cases source with
  | none => rfl
  | some source =>
    rw [filter, filter]
    split
    · rfl
    · next hblank =>
      refine lift_bind_congr fun e he => ?_
      rw [fragment_congr (h e (by rw [filterTree, if_neg hblank, he]; rfl))]

theorem orderBy_congr {source : Option String}
    (h : ∀ terms, orderTrees source = .ok terms → ∀ t ∈ terms, f.AgreesOn f' t.expr) :
    orderBy f source = orderBy f' source := by
  cases source with
  | none => rfl
  | some source =>
    refine lift_bind_congr fun terms hterms => ?_
    have hagrees := h terms hterms
    clear hterms
    induction terms with
    | nil => rfl
    | cons t terms ih =>
      rw [List.forall_mem_cons] at hagrees
      rw [orderTerms, orderTerms, fragment_congr hagrees.1, ih hagrees.2]

theorem select_congr {registry registry' : Registry} {nested nested' : Nested} {scope : Scope}
    {s : Statement} (h : ∀ e ∈ Task.expressions ⟨scope.model, s⟩,
      Frame.AgreesOn ⟨scope, registry, nested⟩ ⟨scope, registry', nested'⟩ e) :
    select registry nested scope s = select registry' nested' scope s := by
  simp only [Task.expressions, List.mem_append, or_imp, forall_and] at h
  obtain ⟨⟨hcolumns, hfilter⟩, horder⟩ := h
  unfold select
  cases hcs : Column.parseList (selectSource scope.model s.select) with
  | error e => rfl
  | ok cs =>
    rw [hcs] at hcolumns
    have hplan : plan ⟨scope, registry, nested⟩ s cs = plan ⟨scope, registry', nested'⟩ s cs := by
      unfold plan
      rw [columns_congr, filter_congr, orderBy_congr]
      · intro terms hterms t ht
        rw [hterms] at horder
        exact horder _ (List.mem_map_of_mem ht)
      · intro e he
        rw [he] at hfilter
        exact hfilter e List.mem_cons_self
      · intro c hc e he
        exact hcolumns e (List.mem_filterMap.mpr ⟨c, hc, toOption_eq_some_iff.mpr he⟩)
    cases cs with
    | nil => rfl
    | cons c cs => simp only [hplan]

variable {registry registry' : Registry}

/-- Registries with the same sources for the names that are used give the same template. -/
theorem templateWithin_congr (n : Nat) {scope : Scope} {s : Statement}
    (h : ∀ name ∈ Task.usedWithin scope.schema scope.options.whitelist registry n ⟨scope.model, s⟩,
      registry.get? name = registry'.get? name) :
    templateWithin registry n scope s = templateWithin registry' n scope s := by
  induction n generalizing scope s with
  | zero =>
    rw [templateWithin, templateWithin]
    refine select_congr fun e he => ⟨rfl, ?_, ?_⟩
    · exact fun name hname => h name (Expr.mentions_subset he hname)
    · exact fun _ _ _ _ => rfl
  | succ n ih =>
    rw [templateWithin, templateWithin]
    simp only [Task.usedWithin, List.mem_append, or_imp, forall_and] at h
    refine select_congr fun e he => ⟨rfl, ?_, ?_⟩
    · exact fun name hname => h.1 name (Expr.mentions_subset he hname)
    · -- what a sub-query uses one level below is used here
      intro q hq below hasks
      refine ih fun name hname => h.2 name ?_
      refine List.mem_flatMap.mpr ⟨q, Expr.subselects_subset registry he hq, ?_⟩
      have hmodel : scope.schema.resolveModel q.model scope.options.whitelist = .ok below.model :=
        hasks.model
      rw [hasks.schema, hasks.options] at hname
      simpa only [hmodel] using hname

theorem template_congr {scope : Scope} {s : Statement}
    (h : ∀ name ∈ Task.used scope.schema scope.options.whitelist registry ⟨scope.model, s⟩,
      registry.get? name = registry'.get? name) :
    template registry scope s = template registry' scope s :=
  templateWithin_congr maxDepth h

/-- Where no registered name is used, the registry does not matter. -/
theorem template_unregistered {scope : Scope} {s : Statement}
    (h : Task.used scope.schema scope.options.whitelist registry ⟨scope.model, s⟩ = []) :
    template registry scope s = template {} scope s := by
  refine template_congr fun name hname => ?_
  rw [h] at hname
  cases hname

end Compile

end PathQuery
