import PathQuery.Compile
import PathQuery.Proofs.Steps

/-!
Values never reach the text of a statement. Two compilations of one statement, whose contexts and
registries differ only in values of the same shape, take the same steps: what they gather differs
only in the carried values, and those have the same shapes at every place. So both fail in the same
way or end in the same text.
-/

namespace PathQuery

open Steps

/-! ### Values of the same shape -/

/-- The length of a list; another value has none. -/
def Value.shape : Value → Option Nat
  | .list items => some items.length
  | _ => none

/-- Values of the same shapes at the same places. -/
def ShapesAlike (xs ys : List Value) : Prop :=
  xs.map Value.shape = ys.map Value.shape

theorem ShapesAlike.length {xs ys : List Value} (h : ShapesAlike xs ys) :
    xs.length = ys.length := by
  simpa using congrArg List.length h

theorem ShapesAlike.append {xs ys xs' ys' : List Value} (h : ShapesAlike xs ys)
    (h' : ShapesAlike xs' ys') : ShapesAlike (xs ++ xs') (ys ++ ys') := by
  unfold ShapesAlike at h h' ⊢
  rw [List.map_append, List.map_append, h, h']

/-- The same names, for values of the same shapes. -/
def Context.Alike (c c' : Context) : Prop :=
  ∀ name, (c.get? name).map Value.shape = (c'.get? name).map Value.shape

/-- The same names also count as supplied. -/
structure Context.Twins (c c' : Context) : Prop where
  alike : Context.Alike c c'
  present : ∀ name, (c.get? name).map Value.isPresent = (c'.get? name).map Value.isPresent

/-- Sources that differ only in values. -/
inductive Source.Alike : Source → Source → Prop
  | query {d : Definition} {context : Context} (h : Context.Twins d.context context) :
      Source.Alike (.query d) (.query { d with context })
  | values {xs ys : List Value} (h : xs.length = ys.length) :
      Source.Alike (.values xs) (.values ys)
  | sql {text : String} {context context' : Context} (h : Context.Twins context context') :
      Source.Alike (.sql text context) (.sql text context')

/-- The same names, for sources that differ only in values. -/
def Registry.Alike (r r' : Registry) : Prop :=
  ∀ name, Option.Rel Source.Alike (r.get? name) (r'.get? name)

/-! ### Filters -/

namespace Condition

variable {c c' : Context}

theorem isSupplied_twins (h : Context.Twins c c') (source : String) :
    isSupplied c source = isSupplied c' source := by
  unfold isSupplied
  congr 1
  funext name
  have hname := h.present name
  cases hc : c.get? name with
  | none =>
    cases hc' : c'.get? name with
    | none => rfl
    | some w => simp [hc, hc'] at hname
  | some v =>
    cases hc' : c'.get? name with
    | none => simp [hc, hc'] at hname
    | some w => simpa [hc, hc'] using hname

mutual

theorem render_twins (h : Context.Twins c c') : ∀ condition : Condition,
    render c condition = render c' condition
  | .leaf source => by rw [render, render, isSupplied_twins h]
  | .and children => by rw [render, render, survivors_twins h children]
  | .or children => by rw [render, render, survivors_twins h children]

theorem survivors_twins (h : Context.Twins c c') : ∀ conditions : List Condition,
    survivors c conditions = survivors c' conditions
  | [] => rfl
  | condition :: rest => by
    rw [survivors, survivors, render_twins h condition, survivors_twins h rest]

end

end Condition

theorem Definition.statement_twins {d : Definition} {context : Context}
    (h : Context.Twins d.context context) :
    d.statement d.context = { d with context : Definition }.statement context := by
  simp only [statement, filterSource?, Condition.render_twins h]

/-! ### Splicing -/

theorem fill_tied {σ : Type} {S : σ → σ → Prop}
    {replace replace' : String → StateT σ (Except Error) String}
    (h : ∀ name, Tied S Eq (replace name) (replace' name)) (ps : List Placeholder.Piece) :
    Tied S Eq (Placeholder.fill replace ps) (Placeholder.fill replace' ps) := by
  induction ps with
  | nil => exact .pure rfl
  | cons p ps ih =>
    cases p with
    | char c =>
      refine .bind ih ?_
      rintro out _ rfl
      exact .pure rfl
    | token name =>
      refine .bind (h _) ?_
      rintro new _ rfl
      refine .bind ih ?_
      rintro out _ rfl
      exact .pure rfl

theorem substitute_tied {σ : Type} {S : σ → σ → Prop}
    {replace replace' : String → StateT σ (Except Error) String}
    (h : ∀ name, Tied S Eq (replace name) (replace' name)) (text : String) :
    Tied S Eq (Placeholder.substitute replace text) (Placeholder.substitute replace' text) := by
  refine .bind (fill_tied h _) ?_
  rintro out _ rfl
  exact .pure rfl

theorem moveToken_tied (offset : Nat) {own own' : Option Context}
    (hown : Option.Rel Context.Alike own own') (name : String) :
    Tied ShapesAlike Eq (Splice.moveToken offset own name) (Splice.moveToken offset own' name) := by
  intro xs ys hxy
  unfold Splice.moveToken
  cases hi : Splice.index? name with
  | some i => exact .ok ⟨rfl, hxy⟩
  | none =>
    cases hown with
    | none => exact .ok ⟨rfl, hxy⟩
    | some hcontext =>
      next context context' =>
      have hname := hcontext name
      dsimp only
      cases hc : context.get? name with
      | none =>
        cases hc' : context'.get? name with
        | none => exact .error _
        | some w => simp [hc, hc'] at hname
      | some v =>
        cases hc' : context'.get? name with
        | none => simp [hc, hc'] at hname
        | some w =>
          refine .ok ⟨by rw [hxy.length], hxy.append ?_⟩
          simpa [ShapesAlike, hc, hc'] using hname

/-- Moving a text behind others gives the same text. -/
theorem move_agree (sql : String) {carried carried' before before' : List Value}
    {own own' : Option Context} (hcarried : ShapesAlike carried carried')
    (hown : Option.Rel Context.Alike own own') (hbefore : ShapesAlike before before') :
    Agree (fun p q => p.1 = q.1 ∧ ShapesAlike p.2 q.2) (Splice.move sql carried own before)
      (Splice.move sql carried' own' before') := by
  unfold Splice.move
  rw [← hbefore.length]
  exact substitute_tied (moveToken_tied _ hown) sql _ _ (hbefore.append hcarried)

/-! ### Expressions -/

/-- What two runs gather, but for the values that they carry. -/
structure Gathered.Alike (g g' : Gathered) : Prop where
  relations : g.relations = g'.relations
  aggregated : g.aggregated = g'.aggregated
  carried : ShapesAlike g.carried g'.carried
  fieldReads : g.fieldReads = g'.fieldReads
  nested : g.nested = g'.nested

/-- Templates that differ only in carried values. -/
structure Template.Alike (t t' : Template) : Prop where
  sql : t.sql = t'.sql
  carried : ShapesAlike t.carried t'.carried
  columns : t.columns = t'.columns
  select : t.select = t'.select
  nested : t.nested = t'.nested

namespace Compile

/-- The same place, with sources that differ only in values. -/
structure Frame.Alike (f f' : Frame) : Prop where
  scope : f.scope = f'.scope
  registry : Registry.Alike f.registry f'.registry
  nested : ∀ scope s, Agree Template.Alike (f.nested scope s) (f'.nested scope s)

variable {f f' : Frame}

theorem fail_tied {α : Type} {R : α → α → Prop} (e : Error) :
    Tied Gathered.Alike R (fail e) (fail e) := by
  intro g g' _
  exact .error e

theorem lift_tied {α : Type} {R : α → α → Prop} {x y : Except Error α} (h : Agree R x y) :
    Tied Gathered.Alike R (lift x) (lift y) := by
  intro g g' hg
  cases h with
  | ok h => exact .ok ⟨h, hg⟩
  | error e => exact .error e

theorem path_tied (hf : Frame.Alike f f') (head : String) (rest : List String) :
    Tied Gathered.Alike Eq (path f head rest) (path f' head rest) := by
  intro g g' hg
  unfold path
  rw [← hf.scope, ← hg.relations]
  cases Join.resolvePath f.scope head rest g.relations with
  | error e => exact .error e
  | ok p => exact .ok ⟨rfl, { hg with relations := rfl, fieldReads := by rw [hg.fieldReads] }⟩

theorem splice_tied (sql : String) {carried carried' : List Value} {own own' : Option Context}
    (hcarried : ShapesAlike carried carried') (hown : Option.Rel Context.Alike own own') :
    Tied Gathered.Alike Eq (splice sql carried own) (splice sql carried' own') := by
  intro g g' hg
  have hmove := move_agree sql hcarried hown hg.carried
  unfold splice
  generalize Splice.move sql carried own g.carried = moved at hmove
  generalize Splice.move sql carried' own' g'.carried = moved' at hmove
  cases hmove with
  | ok h => exact .ok ⟨by rw [h.1], { hg with carried := h.2 }⟩
  | error e => exact .error e

theorem spliceTemplate_tied {t t' : Template} {own own' : Option Context}
    (ht : Template.Alike t t') (hown : Option.Rel Context.Alike own own') :
    Tied Gathered.Alike Eq (spliceTemplate t own) (spliceTemplate t' own') := by
  unfold spliceTemplate
  rw [← ht.sql, ← ht.select, ← ht.nested]
  refine .bind (splice_tied _ ht.carried hown) ?_
  rintro sql _ rfl
  refine .bind (.modify ?_) fun _ _ _ => .pure rfl
  intro g g' hg
  exact { hg with nested := by rw [hg.nested] }

theorem subquery_tied (hf : Frame.Alike f f') (model : String) (correlated : Bool)
    (joinTypes : Table JoinType) (trail : List String) (s : Statement) {own own' : Option Context}
    (hown : Option.Rel Context.Alike own own') :
    Tied Gathered.Alike Eq (subquery f model correlated joinTypes trail s own)
      (subquery f' model correlated joinTypes trail s own') := by
  unfold subquery
  rw [← hf.scope]
  refine .bind (lift_tied (.refl _)) ?_
  rintro m _ rfl
  refine .bind .get ?_
  intro g g' hg
  rw [← hg.relations]
  refine .bind (lift_tied (hf.nested _ s)) ?_
  intro t t' ht
  exact spliceTemplate_tied ht hown

theorem subqueryCall_tied (hf : Frame.Alike f f') (args : List Expr) :
    Tied Gathered.Alike Eq (subqueryCall f args) (subqueryCall f' args) := by
  unfold subqueryCall
  rw [← hf.scope]
  split
  · exact subquery_tied hf _ _ _ _ _ .none
  · exact subquery_tied hf _ _ _ _ _ .none
  · exact fail_tied _

theorem named_tied (hf : Frame.Alike f f') (name : String) :
    Tied Gathered.Alike Eq (named f name) (named f' name) := by
  have hsource := hf.registry name
  unfold named
  generalize f.registry.get? name = source at hsource
  generalize f'.registry.get? name = source' at hsource
  cases hsource with
  | none => exact fail_tied _
  | some hsource =>
    cases hsource with
    | query h =>
      dsimp only
      rw [← hf.scope, ← Definition.statement_twins h]
      exact subquery_tied hf _ _ _ _ _ (.some h.alike)
    | values h =>
      intro g g' hg
      refine .ok ⟨by rw [hg.carried.length], { hg with carried := hg.carried.append ?_ }⟩
      simp [ShapesAlike, Value.shape, h]
    | sql h => exact splice_tied _ rfl (.some h.alike)

theorem string_tied (hf : Frame.Alike f f') (text : String) :
    Tied Gathered.Alike Eq (string f text) (string f' text) := by
  unfold string
  rw [← hf.scope]
  split
  · exact named_tied hf _
  · split
    · exact .pure rfl
    · split
      · exact .pure rfl
      · exact fail_tied _

theorem call_tied (hf : Frame.Alike f f') (name : String) (args : List String) :
    Tied Gathered.Alike Eq (call f name args) (call f' name args) := by
  unfold call
  rw [← hf.scope]
  refine .bind (.modify ?_) ?_
  · intro g g' hg
    exact { hg with aggregated := by rw [hg.aggregated] }
  · intro _ _ _
    split
    · exact lift_tied (.refl _)
    · exact .pure rfl

mutual

theorem expr_tied (hf : Frame.Alike f f') : ∀ e : Expr,
    Tied Gathered.Alike Eq (expr f e) (expr f' e)
  | .path head rest => path_tied hf head rest
  | .number _ => .pure rfl
  | .str text => string_tied hf text
  | .bool _ => .pure rfl
  | .null => .pure rfl
  | .placeholder _ => .pure rfl
  | .star => .pure rfl
  | .call name args => by
    simp only [expr]
    rw [← hf.scope]
    split
    · exact subqueryCall_tied hf args
    · split
      · refine .bind (exprs_tied hf args) ?_
        rintro parts _ rfl
        exact call_tied hf name parts
      · exact fail_tied _
  | .binary op left right => by
    refine .bind (expr_tied hf left) ?_
    rintro l _ rfl
    refine .bind (expr_tied hf right) ?_
    rintro r _ rfl
    exact .pure rfl
  | .compare op left right => by
    simp only [expr]
    refine .bind (expr_tied hf left) ?_
    rintro l _ rfl
    split
    · exact .pure rfl
    · refine .bind (expr_tied hf right) ?_
      rintro r _ rfl
      exact .pure rfl
  | .logical op operands => by
    refine .bind (exprs_tied hf operands) ?_
    rintro parts _ rfl
    exact .pure rfl
  | .unary op operand => by
    refine .bind (expr_tied hf operand) ?_
    rintro sql _ rfl
    exact .pure rfl
  | .tuple items => by
    refine .bind (exprs_tied hf items) ?_
    rintro parts _ rfl
    exact .pure rfl
  | .list items => by
    refine .bind (exprs_tied hf items) ?_
    rintro parts _ rfl
    exact .pure rfl

theorem exprs_tied (hf : Frame.Alike f f') : ∀ es : List Expr,
    Tied Gathered.Alike Eq (exprs f es) (exprs f' es)
  | [] => .pure rfl
  | e :: rest => by
    refine .bind (expr_tied hf e) ?_
    rintro sql _ rfl
    refine .bind (exprs_tied hf rest) ?_
    rintro parts _ rfl
    exact .pure rfl

end

/-! ### Statements -/

theorem fragment_tied (hf : Frame.Alike f f') (e : Expr) :
    Tied Gathered.Alike Eq (fragment f e) (fragment f' e) := by
  intro g g' hg
  have hexpr := expr_tied hf e g g' hg
  unfold fragment
  generalize expr f e g = reply at hexpr
  generalize expr f' e g' = reply' at hexpr
  cases hexpr with
  | ok h => exact .ok ⟨by rw [h.1, hg.fieldReads, h.2.fieldReads], h.2⟩
  | error e => exact .error e

theorem columns_tied (hf : Frame.Alike f f') (cs : List Column) :
    Tied Gathered.Alike Eq (columns f cs) (columns f' cs) := by
  induction cs with
  | nil => exact .pure rfl
  | cons c rest ih =>
    have hcolumn : Tied Gathered.Alike Eq (column f c) (column f' c) := by
      refine .bind (lift_tied (.refl _)) ?_
      rintro e _ rfl
      refine .bind (fragment_tied hf e) ?_
      rintro part _ rfl
      exact .pure rfl
    refine .bind hcolumn ?_
    rintro first _ rfl
    refine .bind ih ?_
    rintro parts _ rfl
    exact .pure rfl

theorem filter_tied (hf : Frame.Alike f f') (source : Option String) :
    Tied Gathered.Alike Eq (filter f source) (filter f' source) := by
  cases source with
  | none => exact .pure rfl
  | some source =>
    simp only [filter]
    split
    · exact .pure rfl
    · refine .bind (lift_tied (.refl _)) ?_
      rintro e _ rfl
      refine .bind (fragment_tied hf e) ?_
      rintro part _ rfl
      exact .pure rfl

theorem orderTerms_tied (hf : Frame.Alike f f') (terms : List OrderTerm) :
    Tied Gathered.Alike Eq (orderTerms f terms) (orderTerms f' terms) := by
  induction terms with
  | nil => exact .pure rfl
  | cons t rest ih =>
    refine .bind (fragment_tied hf t.expr) ?_
    rintro first _ rfl
    refine .bind ih ?_
    rintro parts _ rfl
    exact .pure rfl

theorem orderBy_tied (hf : Frame.Alike f f') (source : Option String) :
    Tied Gathered.Alike Eq (orderBy f source) (orderBy f' source) := by
  cases source with
  | none => exact .pure rfl
  | some source =>
    refine .bind (lift_tied (.refl _)) ?_
    rintro terms _ rfl
    exact orderTerms_tied hf terms

theorem plan_tied (hf : Frame.Alike f f') (s : Statement) (cs : List Column) :
    Tied Gathered.Alike Eq (plan f s cs) (plan f' s cs) := by
  unfold plan
  refine .bind (columns_tied hf cs) ?_
  rintro parts _ rfl
  refine .bind (filter_tied hf s.filter) ?_
  rintro filtered _ rfl
  refine .bind (orderBy_tied hf s.orderBy) ?_
  rintro ordered _ rfl
  refine .bind .get ?_
  intro g g' hg
  refine .pure ?_
  rw [hf.scope, hg.relations, hg.aggregated]

theorem select_agree {registry registry' : Registry} {nested nested' : Nested}
    (hregistry : Registry.Alike registry registry')
    (hnested : ∀ scope s, Agree Template.Alike (nested scope s) (nested' scope s))
    (scope : Scope) (s : Statement) :
    Agree Template.Alike (select registry nested scope s) (select registry' nested' scope s) := by
  unfold select
  split
  · exact .error _
  · exact .error _
  · next cs _ _ =>
    have hf : Frame.Alike ⟨scope, registry, nested⟩ ⟨scope, registry', nested'⟩ :=
      ⟨rfl, hregistry, hnested⟩
    have hplan := plan_tied hf s cs { relations := [scope.master] }
      { relations := [scope.master] } ⟨rfl, rfl, rfl, rfl, rfl⟩
    generalize plan ⟨scope, registry, nested⟩ s cs _ = reply at hplan
    generalize plan ⟨scope, registry', nested'⟩ s cs _ = reply' at hplan
    cases hplan with
    | ok h => exact .ok ⟨by rw [h.1], h.2.carried, rfl, h.1, h.2.nested⟩
    | error e => exact .error e

theorem templateWithin_agree {registry registry' : Registry}
    (hregistry : Registry.Alike registry registry') (n : Nat) (scope : Scope) (s : Statement) :
    Agree Template.Alike (templateWithin registry n scope s)
      (templateWithin registry' n scope s) := by
  induction n generalizing scope s with
  | zero => exact select_agree hregistry (fun _ _ => .error _) scope s
  | succ n ih => exact select_agree hregistry ih scope s

end Compile

/-! ### Binding -/

namespace Template

theorem markers_length (d : Dialect) {count : Nat} {xs ys : List Value}
    (h : xs.length = ys.length) : markers d count xs = markers d count ys := by
  induction xs generalizing count ys with
  | nil =>
    cases ys with
    | nil => rfl
    | cons _ _ => cases h
  | cons x xs ih =>
    cases ys with
    | nil => cases h
    | cons y ys => rw [markers, markers, ih (Nat.succ.inj h)]

theorem pushValue_single (d : Dialect) {v : Value} (h : v.shape = none) (ps : List Value) :
    pushValue d v ps = (d.marker (ps.length + 1), ps ++ [v]) := by
  cases v with
  | list items => cases h
  | _ => rfl

/-- Only the shape of a value decides on its markers. -/
theorem pushValue_alike (d : Dialect) {v w : Value} {ps qs : List Value}
    (hshape : v.shape = w.shape) (hlength : ps.length = qs.length) :
    (pushValue d v ps).1 = (pushValue d w qs).1 ∧
      (pushValue d v ps).2.length = (pushValue d w qs).2.length := by
  cases hv : v.shape with
  | none =>
    rw [pushValue_single d hv, pushValue_single d (hshape ▸ hv)]
    simp [hlength]
  | some n =>
    have list_of_shape {u : Value} (hu : u.shape = some n) :
        ∃ items, u = .list items ∧ items.length = n := by
      cases u with
      | list items => exact ⟨items, rfl, Option.some.inj hu⟩
      | _ => cases hu
    obtain ⟨xs, rfl, hxs⟩ := list_of_shape hv
    obtain ⟨ys, rfl, hys⟩ := list_of_shape (hshape ▸ hv)
    cases xs with
    | nil =>
      cases ys with
      | nil => exact ⟨rfl, hlength⟩
      | cons _ _ => simp [← hxs] at hys
    | cons x xs =>
      cases ys with
      | nil => simp [← hys] at hxs
      | cons y ys =>
        have hitems : (x :: xs).length = (y :: ys).length := hxs.trans hys.symm
        simp only [pushValue]
        rw [hlength, markers_length d hitems]
        exact ⟨rfl, by rw [List.length_append, List.length_append, hlength, hitems]⟩

theorem valueOf?_alike {carried carried' : List Value} {context context' : Context}
    (hcarried : ShapesAlike carried carried') (hcontext : Context.Alike context context')
    (name : String) :
    (valueOf? carried context name).map Value.shape =
      (valueOf? carried' context' name).map Value.shape := by
  unfold valueOf?
  split
  · next i _ =>
    rw [← List.getElem?_map, ← List.getElem?_map, hcarried]
  · exact hcontext name

theorem bindToken_tied (d : Dialect) {carried carried' : List Value} {context context' : Context}
    (hcarried : ShapesAlike carried carried') (hcontext : Context.Alike context context')
    (name : String) :
    Tied (fun ps qs => ps.length = qs.length) Eq (bindToken d carried context name)
      (bindToken d carried' context' name) := by
  intro ps qs hlength
  have hvalue := valueOf?_alike hcarried hcontext name
  unfold bindToken
  generalize valueOf? carried context name = found at hvalue
  generalize valueOf? carried' context' name = found' at hvalue
  cases found with
  | none =>
    cases found' with
    | none => exact .error _
    | some w => cases hvalue
  | some v =>
    cases found' with
    | none => cases hvalue
    | some w => exact .ok (pushValue_alike d (Option.some.inj hvalue) hlength)

theorem bind_agree (d : Dialect) {t t' : Template} {context context' : Context}
    (ht : Template.Alike t t') (hcontext : Context.Alike context context') :
    Agree (fun c c' => c.sql = c'.sql ∧ c.columns = c'.columns ∧ c.relations = c'.relations ∧
      c.parameters.length = c'.parameters.length) (t.bind d context) (t'.bind d context') := by
  have hbind := substitute_tied (bindToken_tied d ht.carried hcontext) t.sql [] [] rfl
  unfold bind
  rw [← ht.sql, ← ht.columns, relations, relations, ht.select]
  generalize Placeholder.substitute (bindToken d t.carried context) t.sql [] = bound at hbind
  generalize Placeholder.substitute (bindToken d t'.carried context') t.sql [] = bound' at hbind
  cases hbind with
  | error e => exact .error e
  | ok h => exact .ok ⟨h.1, rfl, rfl, h.2⟩

end Template

/-- Values decide neither on the text nor on whether there is one: compilations whose contexts and
registries differ only in values of the same shape agree. -/
theorem compile_agree {registry registry' : Registry} {context context' : Context}
    (hregistry : Registry.Alike registry registry') (hcontext : Context.Alike context context')
    (scope : Scope) (s : Statement) :
    Agree (fun c c' => c.sql = c'.sql ∧ c.columns = c'.columns ∧ c.relations = c'.relations ∧
        c.parameters.length = c'.parameters.length)
      (compile registry scope context s) (compile registry' scope context' s) := by
  have htemplate := Compile.templateWithin_agree hregistry Compile.maxDepth scope s
  unfold compile Compile.template
  generalize Compile.templateWithin registry Compile.maxDepth scope s = reply at htemplate
  generalize Compile.templateWithin registry' Compile.maxDepth scope s = reply' at htemplate
  cases htemplate with
  | error e => exact .error e
  | ok ht => exact Template.bind_agree scope.options.dialect ht hcontext

def ledger : List Model :=
  [⟨"s", "A", "a", [.key "id", { name := "n" }]⟩]

def ledgerQuery (own : Value) : Definition :=
  { model := "A"
    select := "id as i"
    condition := some (.or [.leaf "n == \x7bw\x7d", .leaf "n == \x7bz\x7d"])
    context := ⟨[("w", own)]⟩ }

def ledgerSources (own : Value) (items : List Value) : Registry :=
  ⟨[("o", .query (ledgerQuery own)), ("v", .values items)]⟩

def ledgerStatement : Statement :=
  { select := "id as i", filter := some "n in \x7bk\x7d and id in '@o' and id in '@v'" }

def ledgerSql : String :=
  "SELECT \"a\".\"id\" AS \"i\" FROM \"a\" WHERE (\"a\".\"n\" IN ($1) AND " ++
    "\"a\".\"id\" IN (SELECT \"a\".\"id\" AS \"i\" FROM \"a\" WHERE \"a\".\"n\" = $2) AND " ++
    "\"a\".\"id\" IN ($3))"

theorem ledgerSources_alike {own own' : Value} {items items' : List Value}
    (hshape : own.shape = own'.shape) (hpresent : own.isPresent = own'.isPresent)
    (hlength : items.length = items'.length) :
    Registry.Alike (ledgerSources own items) (ledgerSources own' items') := by
  have hown : Context.Twins (ledgerQuery own).context (ledgerQuery own').context := by
    constructor
    · intro name
      simp only [ledgerQuery, Table.get?, Table.find?]
      split
      · exact congrArg some hshape
      · rfl
    · intro name
      simp only [ledgerQuery, Table.get?, Table.find?]
      split
      · exact congrArg some hpresent
      · rfl
  intro name
  simp only [ledgerSources, Table.get?, Table.find?]
  split
  · exact .some (.query hown)
  · split
    · exact .some (.values hlength)
    · exact .none

theorem compile_agree_ledger :
    Registry.Alike (ledgerSources (.int 1) [.null]) (ledgerSources (.text "b") [.text "x"]) ∧
    Context.Alike ⟨[("k", .list [.null])]⟩ ⟨[("k", .list [.int 7])]⟩ ∧
    ∃ schema model c, Schema.build ledger = .ok schema ∧
      schema.resolveModel "A" none = .ok model ∧
      compile (ledgerSources (.int 1) [.null]) (.top schema {} model {}) ⟨[("k", .list [.null])]⟩
        ledgerStatement = .ok c ∧
      c.sql = ledgerSql ∧
      Agree (fun c c' => c.sql = c'.sql ∧ c.columns = c'.columns ∧ c.relations = c'.relations ∧
          c.parameters.length = c'.parameters.length) (.ok c)
        (compile (ledgerSources (.text "b") [.text "x"]) (.top schema {} model {})
          ⟨[("k", .list [.int 7])]⟩ ledgerStatement) := by
  have h : ((Schema.build ledger).toOption.bind fun schema =>
      (schema.resolveModel "A" none).toOption.bind fun model =>
      (compile (ledgerSources (.int 1) [.null]) (.top schema {} model {})
        ⟨[("k", .list [.null])]⟩ ledgerStatement).toOption.map fun c => c.sql) =
      some ledgerSql := by
    decide +kernel
  simp only [Option.bind_eq_some_iff, Option.map_eq_some_iff, toOption_eq_some_iff] at h
  obtain ⟨schema, hschema, model, hmodel, c, hc, hsql⟩ := h
  have hsources : Registry.Alike (ledgerSources (.int 1) [.null])
      (ledgerSources (.text "b") [.text "x"]) :=
    ledgerSources_alike rfl (by decide +kernel) rfl
  have hcontext : Context.Alike ⟨[("k", .list [.null])]⟩ ⟨[("k", .list [.int 7])]⟩ := by
    intro name
    simp only [Table.get?, Table.find?]
    split <;> rfl
  refine ⟨hsources, hcontext, schema, model, c, hschema, hmodel, hc, hsql, ?_⟩
  rw [← hc]
  exact compile_agree hsources hcontext (.top schema {} model {}) ledgerStatement

end PathQuery
