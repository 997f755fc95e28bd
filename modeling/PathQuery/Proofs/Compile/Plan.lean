import PathQuery.Proofs.Compile.Run
import PathQuery.Proofs.Expr.Range

/-!
The parts of a plan: the fragments of its columns, of its filter and of its order, compiled one
after the other. Each is made from an expression that is read from the statement, so a plan tells
what was written, and what is gathered for it is what a row of fragments gathers.
-/

namespace PathQuery

/-- The fragments of a plan, in the order in which they are compiled. -/
def Select.parts (s : Select) : List Fragment :=
  s.columns.map (·.1) ++ s.filter.toList ++ s.orderBy.map (·.1)

/-- Sources are given as string literals. -/
theorem Expr.mapM_text?_eq_some_iff {es : List Expr} {texts : List String} :
    es.mapM text? = some texts ↔ es = texts.map .str := by
  induction es generalizing texts with
  | nil => cases texts <;> simp
  | cons e es ih =>
    simp only [List.mapM_cons, Option.bind_eq_bind, Option.bind_eq_some_iff, ih]
    constructor
    · rintro ⟨text, htext, rest, rfl, hpure⟩
      cases hpure
      cases e with
      | str => cases htext; rfl
      | _ => cases htext
    · intro h
      cases texts with
      | nil => cases h
      | cons text rest =>
        cases h
        exact ⟨text, rfl, rest, rfl, rfl⟩

namespace Compile

open Steps

/-- The expression of a filter, where blanks stand for none. -/
def filterTree : Option String → Except Error (Option Expr)
  | none => .ok none
  | some source =>
    if (Text.trimChars source.toList).isEmpty then .ok none else (Expr.parse source).map some

def orderTrees : Option String → Except Error (List OrderTerm)
  | none => .ok []
  | some source => OrderTerm.parseList source

/-- The plan of a template holds what is read from the sources of the statement. -/
structure Written (scope : Scope) (s : Statement) (t : Template) : Prop where
  columns : Column.parseList (selectSource scope.model s.select) = .ok t.columns
  trees : List.Forall₂ (fun c p => Expr.parse c.expression = .ok p.1.expr ∧ p.2 = c.name)
    t.columns t.select.columns
  filter : filterTree s.filter = .ok (t.select.filter.map (·.expr))
  orderBy : orderTrees s.orderBy = .ok (t.select.orderBy.map fun p => ⟨p.1.expr, p.2⟩)

/-- Fragments that are compiled one after the other. -/
inductive Row (f : Frame) : List Fragment → Gathered → Gathered → Prop
  | nil (g : Gathered) : Row f [] g g
  | cons {part : Fragment} {parts : List Fragment} {g mid g' : Gathered}
      (h : fragment f part.expr g = .ok (part, mid)) (hrest : Row f parts mid g') :
      Row f (part :: parts) g g'

variable {f : Frame} {g g' mid : Gathered} {parts more : List Fragment}

theorem Row.append (h : Row f parts g mid) (h' : Row f more mid g') :
    Row f (parts ++ more) g g' := by
  induction h with
  | nil => exact h'
  | cons h _ ih => exact .cons h (ih h')

/-- A row of fragments comes from the list of its expressions. -/
theorem Row.exprs (h : Row f parts g g') :
    exprs f (parts.map (·.expr)) g = .ok (parts.map (·.sql), g') := by
  induction h with
  | nil => rfl
  | @cons part _ _ _ _ hpart _ ih =>
    obtain ⟨sql, hsql, heq⟩ := fragment_ok_iff.mp hpart
    have htext : part.sql = sql := congrArg Fragment.sql heq
    simp [Compile.exprs, htext]
    exact ⟨_, hsql, ih⟩

theorem Row.run (h : Row f parts g g') : Run f g g' :=
  (run_cases f).exprs _ (fun _ _ => trivial) h.exprs

/-- A fragment is made from the expression that it holds. -/
theorem fragment_expr {e : Expr} {part : Fragment} (h : fragment f e g = .ok (part, g')) :
    part.expr = e := by
  obtain ⟨sql, -, rfl⟩ := fragment_ok_iff.mp h
  rfl

theorem columns_row {cs : List Column} {parts : List (Fragment × String)}
    (h : columns f cs g = .ok (parts, g')) :
    List.Forall₂ (fun c p => Expr.parse c.expression = .ok p.1.expr ∧ p.2 = c.name) cs parts ∧
      Row f (parts.map (·.1)) g g' := by
  induction cs generalizing g parts with
  | nil =>
    obtain ⟨rfl, rfl⟩ := pure_ok_iff.mp h
    exact ⟨.nil, .nil _⟩
  | cons c rest ih =>
    simp [columns, column] at h
    obtain ⟨e, he, part, mid, hpart, more, hrest, rfl⟩ := h
    obtain ⟨htrees, hrow⟩ := ih hrest
    obtain rfl := fragment_expr hpart
    exact ⟨.cons ⟨he, rfl⟩ htrees, .cons hpart hrow⟩

theorem filter_row {source : Option String} {part : Option Fragment}
    (h : filter f source g = .ok (part, g')) :
    filterTree source = .ok (part.map (·.expr)) ∧ Row f part.toList g g' := by
  cases source with
  | none =>
    obtain ⟨rfl, rfl⟩ := pure_ok_iff.mp h
    exact ⟨rfl, .nil _⟩
  | some source =>
    simp only [filter, filterTree] at h ⊢
    split at h
    · next hblank =>
      obtain ⟨rfl, rfl⟩ := pure_ok_iff.mp h
      rw [if_pos hblank]
      exact ⟨rfl, .nil _⟩
    · next hblank =>
      simp at h
      obtain ⟨e, he, part, hpart, rfl⟩ := h
      obtain rfl := fragment_expr hpart
      rw [if_neg hblank, he]
      exact ⟨rfl, .cons hpart (.nil _)⟩

theorem orderTerms_row {terms : List OrderTerm} {parts : List (Fragment × Bool)}
    (h : orderTerms f terms g = .ok (parts, g')) :
    terms = parts.map (fun p => ⟨p.1.expr, p.2⟩) ∧ Row f (parts.map (·.1)) g g' := by
  induction terms generalizing g parts with
  | nil =>
    obtain ⟨rfl, rfl⟩ := pure_ok_iff.mp h
    exact ⟨rfl, .nil _⟩
  | cons t rest ih =>
    simp [orderTerms] at h
    obtain ⟨part, mid, hpart, more, hrest, rfl⟩ := h
    obtain ⟨htrees, hrow⟩ := ih hrest
    have hexpr := fragment_expr hpart
    refine ⟨by rw [List.map_cons, ← htrees, hexpr], .cons ?_ hrow⟩
    rw [hexpr]
    exact hpart

theorem orderBy_row {source : Option String} {parts : List (Fragment × Bool)}
    (h : orderBy f source g = .ok (parts, g')) :
    orderTrees source = .ok (parts.map fun p => ⟨p.1.expr, p.2⟩) ∧
      Row f (parts.map (·.1)) g g' := by
  cases source with
  | none =>
    obtain ⟨rfl, rfl⟩ := pure_ok_iff.mp h
    exact ⟨rfl, .nil _⟩
  | some source =>
    simp [orderBy] at h
    obtain ⟨terms, hterms, h⟩ := h
    obtain ⟨htrees, hrow⟩ := orderTerms_row h
    exact ⟨by rw [orderTrees, hterms, htrees], hrow⟩

/-- A template holds what a row of fragments gathers, made from what is written. -/
theorem select_row {registry : Registry} {nested : Nested} {scope : Scope} {s : Statement}
    {t : Template} (h : select registry nested scope s = .ok t) :
    Written scope s t ∧ t.sql = t.select.render scope.options.dialect ∧
      ∃ g, Row ⟨scope, registry, nested⟩ t.select.parts { relations := [scope.master] } g ∧
        t.select.aggregated = g.aggregated ∧ t.carried = g.carried ∧ t.nested = g.nested ∧
        t.select.relations = g.relations := by
  unfold select at h
  split at h
  · cases h
  · cases h
  · next cs _ hcolumns =>
    split at h
    · cases h
    · next select g hplan =>
      cases h
      simp [plan] at hplan
      obtain ⟨parts, _, hparts, filtered, _, hfilter, ordered, horder, rfl⟩ := hplan
      obtain ⟨htrees, hrow⟩ := columns_row hparts
      obtain ⟨hfiltered, hrow'⟩ := filter_row hfilter
      obtain ⟨hordered, hrow''⟩ := orderBy_row horder
      exact ⟨⟨hcolumns, htrees, hfiltered, hordered⟩, rfl, _, (hrow.append hrow').append hrow'',
        rfl, rfl, rfl, rfl⟩

/-- A template comes from a run that starts with the master alone. -/
theorem select_run {registry : Registry} {nested : Nested} {scope : Scope} {s : Statement}
    {t : Template} (h : select registry nested scope s = .ok t) :
    ∃ g, Run ⟨scope, registry, nested⟩ { relations := [scope.master] } g ∧
      t.select.relations = g.relations ∧ t.nested = g.nested := by
  obtain ⟨-, -, g, hrow, -, -, hnested, hrelations⟩ := select_row h
  exact ⟨g, hrow.run, hrelations, hnested⟩

/-- A plan has what its scope and its statement say and what was gathered for it. -/
theorem select_plan {registry : Registry} {nested : Nested} {scope : Scope} {s : Statement}
    {t : Template} (h : select registry nested scope s = .ok t) :
    ∃ columns filter orderBy, ∃ g : Gathered, t.select =
      { depth := scope.depth, trail := scope.trail, outer := scope.outer.map (·.reference), columns,
        relations := g.relations, filter, orderBy, aggregated := g.aggregated,
        distinct := s.distinct, limit := s.limit, offset := s.offset } := by
  unfold select at h
  split at h
  · cases h
  · cases h
  · split at h
    · cases h
    · next hplan =>
      cases h
      simp [plan] at hplan
      obtain ⟨columns, _, -, filter, _, -, orderBy, -, rfl⟩ := hplan
      exact ⟨columns, filter, orderBy, _, rfl⟩

/-- A plan knows where its SELECT stands. -/
theorem select_place {registry : Registry} {nested : Nested} {scope : Scope} {s : Statement}
    {t : Template} (h : select registry nested scope s = .ok t) :
    t.select.depth = scope.depth ∧ t.select.trail = scope.trail ∧
      t.select.outer = scope.outer.map (·.reference) := by
  obtain ⟨_, _, _, _, hplan⟩ := select_plan h
  rw [hplan]
  exact ⟨rfl, rfl, rfl⟩

/-- What holds of all that is read from the sources holds of the parts of the plan. -/
theorem Written.forall_parts {scope : Scope} {s : Statement} {t : Template} {Q : Expr → Prop}
    (h : Written scope s t)
    (hcolumns : ∀ c ∈ t.columns, ∀ e, Expr.parse c.expression = .ok e → Q e)
    (hfilter : ∀ source ∈ s.filter, ∀ e, Expr.parse source = .ok e → Q e)
    (horder : ∀ source ∈ s.orderBy, ∀ terms, OrderTerm.parseList source = .ok terms →
      ∀ term ∈ terms, Q term.expr) : ∀ part ∈ t.select.parts, Q part.expr := by
  intro part hpart
  simp only [Select.parts, List.mem_append] at hpart
  obtain (hpart | hpart) | hpart := hpart
  · obtain ⟨p, hp, rfl⟩ := List.mem_map.mp hpart
    have htrees := h.trees
    generalize t.columns = cs, t.select.columns = ps at htrees hp hcolumns
    induction htrees with
    | nil => cases hp
    | cons hread _ ih =>
      rw [List.forall_mem_cons] at hcolumns
      rcases List.mem_cons.mp hp with rfl | hp
      · exact hcolumns.1 _ hread.1
      · exact ih hp hcolumns.2
  · have hread := h.filter
    rw [Option.mem_toList.mp hpart] at hread
    cases hsource : s.filter with
    | none =>
      rw [hsource] at hread
      cases hread
    | some source =>
      rw [hsource, filterTree] at hread
      split at hread
      · cases hread
      · cases hparse : Expr.parse source with
        | error e =>
          rw [hparse] at hread
          cases hread
        | ok e =>
          rw [hparse] at hread
          cases hread
          exact hfilter source hsource _ hparse
  · obtain ⟨p, hp, rfl⟩ := List.mem_map.mp hpart
    have hread := h.orderBy
    cases hsource : s.orderBy with
    | none =>
      rw [hsource, orderTrees, Except.ok.injEq] at hread
      rw [List.map_eq_nil_iff.mp hread.symm] at hp
      cases hp
    | some source =>
      rw [hsource] at hread
      exact horder source hsource _ hread ⟨p.1.expr, p.2⟩ (List.mem_map_of_mem hp)

/-- Everything in a plan can be read from a source. -/
theorem Written.readable {scope : Scope} {s : Statement} {t : Template} (h : Written scope s t) :
    ∀ part ∈ t.select.parts, part.expr.Readable :=
  h.forall_parts (fun _ _ _ hread => Expr.parse_readable hread)
    (fun _ _ _ hread => Expr.parse_readable hread)
    fun _ _ _ hread term hterm => OrderTerm.parseList_readable hread term hterm

theorem Written.legible {scope : Scope} {s : Statement} {t : Template} (h : Written scope s t) :
    ∀ e ∈ t.select.parts.map (·.expr), e.Legible :=
  List.forall_mem_map.mpr fun part hpart => .inl (h.readable part hpart)

end Compile
end PathQuery
