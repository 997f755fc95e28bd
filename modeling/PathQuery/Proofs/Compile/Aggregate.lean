import PathQuery.Proofs.Compile.Leading

/-!
Grouping. A plan notes every aggregate that is called outside its sub-queries, and whether each
column reads a field; both can be told from the expressions. Which columns it is grouped by is read
off their text, so a call of an aggregate counts only where the text opens with it: a column with an
aggregate inside another function, behind a minus or in a choice is a term of GROUP BY.
-/

namespace PathQuery
namespace Expr

mutual

/-- Whether the expression calls an aggregate outside its sub-queries. -/
def holdsAggregate (d : Dialect) : Expr → Bool
  | .call name args =>
    !Compile.isSubquery name && (Compile.isAggregate d name || anyHoldsAggregate d args)
  | .binary _ left right | .compare _ left right => holdsAggregate d left || holdsAggregate d right
  | .logical _ es | .tuple es | .list es => anyHoldsAggregate d es
  | .unary _ e => holdsAggregate d e
  | _ => false

def anyHoldsAggregate (d : Dialect) : List Expr → Bool
  | [] => false
  | e :: rest => holdsAggregate d e || anyHoldsAggregate d rest

end

mutual

/-- How many paths the expression has outside its sub-queries. -/
def fieldReads : Expr → Nat
  | .path .. => 1
  | .call name args => if Compile.isSubquery name then 0 else allFieldReads args
  | .binary _ left right | .compare _ left right => fieldReads left + fieldReads right
  | .logical _ es | .tuple es | .list es => allFieldReads es
  | .unary _ e => fieldReads e
  | _ => 0

def allFieldReads : List Expr → Nat
  | [] => 0
  | e :: rest => fieldReads e + allFieldReads rest

end

end Expr

namespace Compile

open Select

variable {f : Frame} {g g' : Gathered} {d : Dialect}

/-! ### What is noted on the way -/

/-- What is noted between two states: aggregates and paths outside sub-queries. -/
structure Noted (aggregated : Bool) (reads : Nat) (g g' : Gathered) : Prop where
  aggregated : g'.aggregated = (g.aggregated || aggregated)
  fieldReads : g'.fieldReads = g.fieldReads + reads

theorem noted_refl (g : Gathered) : Noted false 0 g g :=
  ⟨by simp, rfl⟩

theorem Noted.trans {a b : Bool} {m n : Nat} {mid : Gathered} (h : Noted a m g mid)
    (h' : Noted b n mid g') : Noted (a || b) (m + n) g g' :=
  ⟨by rw [h'.aggregated, h.aggregated, Bool.or_assoc],
    by rw [h'.fieldReads, h.fieldReads, Nat.add_assoc]⟩

theorem subquery_noted {model sql : String} {correlated : Bool} {joinTypes : Table JoinType}
    {trail : List String} {s : Statement} {own : Option Context}
    (h : subquery f model correlated joinTypes trail s own g = .ok (sql, g')) :
    Noted false 0 g g' := by
  obtain ⟨_, _, _, _, -, -, -, -, rfl⟩ := subquery_ok h
  exact ⟨by simp, rfl⟩

theorem named_noted {name sql : String} (h : named f name g = .ok (sql, g')) :
    Noted false 0 g g' := by
  obtain ⟨_, -, h⟩ | ⟨_, -, -, rfl⟩ | ⟨_, _, -, h⟩ := named_cases h
  · exact subquery_noted h
  · exact ⟨by simp, rfl⟩
  · obtain ⟨_, _, -, -, rfl⟩ := splice_ok_iff.mp h
    exact ⟨by simp, rfl⟩

theorem string_noted {text sql : String} (h : string f text g = .ok (sql, g')) :
    Noted false 0 g g' := by
  obtain ⟨name, -, hnamed⟩ | ⟨-, ⟨-, rfl⟩ | ⟨-, -, -, rfl⟩⟩ := string_cases h
  · exact named_noted hnamed
  · exact noted_refl g'
  · exact noted_refl g'

theorem call_noted {name sql : String} {args : List String}
    (h : call f name args g = .ok (sql, g')) :
    Noted (isAggregate f.scope.options.dialect name) 0 g g' := by
  rw [call_state h]
  exact ⟨rfl, rfl⟩

/-- What a short comparison does not compile notes nothing. -/
theorem shortComparison?_noted {op : CompareOp} {right : Expr} {rest : String}
    (h : shortComparison? op right = some rest) (d : Dialect) :
    right.holdsAggregate d = false ∧ right.fieldReads = 0 := by
  cases right with
  | str => simp [Expr.holdsAggregate, Expr.fieldReads]
  | null => simp [Expr.holdsAggregate, Expr.fieldReads]
  | _ => cases op <;> cases h

theorem noted_cases (f : Frame) : Cases f (fun _ => True)
    (fun e g _ g' => Noted (e.holdsAggregate f.scope.options.dialect) e.fieldReads g g')
    (fun es g _ g' =>
      Noted (Expr.anyHoldsAggregate f.scope.options.dialect es) (Expr.allFieldReads es) g g') where
  operand _ _ := trivial
  path h := by
    obtain ⟨_, _, -, -, rfl⟩ := path_ok_iff.mp h
    exact ⟨by simp [Expr.holdsAggregate], by simp [Expr.fieldReads]⟩
  number g _ := by
    simp only [Expr.holdsAggregate, Expr.fieldReads]
    exact noted_refl g
  str _ h := by
    simp only [Expr.holdsAggregate, Expr.fieldReads]
    exact string_noted h
  bool _ g := by
    simp only [Expr.holdsAggregate, Expr.fieldReads]
    exact noted_refl g
  null g := by
    simp only [Expr.holdsAggregate, Expr.fieldReads]
    exact noted_refl g
  placeholder g _ := by
    simp only [Expr.holdsAggregate, Expr.fieldReads]
    exact noted_refl g
  star g := by
    simp only [Expr.holdsAggregate, Expr.fieldReads]
    exact noted_refl g
  subquery _ hsub h := by
    obtain ⟨_, _, _, -, h⟩ := subqueryCall_ok h
    simpa [Expr.holdsAggregate, Expr.fieldReads, hsub] using subquery_noted h
  call _ hsub _ hargs h := by
    simpa [Expr.holdsAggregate, Expr.fieldReads, hsub, Bool.or_comm] using
      hargs.trans (call_noted h)
  binary _ hl hr := by
    rw [Expr.holdsAggregate, Expr.fieldReads]
    exact hl.trans hr
  short _ hs hl := by
    obtain ⟨haggregate, hreads⟩ := shortComparison?_noted hs f.scope.options.dialect
    rw [Expr.holdsAggregate, Expr.fieldReads, haggregate, hreads]
    exact hl.trans (noted_refl _)
  compare _ hl hr := by
    rw [Expr.holdsAggregate, Expr.fieldReads]
    exact hl.trans hr
  logical h := by
    rw [Expr.holdsAggregate, Expr.fieldReads]
    exact h
  unary h := by
    rw [Expr.holdsAggregate, Expr.fieldReads]
    exact h
  tuple h := by
    rw [Expr.holdsAggregate, Expr.fieldReads]
    exact h
  list h := by
    rw [Expr.holdsAggregate, Expr.fieldReads]
    exact h
  nil g := by
    rw [Expr.anyHoldsAggregate, Expr.allFieldReads]
    exact noted_refl g
  cons _ h hrest := by
    rw [Expr.anyHoldsAggregate, Expr.allFieldReads]
    exact h.trans hrest

theorem expr_noted (e : Expr) {sql : String} (h : expr f e g = .ok (sql, g')) :
    Noted (e.holdsAggregate f.scope.options.dialect) e.fieldReads g g' :=
  (noted_cases f).expr e trivial h

/-! ### Statements -/

theorem row_aggregated {parts : List Fragment} (h : Row f parts g g') :
    g'.aggregated =
      (g.aggregated || parts.any fun p => p.expr.holdsAggregate f.scope.options.dialect) := by
  induction h with
  | nil => simp
  | cons hpart _ ih =>
    obtain ⟨sql, hsql, -⟩ := fragment_ok_iff.mp hpart
    rw [ih, (expr_noted _ hsql).aggregated, List.any_cons, Bool.or_assoc]

/-- What the plan notes of a fragment is told by its expression. -/
theorem row_told (hf : Selecting f) {parts : List Fragment} (h : Row f parts g g')
    (hread : ∀ part ∈ parts, part.expr.Readable) :
    ∀ part ∈ parts, part.readsField = decide (0 < part.expr.fieldReads) ∧
      isAggregateSql f.scope.options.dialect part.sql =
        part.expr.opensAggregate f.scope.options.dialect f.registry := by
  induction h with
  | nil => simp
  | @cons part parts _ _ _ hpart _ ih =>
    rw [List.forall_mem_cons] at hread ⊢
    refine ⟨?_, ih hread.2⟩
    obtain ⟨sql, hsql, heq⟩ := fragment_ok_iff.mp hpart
    have hreads := (expr_noted _ hsql).fieldReads
    have hopens := (outermost_cases hf).expr _ (.inl hread.1) hsql []
    rw [List.append_nil, String.ofList_toList] at hopens
    rw [heq]
    refine ⟨?_, hopens⟩
    rw [hreads]
    simp

theorem distinctTexts_filter (p : String → Bool) (texts : List String) :
    distinctTexts (texts.filter p) = (distinctTexts texts).filter p := by
  induction texts with
  | nil => rfl
  | cons s rest ih =>
    by_cases hs : p s
    · rw [List.filter_cons_of_pos hs, distinctTexts, distinctTexts, ih,
        List.filter_cons_of_pos hs, List.filter_comm]
    · have hsame : ∀ x ∈ distinctTexts rest, (p x && x != s) = p x := by
        intro x _
        by_cases hx : x = s
        · simp [hx, hs]
        · simp [hx]
      rw [List.filter_cons_of_neg hs, ih, distinctTexts, List.filter_cons_of_neg hs,
        List.filter_filter, List.filter_congr hsame]

theorem distinctTexts_eq_eraseDups (texts : List String) :
    distinctTexts texts = texts.eraseDups := by
  induction hlength : texts.length using Nat.strong_induction_on generalizing texts with
  | _ n ih =>
    cases texts with
    | nil => rfl
    | cons s rest =>
      have hshorter : (rest.filter (· != s)).length < n := by
        rw [← hlength, List.length_cons]
        exact Nat.lt_succ_of_le (List.length_filter_le _ _)
      rw [distinctTexts, ← distinctTexts_filter, ih _ hshorter _ rfl, List.eraseDups_cons]
      rfl

/-! ### Opening with an aggregate -/

section Opening

variable {registry : Registry}

mutual

/-- Without registered SQL, what opens with an aggregate holds one. -/
theorem holdsAggregate_of_opensAggregate
    (hregistry : ∀ name text own, registry.get? name ≠ some (.sql text own)) :
    ∀ e : Expr, e.opensAggregate d registry → e.holdsAggregate d
  | .path _ _, h | .number _, h | .bool _, h | .null, h | .placeholder _, h | .star, h => by
    simp [Expr.opensAggregate] at h
  | .str text, h => by
    rw [Expr.opensAggregate] at h
    split at h
    · split at h
      · next hsource => exact absurd hsource (hregistry _ _ _)
      · cases h
    · cases h
  | .call name args, h => by
    rw [Expr.opensAggregate] at h
    rw [Expr.holdsAggregate]
    split at h
    · cases h
    · next hsub =>
      rw [Bool.not_eq_true] at hsub
      rw [hsub, Bool.not_false, Bool.true_and, isAggregate]
      split at h
      · next b hb =>
        rw [Bool.or_eq_true, Bool.and_eq_true] at h
        rcases h with hb' | ⟨-, hfirst⟩
        · simp [hb, hb']
        · simp [anyHoldsAggregate_of_firstOpensAggregate hregistry args hfirst]
      · simp [h]
  | .binary _ left right, h => by
    rw [Expr.opensAggregate] at h
    rw [Expr.holdsAggregate, holdsAggregate_of_opensAggregate hregistry left h, Bool.true_or]
  | .compare _ left right, h => by
    rw [Expr.opensAggregate] at h
    rw [Expr.holdsAggregate, holdsAggregate_of_opensAggregate hregistry left h, Bool.true_or]
  | .logical _ es, h => by
    rw [Expr.opensAggregate] at h
    rw [Expr.holdsAggregate]
    exact anyHoldsAggregate_of_firstOpensAggregate hregistry es h
  | .unary op e, h => by
    rw [Expr.holdsAggregate]
    cases op with
    | pos =>
      rw [Expr.opensAggregate] at h
      exact holdsAggregate_of_opensAggregate hregistry e h
    | not => simp [Expr.opensAggregate] at h
    | neg => simp [Expr.opensAggregate] at h
  | .tuple es, h => by
    rw [Expr.opensAggregate] at h
    rw [Expr.holdsAggregate]
    exact anyHoldsAggregate_of_firstOpensAggregate hregistry es h
  | .list es, h => by
    rw [Expr.opensAggregate] at h
    rw [Expr.holdsAggregate]
    exact anyHoldsAggregate_of_firstOpensAggregate hregistry es h

theorem anyHoldsAggregate_of_firstOpensAggregate
    (hregistry : ∀ name text own, registry.get? name ≠ some (.sql text own)) :
    ∀ es : List Expr, Expr.firstOpensAggregate d registry es → Expr.anyHoldsAggregate d es
  | [], h => by cases h
  | e :: rest, h => by
    rw [Expr.firstOpensAggregate] at h
    rw [Expr.anyHoldsAggregate, holdsAggregate_of_opensAggregate hregistry e h, Bool.true_or]

end

end Opening

/-! ### GROUP BY -/

/-- Whether a plan with aggregates is grouped by a column: it reads a field and does not open with
an aggregate call. -/
def isGrouping (d : Dialect) (registry : Registry) (e : Expr) : Bool :=
  decide (0 < e.fieldReads) && !e.opensAggregate d registry

/-- The terms of GROUP BY are told by the expressions of the columns. -/
theorem groupColumns_eq (registry : Registry) {columns : List (Fragment × String)}
    (h : ∀ c ∈ columns, c.1.readsField = decide (0 < c.1.expr.fieldReads) ∧
      isAggregateSql d c.1.sql = c.1.expr.opensAggregate d registry) :
    groupColumns d (columns.map fun c => (c.1.sql, c.1.readsField)) =
      ((columns.filter fun c => isGrouping d registry c.1.expr).map (·.1.sql)).eraseDups := by
  have hfilter : columns.filter (fun c => c.1.readsField && !isAggregateSql d c.1.sql) =
      columns.filter fun c => isGrouping d registry c.1.expr := by
    refine List.filter_congr fun c hc => ?_
    obtain ⟨hreads, hopens⟩ := h c hc
    rw [hreads, hopens]
    rfl
  rw [groupColumns, distinctTexts_eq_eraseDups, List.filter_map, List.map_map, ← hfilter]
  rfl

/-- A template with an aggregate, anywhere outside its sub-queries, is grouped by the columns that
read a field and do not open with an aggregate call. Without registered SQL no column is left out
that reads a field and holds no aggregate. -/
theorem template_groupBy {registry : Registry} {scope : Scope} {s : Statement} {t : Template}
    (h : template registry scope s = .ok t) :
    let d := scope.options.dialect
    Written scope s t ∧ t.sql = t.select.render d ∧
      (t.select.aggregated = true ↔ ∃ part ∈ t.select.parts, part.expr.holdsAggregate d) ∧
      (t.select.groupBy d = if t.select.aggregated then
        ((t.select.columns.filter fun c => isGrouping d registry c.1.expr).map
          (·.1.sql)).eraseDups else []) ∧
      ((∀ name text own, registry.get? name ≠ some (.sql text own)) →
        t.select.aggregated = true → ∀ c ∈ t.select.columns, 0 < c.1.expr.fieldReads →
          c.1.expr.holdsAggregate d = false → c.1.sql ∈ t.select.groupBy d) := by
  intro d
  rw [template, maxDepth, templateWithin] at h
  obtain ⟨hwritten, hsql, g, hrow, haggregated, -, -⟩ := select_row h
  have htold := row_told (selecting_templateWithin scope registry 7) hrow hwritten.readable
  have hgroup : t.select.groupBy d = if t.select.aggregated then
      ((t.select.columns.filter fun c => isGrouping d registry c.1.expr).map
        (·.1.sql)).eraseDups else [] := by
    unfold Select.groupBy
    rw [groupColumns_eq registry]
    intro c hc
    refine htold c.1 ?_
    simp only [Select.parts, List.append_assoc, List.mem_append]
    exact .inl (List.mem_map_of_mem hc)
  refine ⟨hwritten, hsql, ?_, hgroup, ?_⟩
  · rw [haggregated, row_aggregated hrow, Bool.false_or, List.any_eq_true]
  · intro hregistry htrue c hc hreads hnone
    have hopens : c.1.expr.opensAggregate d registry = false := by
      by_contra hopens
      rw [holdsAggregate_of_opensAggregate hregistry _ (Bool.not_eq_false _ ▸ hopens)] at hnone
      cases hnone
    rw [hgroup, htrue, if_pos rfl, List.mem_eraseDups]
    refine List.mem_map_of_mem (List.mem_filter.mpr ⟨hc, ?_⟩)
    simp [isGrouping, hreads, hopens]

def pagesTable : List Model :=
  [⟨"s", "B", "b", [.key "id", { name := "n" }, { name := "p" }]⟩]

def pagesStatement : Statement :=
  { select := "n, sum(p) + p as x, abs(sum(p)) as s, count(*) as c, n as m",
    filter := some "p in subquery('B', 'max(p)')" }

theorem template_pages :
    ∃ schema model t, Schema.build pagesTable = .ok schema ∧
      schema.resolveModel "B" none = .ok model ∧
      template ⟨[]⟩ (.top schema {} model {}) pagesStatement = .ok t ∧
      t.select.aggregated = true ∧
      t.select.groupBy .postgres = ["\"b\".\"n\"", "abs(sum(\"b\".\"p\"))"] ∧
      ∃ c ∈ t.select.columns, c.1.expr.holdsAggregate .postgres ∧
        c.1.sql ∈ t.select.groupBy .postgres := by
  have h : ((Schema.build pagesTable).toOption.bind fun schema =>
      (schema.resolveModel "B" none).toOption.bind fun model =>
      (template ⟨[]⟩ (.top schema {} model {}) pagesStatement).toOption.map fun t =>
        (t.select.aggregated, t.select.groupBy .postgres,
          t.select.columns.any fun c => c.1.expr.holdsAggregate .postgres &&
            (t.select.groupBy .postgres).contains c.1.sql)) =
      some (true, ["\"b\".\"n\"", "abs(sum(\"b\".\"p\"))"], true) := by
    decide +kernel
  simp only [Option.bind_eq_some_iff, Option.map_eq_some_iff, Steps.toOption_eq_some_iff,
    Prod.mk.injEq, List.any_eq_true, Bool.and_eq_true, List.contains_iff_mem] at h
  obtain ⟨schema, hschema, model, hmodel, t, ht, haggregated, hgroup, hcolumn⟩ := h
  exact ⟨schema, model, t, hschema, hmodel, ht, haggregated, hgroup, hcolumn⟩

/-- A sum on the left of its operator is taken for the aggregate of its column, one inside another
function is not. -/
theorem template_groupBy_pages :
    ∃ schema model t, Schema.build pagesTable = .ok schema ∧
      schema.resolveModel "B" none = .ok model ∧
      template ⟨[]⟩ (.top schema {} model {}) pagesStatement = .ok t ∧
      t.select.groupBy .postgres = ["\"b\".\"n\"", "abs(sum(\"b\".\"p\"))"] ∧
      t.select.groupBy .postgres =
        ((t.select.columns.filter fun c => isGrouping .postgres ⟨[]⟩ c.1.expr).map
          (·.1.sql)).eraseDups := by
  obtain ⟨schema, model, t, hschema, hmodel, ht, haggregated, hgroup, -⟩ := template_pages
  refine ⟨schema, model, t, hschema, hmodel, ht, hgroup, ?_⟩
  obtain ⟨-, -, -, hterms, -⟩ := template_groupBy ht
  rw [haggregated, if_pos rfl] at hterms
  exact hterms

/-- A term of GROUP BY can hold an aggregate. -/
theorem exists_groupBy_holdsAggregate :
    ∃ schema model t, Schema.build pagesTable = .ok schema ∧
      schema.resolveModel "B" none = .ok model ∧
      template ⟨[]⟩ (.top schema {} model {}) pagesStatement = .ok t ∧
      ∃ c ∈ t.select.columns, c.1.expr.holdsAggregate .postgres ∧
        c.1.sql ∈ t.select.groupBy .postgres := by
  obtain ⟨schema, model, t, hschema, hmodel, ht, -, -, hcolumn⟩ := template_pages
  exact ⟨schema, model, t, hschema, hmodel, ht, hcolumn⟩

end Compile
end PathQuery
