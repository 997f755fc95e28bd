import PathQuery.Proofs.Compile.Composition
import PathQuery.Proofs.Compile.Quoting
import PathQuery.Proofs.Template.Binding
import PathQuery.Sample.Small

/-!
The parameters of a statement. What expressions bring is told from what is written: a placeholder
brings the items of its value, registered values bring themselves, and a sub-query brings what its
plan brings, a named one in the context of its definition. Compiled text has its placeholders where
the expressions bring values, through every move, so binding numbers them in the order of the text.
-/

namespace PathQuery

open Sql Template

/-! ### What is written -/

namespace Expr

mutual

/-- The names of the placeholders in an expression. -/
def placeholders : Expr → List String
  | .placeholder name => [name]
  | .call _ es | .logical _ es | .tuple es | .list es => allPlaceholders es
  | .binary _ left right | .compare _ left right => placeholders left ++ placeholders right
  | .unary _ e => placeholders e
  | _ => []

def allPlaceholders : List Expr → List String
  | [] => []
  | e :: rest => placeholders e ++ allPlaceholders rest

end

/-- The names of the placeholders are words that no carried value can have. -/
def WellNamed (e : Expr) : Prop :=
  ∀ name ∈ e.placeholders, name.toList.all isNameRest ∧ ¬ Splice.lead <+: name.toList

instance (e : Expr) : Decidable e.WellNamed :=
  inferInstanceAs (Decidable (∀ name ∈ e.placeholders,
    name.toList.all isNameRest ∧ ¬ Splice.lead <+: name.toList))

theorem mem_allPlaceholders {name : String} {es : List Expr} :
    name ∈ allPlaceholders es ↔ ∃ e ∈ es, name ∈ e.placeholders := by
  induction es with
  | nil => simp [allPlaceholders]
  | cons e rest ih => simp [allPlaceholders, ih]

theorem WellNamed.operands {e x : Expr} (h : e.WellNamed) (hx : x ∈ e.operands) : x.WellNamed := by
  intro name hname
  apply h name
  cases e with
  | call | logical | tuple | list =>
    simp only [placeholders, mem_allPlaceholders]
    exact ⟨x, hx, hname⟩
  | binary | compare =>
    simp only [Expr.operands, List.mem_cons, List.not_mem_nil, or_false] at hx
    simp only [placeholders, List.mem_append]
    rcases hx with rfl | rfl
    · exact .inl hname
    · exact .inr hname
  | unary =>
    simp only [Expr.operands, List.mem_cons, List.not_mem_nil, or_false] at hx
    simp only [placeholders]
    rwa [← hx]
  | _ => cases hx

end Expr

namespace Select

/-- The expressions of a plan, in the order in which they are compiled. -/
def trees (q : Select) : List Expr :=
  q.parts.map (·.expr)

/-- What stands beside a text, at its first place. -/
def beside {α : Type} (texts : List String) (xss : List (List α)) (text : String) : List α :=
  ((texts.zip xss).lookup text).getD []

/-- The values of a plan in the order of its text, from those of its parts: the columns, the filter,
the columns once more that it is grouped by, and the order. -/
def laidOut (d : Dialect) (q : Select) (parts : List (List Value)) : List Value :=
  let columns := parts.take q.columns.length
  let others := parts.drop q.columns.length
  let filter := others.take q.filter.toList.length
  let order := others.drop q.filter.toList.length
  let copies := (q.groupBy d).map (beside (q.columns.map (·.1.sql)) columns)
  columns.flatten ++ filter.flatten ++ copies.flatten ++ order.flatten

theorem laidOut_append {d : Dialect} {q : Select} {columns filter order : List (List Value)}
    (hcolumns : columns.length = q.columns.length)
    (hfilter : filter.length = q.filter.toList.length) :
    q.laidOut d (columns ++ filter ++ order) =
      columns.flatten ++ filter.flatten ++
        ((q.groupBy d).map (beside (q.columns.map (·.1.sql)) columns)).flatten ++
        order.flatten := by
  simp only [laidOut, ← hcolumns, ← hfilter, List.append_assoc, List.take_left, List.drop_left]

def WellNamed (q : Select) : Prop :=
  ∀ e ∈ q.trees, e.WellNamed

instance (q : Select) : Decidable q.WellNamed :=
  inferInstanceAs (Decidable (∀ e ∈ q.trees, e.WellNamed))

end Select

namespace Compile

/-- The plan is one of the statement, on the model of the name. -/
def Plans (schema : Schema) (o : Options) (model : String) (s : Statement) (q : Select) : Prop :=
  ∃ scope t, schema.resolveModel model o.whitelist = .ok scope.model ∧ Written scope s t ∧
    t.select = q

/-- What expressions bring in a context, each its own values. Their sub-queries take their plans
from the front of those that are there, each before the plans of its own sub-queries. -/
inductive Brings (schema : Schema) (o : Options) (registry : Registry) :
    Context → List Expr → List Select → List Select → List (List Value) → Prop
  | nil {context : Context} {plans : List Select} :
      Brings schema o registry context [] plans plans []
  | placeholder {context : Context} {name : String} {v : Value} {es : List Expr}
      {plans rest : List Select} {vss : List (List Value)}
      (hv : context.get? name = some v)
      (h : Brings schema o registry context es plans rest vss) :
      Brings schema o registry context (.placeholder name :: es) plans rest (v.items :: vss)
  | values {context : Context} {text : String} {name : List Char} {items : List Value}
      {es : List Expr} {plans rest : List Select} {vss : List (List Value)}
      (htext : text.toList = '@' :: name)
      (hitems : registry.get? (.ofList name) = some (.values items))
      (h : Brings schema o registry context es plans rest vss) :
      Brings schema o registry context (.str text :: es) plans rest (items :: vss)
  | named {context : Context} {text : String} {name : List Char} {d : Definition} {q : Select}
      {es : List Expr} {plans mid rest : List Select} {parts vss : List (List Value)}
      (htext : text.toList = '@' :: name)
      (hd : registry.get? (.ofList name) = some (.query d))
      (hq : Plans schema o d.model (d.statement d.context) q)
      (hown : Brings schema o registry d.context q.trees plans mid parts)
      (h : Brings schema o registry context es mid rest vss) :
      Brings schema o registry context (.str text :: es) (q :: plans) rest
        (q.laidOut o.dialect parts :: vss)
  | subquery {context : Context} {name model select : String} {filter : Option String}
      {args : List Expr} {q : Select} {es : List Expr} {plans mid rest : List Select}
      {parts vss : List (List Value)} (hname : isSubquery name)
      (hargs : args.mapM Expr.text? = some (model :: select :: filter.toList))
      (hq : Plans schema o model { select, filter } q)
      (hown : Brings schema o registry context q.trees plans mid parts)
      (h : Brings schema o registry context es mid rest vss) :
      Brings schema o registry context (.call name args :: es) (q :: plans) rest
        (q.laidOut o.dialect parts :: vss)
  | node {context : Context} {e : Expr} {es : List Expr} {plans mid rest : List Select}
      {parts vss : List (List Value)} (he : e.isNode)
      (hown : Brings schema o registry context e.operands plans mid parts)
      (h : Brings schema o registry context es mid rest vss) :
      Brings schema o registry context (e :: es) plans rest (parts.flatten :: vss)

section Brings

variable {schema : Schema} {o : Options} {registry : Registry} {context : Context}
  {es more : List Expr} {plans mid rest rest' : List Select} {vss vss' : List (List Value)}

theorem Brings.append (h : Brings schema o registry context es plans mid vss)
    (h' : Brings schema o registry context more mid rest vss') :
    Brings schema o registry context (es ++ more) plans rest (vss ++ vss') := by
  induction h with
  | nil => exact h'
  | placeholder hv _ ih => exact .placeholder hv (ih h')
  | values htext hitems _ ih => exact .values htext hitems (ih h')
  | named htext hd hq hown _ _ ih => exact .named htext hd hq hown (ih h')
  | subquery hname hargs hq hown _ _ ih => exact .subquery hname hargs hq hown (ih h')
  | node he hown _ _ ih => exact .node he hown (ih h')

/-- What is written decides what is brought. -/
theorem Brings.unique (h : Brings schema o registry context es plans rest vss)
    (h' : Brings schema o registry context es plans rest' vss') : rest = rest' ∧ vss = vss' := by
  induction h generalizing rest' vss' with
  | nil =>
    cases h'
    exact ⟨rfl, rfl⟩
  | placeholder hv _ ih =>
    cases h' with
    | placeholder hv' h' =>
      obtain ⟨rfl, rfl⟩ := ih h'
      rw [hv, Option.some.injEq] at hv'
      rw [hv']
      exact ⟨rfl, rfl⟩
    | node he => cases he
  | values htext hitems _ ih =>
    cases h' with
    | values htext' hitems' h' =>
      obtain ⟨rfl, rfl⟩ := ih h'
      rw [htext, List.cons.injEq] at htext'
      rw [← htext'.2, hitems] at hitems'
      cases hitems'
      exact ⟨rfl, rfl⟩
    | named htext' hd =>
      rw [htext, List.cons.injEq] at htext'
      rw [← htext'.2, hitems] at hd
      cases hd
    | node he => simp [Expr.isNode, htext] at he
  | named htext hd hq _ _ ihown ih =>
    cases h' with
    | values htext' hitems =>
      rw [htext, List.cons.injEq] at htext'
      rw [← htext'.2, hd] at hitems
      cases hitems
    | named htext' hd' hq' hown' h' =>
      rw [htext, List.cons.injEq] at htext'
      rw [← htext'.2, hd] at hd'
      cases hd'
      obtain ⟨rfl, rfl⟩ := ihown hown'
      obtain ⟨rfl, rfl⟩ := ih h'
      exact ⟨rfl, rfl⟩
    | node he => simp [Expr.isNode, htext] at he
  | subquery hname _ _ _ _ ihown ih =>
    cases h' with
    | subquery _ _ _ hown' h' =>
      obtain ⟨rfl, rfl⟩ := ihown hown'
      obtain ⟨rfl, rfl⟩ := ih h'
      exact ⟨rfl, rfl⟩
    | node he => simp [Expr.isNode, hname] at he
  | node he _ _ ihown ih =>
    cases h' with
    | placeholder => cases he
    | values htext => simp [Expr.isNode, htext] at he
    | named htext => simp [Expr.isNode, htext] at he
    | subquery hname => simp [Expr.isNode, hname] at he
    | node _ hown' h' =>
      obtain ⟨rfl, rfl⟩ := ihown hown'
      obtain ⟨rfl, rfl⟩ := ih h'
      exact ⟨rfl, rfl⟩

end Brings

/-! ### What compiled text stands for -/

variable {f : Frame} {g mid g' : Gathered} {es more : List Expr} {parts parts' : List String}

/-- The placeholders of the texts stand, behind the carried values, for what the expressions bring
with the plans that were added. -/
def Stands (f : Frame) (es : List Expr) (parts : List String) (added : List Select)
    (carried : List Value) : Prop :=
  ∃ names, ComposedAll parts names ∧ (∀ name ∈ names.flatten, Placed carried name) ∧
    ∀ after, carried <+: after → ∀ context vss,
      List.Forall₂ (fun ns vs => resolve after context ns = some vs) names vss →
        ∀ rest, Brings f.scope.schema f.scope.options f.registry context es (added ++ rest) rest vss

/-- Compiling expressions to texts, between two states. -/
structure Supplied (f : Frame) (es : List Expr) (parts : List String) (g g' : Gathered) :
    Prop where
  carried : g.carried <+: g'.carried
  nested : ∃ added, g'.nested = g.nested ++ added ∧
    (g'.carried.length ≤ Splice.placeLimit → (∀ q ∈ added, q.WellNamed) →
      Stands f es parts added g'.carried)

theorem supplied_nil (g : Gathered) : Supplied f [] [] g g where
  carried := List.prefix_refl _
  nested := by
    refine ⟨[], (List.append_nil _).symm, fun _ _ => ⟨[], .nil, by simp, ?_⟩⟩
    intro _ _ _ _ hvss _
    cases hvss
    exact .nil

theorem Supplied.append (h : Supplied f es parts g mid) (h' : Supplied f more parts' mid g') :
    Supplied f (es ++ more) (parts ++ parts') g g' where
  carried := h.carried.trans h'.carried
  nested := by
    obtain ⟨added, hadded, hstands⟩ := h.nested
    obtain ⟨added', hadded', hstands'⟩ := h'.nested
    refine ⟨added ++ added', by rw [hadded', hadded, List.append_assoc], fun hlimit hnamed => ?_⟩
    rw [List.forall_mem_append] at hnamed
    obtain ⟨names, hparts, hplaced, hbrings⟩ :=
      hstands (h'.carried.length_le.trans hlimit) hnamed.1
    obtain ⟨names', hparts', hplaced', hbrings'⟩ := hstands' hlimit hnamed.2
    refine ⟨names ++ names', List.rel_append hparts hparts', ?_, ?_⟩
    · rw [List.flatten_append, List.forall_mem_append]
      exact ⟨fun name hname => (hplaced name hname).mono h'.carried, hplaced'⟩
    · intro after hafter context vss hvss rest
      obtain ⟨first, last, rfl, hfirst, hlast⟩ := Lists.forall₂_append_left hvss
      rw [List.append_assoc]
      exact (hbrings after (h'.carried.trans hafter) context first hfirst _).append
        (hbrings' after hafter context last hlast rest)

/-- An expression stands for what its operands stand for, if its text is composed of theirs. -/
theorem Supplied.compose {e : Expr} {sql : String} (h : Supplied f e.operands parts g g')
    (he : e.isNode)
    (hsql : ∀ {names}, ComposedAll parts names → Composed sql.toList names.flatten) :
    Supplied f [e] [sql] g g' where
  carried := h.carried
  nested := by
    obtain ⟨added, hadded, hstands⟩ := h.nested
    refine ⟨added, hadded, fun hlimit hnamed => ?_⟩
    obtain ⟨names, hparts, hplaced, hbrings⟩ := hstands hlimit hnamed
    refine ⟨[names.flatten], .cons (hsql hparts) .nil, by simpa using hplaced, ?_⟩
    intro after hafter context vss hvss rest
    obtain _ | ⟨hvs, _ | _⟩ := hvss
    obtain ⟨own, hown, rfl⟩ := resolve_flatten.mp hvs
    exact .node he (hbrings after hafter context own hown rest) .nil

theorem Supplied.node {e : Expr} {sql : String} (h : Supplied f e.operands parts g g')
    (he : e.isNode) (hsql : Woven sql.toList parts) : Supplied f [e] [sql] g g' :=
  h.compose he hsql.composed

theorem Supplied.of_eq (h : Supplied f es parts g mid) (hcarried : g'.carried = mid.carried)
    (hnested : g'.nested = mid.nested) : Supplied f es parts g g' where
  carried := by
    rw [hcarried]
    exact h.carried
  nested := by
    rw [hcarried, hnested]
    exact h.nested

theorem supplied_leaf {e : Expr} {sql : String} (he : e.isNode) (hnone : e.operands = [])
    (hsql : Still sql.toList) (g : Gathered) : Supplied f [e] [sql] g g := by
  have hoperands : Supplied f e.operands [] g g := by
    rw [hnone]
    exact supplied_nil g
  refine hoperands.compose he fun hparts => ?_
  cases hparts
  exact hsql.composed

/-- The text of a template is that of its plan and stands, in any context, for what the plan brings
there. -/
structure Faithful (schema : Schema) (o : Options) (registry : Registry) (t : Template) :
    Prop where
  sql : t.sql = t.select.render o.dialect
  stands : t.carried.length ≤ Splice.placeLimit → (∀ q ∈ t.select :: t.nested, q.WellNamed) →
    ∃ names, Composed t.sql.toList names ∧ (∀ name ∈ names, Placed t.carried name) ∧
      ∀ context vs, resolve t.carried context names = some vs →
        ∃ vss, vs = t.select.laidOut o.dialect vss ∧
          List.Forall₂ (fun p vs => resolve t.carried context (tokenNames p.sql) = some vs)
            t.select.parts vss ∧
          ∀ rest, Brings schema o registry context t.select.trees (t.nested ++ rest) rest vss

/-- No text of the caller is taken as SQL, and sub-queries are faithful. -/
structure Ready (f : Frame) : Prop where
  tidy : f.scope.Tidy
  untrusted : f.scope.options.trustLiteralSql = false
  noText : ∀ name text context, f.registry.get? name ≠ some (.sql text context)
  nested : ∀ scope s t, f.nested scope s = .ok t → scope.Tidy →
    scope.options = f.scope.options → scope.schema = f.scope.schema →
      Written scope s t ∧ Faithful f.scope.schema f.scope.options f.registry t

/-- The relations so far have tidy names. -/
def Joined (f : Frame) (g : Gathered) : Prop :=
  f.scope.master ∈ g.relations ∧ ∀ r ∈ g.relations, r.Tidy

/-- A run keeps what holds of all names. -/
theorem Run.named {P : String → Prop} (hs : f.scope.Named P) (h : Run f g g')
    (hg : f.scope.master ∈ g.relations ∧ ∀ r ∈ g.relations, r.Named P) :
    f.scope.master ∈ g'.relations ∧ ∀ r ∈ g'.relations, r.Named P := by
  refine h.invariant
    (I := fun g => f.scope.master ∈ g.relations ∧ ∀ r ∈ g.relations, r.Named P) ?_ hg
  intro _ _ hstep hnamed
  cases hstep with
  | path hpath =>
    have hgrows := Join.resolvePath_grows hnamed.1 hpath
    exact ⟨hgrows.subset hnamed.1, hgrows.named hs hnamed.2⟩
  | _ => exact hnamed

theorem Run.joined (hs : f.scope.Tidy) (h : Run f g g') (hg : Joined f g) : Joined f g' := by
  simp only [Joined, Relation.tidy_iff] at hg ⊢
  exact h.named (Scope.tidy_iff.mp hs) hg

/-- A sub-query stands for what its plan brings, in its own context if it has one. -/
theorem subquery_supplied (hf : Ready f) {model sql : String} {correlated : Bool}
    {joinTypes : Table JoinType} {trail : List String} {s : Statement} {own : Option Context}
    {e : Expr} (h : subquery f model correlated joinTypes trail s own g = .ok (sql, g'))
    (he : ∀ {context q plans rest vss}, Plans f.scope.schema f.scope.options model s q →
      Brings f.scope.schema f.scope.options f.registry (own.getD context) q.trees plans rest vss →
        Brings f.scope.schema f.scope.options f.registry context [e] (q :: plans) rest
          [q.laidOut f.scope.options.dialect vss]) :
    Supplied f [e] [sql] g g' := by
  obtain ⟨m, t, moved, after, hm, ht, hmove, rfl, rfl⟩ := subquery_ok h
  have hmodel := (Schema.resolveModel_mem hm).1
  obtain ⟨hwritten, hfaithful⟩ := hf.nested _ s t ht (hf.tidy.below hmodel) rfl rfl
  have hgrows := Splice.move_grows hmove
  refine ⟨(List.prefix_append _ _).trans hgrows, t.select :: t.nested, rfl, ?_⟩
  intro hlimit hnamed
  have hlength := hgrows.length_le
  rw [List.length_append] at hlength
  dsimp only at hlimit
  obtain ⟨names, hsql, hplaced, hvalues⟩ := hfaithful.stands (by omega) hnamed
  obtain ⟨new, hnew, hplaced', hresolve⟩ := Splice.move_composed hsql hplaced hmove hlimit
  have houter := (woven_single moved).parenthesized.composed (.cons hnew .nil)
  rw [List.flatten_singleton] at houter
  refine ⟨[new], .cons houter .nil, by simpa using hplaced', ?_⟩
  intro more hmore context vss hvss rest
  obtain _ | ⟨hvs, _ | _⟩ := hvss
  rw [hresolve more hmore context] at hvs
  obtain ⟨own, rfl, -, hbrings⟩ := hvalues _ _ hvs
  refine he ⟨_, t, ?_, hwritten, rfl⟩ (hbrings rest)
  exact hm

theorem named_supplied (hf : Ready f) {text sql : String} {name : List Char}
    (htext : text.toList = '@' :: name) (h : named f (.ofList name) g = .ok (sql, g')) :
    Supplied f [.str text] [sql] g g' := by
  obtain ⟨d, hd, h⟩ | ⟨items, hitems, rfl, rfl⟩ | ⟨_, _, hsql, -⟩ := named_cases h
  · exact subquery_supplied hf h fun hq hown => .named htext hd hq hown .nil
  · refine ⟨List.prefix_append _ _, [], (List.append_nil _).symm, fun hlimit _ => ?_⟩
    have hinside : g.carried.length < (g.carried ++ [Value.list items]).length := by simp
    have htoken : Composed (Splice.token g.carried.length).toList
        [Splice.placeName g.carried.length] := by
      have hsingle := Composed.token (Splice.isWord_placeName g.carried.length) (by simp) .nil
      rwa [List.append_nil] at hsingle
    refine ⟨[[Splice.placeName g.carried.length]], .cons htoken .nil, ?_, ?_⟩
    · simpa using Splice.placed_placeName hinside hlimit
    · intro after hafter context vss hvss rest
      obtain _ | ⟨hvs, _ | _⟩ := hvss
      obtain ⟨v, _, hv, hnone, rfl⟩ := resolve_cons.mp hvs
      rw [Splice.valueOf?_placeName hinside hlimit hafter, List.getElem?_concat_length] at hv
      cases hv
      cases hnone
      rw [List.append_nil]
      exact .values htext hitems .nil
  · exact absurd hsql (hf.noText _ _ _)

theorem string_supplied (hf : Ready f) {text sql : String}
    (h : string f text g = .ok (sql, g')) : Supplied f [.str text] [sql] g g' := by
  by_cases hat : text.toList.head? = some '@'
  · obtain ⟨name, htext⟩ := List.head?_eq_some_iff.mp hat
    simp only [string, htext] at h
    exact named_supplied hf htext h
  · obtain ⟨name, htext, -⟩ | ⟨-, ⟨rfl, rfl⟩ | ⟨htrust, -⟩⟩ := string_cases h
    · exact absurd (by rw [htext]; rfl) hat
    · exact supplied_leaf (by simpa [Expr.isNode] using hat) rfl (still_literal text) g'
    · rw [hf.untrusted] at htrust
      cases htrust

theorem placeholder_supplied {name : String} (hread : Expr.IsBracedName name.toList)
    (hnamed : (Expr.placeholder name).WellNamed) (g : Gathered) :
    Supplied f [.placeholder name] [Placeholder.token name] g g := by
  obtain ⟨hword, hlead⟩ := hnamed name (by simp [Expr.placeholders])
  have hfree := Splice.index?_eq_none hlead
  have hname : IsWord name :=
    ⟨hread.1, fun c hc => isWordChar_of_isNameRest (List.all_eq_true.mp hword c hc)⟩
  have htoken : Composed (Placeholder.token name).toList [name] := by
    have hsingle := Composed.token hname (by simp) .nil
    rwa [List.append_nil] at hsingle
  refine ⟨List.prefix_refl _, [], (List.append_nil _).symm, fun _ _ => ?_⟩
  refine ⟨[[name]], .cons htoken .nil, by simp [Placed, hfree], ?_⟩
  intro after _ context vss hvss rest
  obtain _ | ⟨hvs, _ | _⟩ := hvss
  obtain ⟨v, _, hv, hnone, rfl⟩ := resolve_cons.mp hvs
  rw [valueOf?, hfree] at hv
  cases hnone
  rw [List.append_nil]
  exact .placeholder hv .nil

theorem path_supplied (hs : f.scope.Tidy) (hg : Joined f g) {head sql : String}
    {rest : List String} (h : path f head rest g = .ok (sql, g')) :
    Supplied f [.path head rest] [sql] g g' := by
  obtain ⟨target, relations, hpath, rfl, rfl⟩ := path_ok_iff.mp h
  have htarget := Join.resolvePath_tidy hs hg.1 hg.2 hpath
  have hstill := PathTarget.still htarget f.scope.options.dialect
  exact (supplied_leaf rfl rfl hstill g).of_eq rfl rfl

/-- What a short comparison does not compile brings nothing. -/
theorem shortComparison?_leaf {op : CompareOp} {right : Expr} {rest : String}
    (h : shortComparison? op right = some rest) : right.isNode ∧ right.operands = [] := by
  cases right with
  | str text =>
    refine ⟨?_, rfl⟩
    by_contra hat
    have hat : text.toList.head? = some '@' := by simpa [Expr.isNode] using hat
    cases op <;> simp [shortComparison?, globPattern?, hat] at h
  | null => exact ⟨rfl, rfl⟩
  | _ => cases op <;> cases h

theorem supplied_cases (hf : Ready f) : WovenCases f (fun e => e.Legible ∧ e.WellNamed) (Joined f)
    (fun e g sql g' => Supplied f [e] [sql] g g')
    (fun es g parts g' => Supplied f es parts g g') where
  legible h := h.1
  operand h hx := ⟨h.1.operand hx, h.2.operands hx⟩
  run h := h.joined hf.tidy
  path hg h := path_supplied hf.tidy hg h
  str _ _ := string_supplied hf
  placeholder g h := placeholder_supplied h.1.isBracedName h.2 g
  subquery _ _ hname h := by
    obtain ⟨_, _, _, hargs, h⟩ := subqueryCall_ok h
    exact subquery_supplied hf h fun hq hown => .subquery hname hargs hq hown .nil
  literal g _ hs := by
    obtain ⟨hnode, hnone⟩ := shortComparison?_leaf hs
    exact supplied_leaf hnode hnone (still_shortRight _) g
  node _ he h hsql := (h.node he hsql).of_eq rfl rfl
  nil := supplied_nil
  cons h hrest := h.append hrest

/-- The columns of a plan have tidy names. -/
theorem Written.tidy {scope : Scope} {s : Statement} {t : Template} (h : Written scope s t) :
    ∀ c ∈ t.select.columns, Tidy c.2 := by
  have hnames := Column.parseList_tidy h.columns
  have htrees := h.trees
  generalize t.columns = cs, t.select.columns = ps at hnames htrees
  induction htrees with
  | nil => simp
  | cons hcolumn _ ih =>
    rw [List.forall_mem_cons] at hnames ⊢
    rw [hcolumn.2]
    exact ⟨hnames.1, ih hnames.2⟩

/-! ### Statements -/

theorem composed_beside {texts : List String} {names : List (List String)}
    (h : ComposedAll texts names) {text : String} (ht : text ∈ texts) :
    Composed text.toList (Select.beside texts names text) := by
  unfold Select.beside
  induction h with
  | nil => cases ht
  | @cons t ns texts names hns _ ih =>
    rw [List.zip_cons_cons, List.lookup_cons]
    by_cases heq : text = t
    · subst heq
      simpa using hns
    · have hne : (text == t) = false := by simpa using heq
      rw [hne]
      exact ih ((List.mem_cons.mp ht).resolve_left heq)

theorem mem_beside {texts : List String} {names : List (List String)} {text name : String}
    (h : name ∈ Select.beside texts names text) : name ∈ names.flatten := by
  unfold Select.beside at h
  cases hfound : (texts.zip names).lookup text with
  | none =>
    rw [hfound] at h
    cases h
  | some ns =>
    rw [hfound] at h
    obtain ⟨before, after, hzip, -⟩ := List.lookup_eq_some_iff.mp hfound
    have hmem : (text, ns) ∈ texts.zip names := by simp [hzip]
    exact List.mem_flatten_of_mem (List.of_mem_zip hmem).2 h

theorem resolve_beside {carried : List Value} {context : Context} (texts : List String)
    {names : List (List String)} {vss : List (List Value)}
    (h : List.Forall₂ (fun ns vs => resolve carried context ns = some vs) names vss)
    (text : String) :
    resolve carried context (Select.beside texts names text) =
      some (Select.beside texts vss text) := by
  unfold Select.beside
  induction h generalizing texts with
  | nil => simp [resolve]
  | cons hvs _ ih =>
    cases texts with
    | nil => simp [resolve]
    | cons t texts =>
      rw [List.zip_cons_cons, List.zip_cons_cons, List.lookup_cons, List.lookup_cons]
      split
      · exact hvs
      · exact ih texts

/-- The text of a plan has the placeholders of its parts, and those of the columns once more that it
is grouped by. -/
theorem render_laidOut {q : Select} (d : Dialect) {names : List (List String)}
    (hparts : ComposedAll (q.parts.map (·.sql)) names) (hnames : ∀ c ∈ q.columns, Tidy c.2)
    (hrelations : ∀ r ∈ q.relations, r.Tidy) :
    ∃ total, Composed (q.render d).toList total ∧ (∀ name ∈ total, name ∈ names.flatten) ∧
      ∀ carried context vs, resolve carried context total = some vs →
        ∃ vss, List.Forall₂ (fun ns vs => resolve carried context ns = some vs) names vss ∧
          vs = q.laidOut d vss := by
  have hsplit : q.parts.map (·.sql) =
      q.columns.map (·.1.sql) ++ q.filter.toList.map (·.sql) ++ q.orderBy.map (·.1.sql) := by
    simp [Select.parts, Function.comp_def]
  rw [hsplit] at hparts
  obtain ⟨_, order, rfl, hfront, horder⟩ := Lists.forall₂_append_left hparts
  obtain ⟨columns, filter, rfl, hcolumns, hfilter⟩ := Lists.forall₂_append_left hfront
  have hgroup : ComposedAll (q.groupBy d)
      ((q.groupBy d).map (Select.beside (q.columns.map (·.1.sql)) columns)) := by
    rw [ComposedAll, List.forall₂_map_right_iff, List.forall₂_same]
    intro term hterm
    obtain ⟨c, hc, rfl⟩ := Select.mem_groupBy hterm
    exact composed_beside hcolumns (List.mem_map_of_mem hc)
  have hwhole := (Select.render_woven d hnames hrelations).composed
    (List.rel_append (List.rel_append (List.rel_append hcolumns hfilter) hgroup) horder)
  simp only [List.flatten_append] at hwhole
  refine ⟨_, hwhole, ?_, ?_⟩
  · simp only [List.mem_append, List.flatten_append]
    rintro name (((hname | hname) | hname) | hname)
    · exact .inl (.inl hname)
    · exact .inl (.inr hname)
    · obtain ⟨ns, hns, hname⟩ := List.mem_flatten.mp hname
      obtain ⟨term, -, rfl⟩ := List.mem_map.mp hns
      exact .inl (.inl (mem_beside hname))
    · exact .inr hname
  · intro carried context vs hvs
    obtain ⟨_, _, hgrouped, hordered, rfl⟩ := resolve_append.mp hvs
    obtain ⟨_, group, hbefore, hcopied, rfl⟩ := resolve_append.mp hgrouped
    obtain ⟨_, _, hselected, hfiltered, rfl⟩ := resolve_append.mp hbefore
    obtain ⟨cvs, hcvs, rfl⟩ := resolve_flatten.mp hselected
    obtain ⟨fvs, hfvs, rfl⟩ := resolve_flatten.mp hfiltered
    obtain ⟨ovs, hovs, rfl⟩ := resolve_flatten.mp hordered
    have hcopies : List.Forall₂ (fun ns vs => resolve carried context ns = some vs)
        ((q.groupBy d).map (Select.beside (q.columns.map (·.1.sql)) columns))
        ((q.groupBy d).map (Select.beside (q.columns.map (·.1.sql)) cvs)) := by
      rw [List.forall₂_map_left_iff, List.forall₂_map_right_iff, List.forall₂_same]
      intro term _
      exact resolve_beside _ hcvs term
    rw [resolve_flatten.mpr ⟨_, hcopies, rfl⟩, Option.some.injEq] at hcopied
    refine ⟨cvs ++ fvs ++ ovs, List.rel_append (List.rel_append hcvs hfvs) hovs, ?_⟩
    rw [← hcopied, Select.laidOut_append]
    · rw [← hcvs.length_eq, ← hcolumns.length_eq, List.length_map]
    · rw [← hfvs.length_eq, ← hfilter.length_eq, List.length_map]

theorem resolve_tokenNames {ps : List Fragment} {names : List (List String)} {carried : List Value}
    {context : Context} {vss : List (List Value)} (hparts : ComposedAll (ps.map (·.sql)) names)
    (hvss : List.Forall₂ (fun ns vs => resolve carried context ns = some vs) names vss) :
    List.Forall₂ (fun p vs => resolve carried context (tokenNames p.sql) = some vs) ps vss := by
  rw [ComposedAll, List.forall₂_map_left_iff] at hparts
  induction hparts generalizing vss with
  | nil =>
    cases hvss
    exact .nil
  | cons hpart _ ih =>
    obtain _ | ⟨hvs, hrest⟩ := hvss
    rw [← hpart.tokenNames_eq] at hvs
    exact .cons hvs (ih hrest)

theorem joined_start {registry : Registry} {nested : Nested} {scope : Scope} (hs : scope.Tidy) :
    Joined ⟨scope, registry, nested⟩ { relations := [scope.master] } :=
  ⟨List.mem_singleton_self _, by simpa using hs.master⟩

/-- The tables of a statement have tidy names. -/
theorem select_tidy {registry : Registry} {nested : Nested} {scope : Scope} {s : Statement}
    {t : Template} (hs : scope.Tidy) (h : select registry nested scope s = .ok t) :
    ∀ r ∈ t.select.relations, r.Tidy := by
  obtain ⟨g, hrun, hsame, -⟩ := select_run h
  rw [hsame]
  exact (hrun.joined hs (joined_start hs)).2

/-- A statement is faithful if its sub-queries are. -/
theorem select_faithful {registry : Registry} {nested : Nested} {scope : Scope} {s : Statement}
    {t : Template} (hf : Ready ⟨scope, registry, nested⟩)
    (h : select registry nested scope s = .ok t) :
    Written scope s t ∧ Faithful scope.schema scope.options registry t := by
  obtain ⟨hwritten, hsql, g, hrow, -, hcarried, hnested, -⟩ := select_row h
  refine ⟨hwritten, hsql, fun hlimit hnamed => ?_⟩
  rw [List.forall_mem_cons] at hnamed
  have hsupplied := (supplied_cases hf).cases.exprs _
    (fun e he => ⟨hwritten.legible e he, hnamed.1 e he⟩) hrow.exprs (joined_start hf.tidy)
  obtain ⟨added, hadded, hstands⟩ := hsupplied.nested
  rw [List.nil_append, ← hnested] at hadded
  subst hadded
  rw [← hcarried] at hstands
  obtain ⟨names, hparts, hplaced, hbrings⟩ := hstands hlimit hnamed.2
  obtain ⟨total, htotal, hmem, hvalues⟩ :=
    render_laidOut scope.options.dialect hparts hwritten.tidy (select_tidy hf.tidy h)
  rw [hsql]
  refine ⟨total, htotal, fun name hname => hplaced name (hmem name hname), ?_⟩
  intro context vs hvs
  obtain ⟨vss, hvss, rfl⟩ := hvalues t.carried context vs hvs
  exact ⟨vss, rfl, resolve_tokenNames hparts hvss,
    hbrings t.carried (List.prefix_refl _) context vss hvss⟩

theorem template_faithful {registry : Registry} {scope : Scope} {s : Statement} {t : Template}
    (hregistry : ∀ name text own, registry.get? name ≠ some (.sql text own)) (hs : scope.Tidy)
    (htrust : scope.options.trustLiteralSql = false) (h : template registry scope s = .ok t) :
    Written scope s t ∧ Faithful scope.schema scope.options registry t := by
  refine templateWithin_induction (P := fun scope s t => scope.Tidy →
    scope.options.trustLiteralSql = false →
      Written scope s t ∧ Faithful scope.schema scope.options registry t) ?_ maxDepth h hs htrust
  intro nested hnested scope s t h hs htrust
  refine select_faithful ⟨hs, htrust, hregistry, ?_⟩ h
  intro inner s t ht hinner hoptions hschema
  have hfaithful := hnested inner s t ht hinner (by rw [hoptions]; exact htrust)
  rwa [hoptions, hschema] at hfaithful

/-- Compiling binds the template. -/
theorem compile_eq_bind {registry : Registry} {scope : Scope} {s : Statement} {t : Template}
    (ht : template registry scope s = .ok t) (context : Context) :
    compile registry scope context s = t.bind scope.options.dialect context := by
  unfold compile
  rw [ht]

end Compile

open Compile

/-- The markers of a statement number its parameters from left to right, and the parameters are what
its plan brings in the order of its text. A place is a word of 64 bits, so no more values than
`placeLimit` can be carried. -/
theorem compile_parameters {schema : Schema} {o : Options} {model : Model}
    {joinTypes : Table JoinType} {registry : Registry} {context : Context} {s : Statement}
    {t : Template} {c : Compiled} (hschema : schema.Tidy) (hmodel : model ∈ schema.models)
    (htrust : o.trustLiteralSql = false)
    (hregistry : ∀ name text own, registry.get? name ≠ some (.sql text own))
    (ht : template registry (.top schema o model joinTypes) s = .ok t)
    (hnamed : ∀ q ∈ t.select :: t.nested, q.WellNamed)
    (hlimit : t.carried.length ≤ Splice.placeLimit)
    (h : compile registry (.top schema o model joinTypes) context s = .ok c) :
    Written (.top schema o model joinTypes) s t ∧ t.sql = t.select.render o.dialect ∧
      bindMarkers c.sql = (List.range' 1 c.parameters.length).map o.dialect.marker ∧
      resolve t.carried context (tokenNames t.sql) = some c.parameters ∧
      ∃ vss, c.parameters = t.select.laidOut o.dialect vss ∧
        List.Forall₂ (fun p vs => resolve t.carried context (tokenNames p.sql) = some vs)
          t.select.parts vss ∧
        ∀ rest vss', Brings schema o registry context t.select.trees t.nested rest vss' ↔
          rest = [] ∧ vss' = vss := by
  obtain ⟨hwritten, hfaithful⟩ :=
    template_faithful hregistry (Scope.tidy_top hschema hmodel o joinTypes) htrust ht
  obtain ⟨names, hsql, -, hvalues⟩ := hfaithful.stands hlimit hnamed
  obtain ⟨hresolve, hmarkers⟩ := bind_composed hsql (compile_eq_bind ht context ▸ h)
  obtain ⟨vss, hlaid, hparts, hbrings⟩ := hvalues context c.parameters hresolve
  have hbrings := hbrings []
  rw [List.append_nil] at hbrings
  rw [← hsql.tokenNames_eq] at hresolve
  refine ⟨hwritten, hfaithful.sql, hmarkers, hresolve, vss, hlaid, hparts, ?_⟩
  intro rest vss'
  constructor
  · intro hother
    obtain ⟨rfl, rfl⟩ := hbrings.unique hother
    exact ⟨rfl, rfl⟩
  · rintro ⟨rfl, rfl⟩
    exact hbrings

def stockRegistry : Registry :=
  ⟨[("v", .values [.text "v", .text "w"]),
    ("q", .query { model := "B", select := "p",
                   condition := some (.leaf "p == \x7bx\x7d and p in '@v'"),
                   context := ⟨[("x", .text "own")]⟩ })]⟩

def stockStatement : Statement :=
  { select := "p + \x7bx\x7d as s, max(p) as m", filter := some "p in '@q'" }

def stockContext : Context :=
  ⟨[("x", .text "x")]⟩

/-- A named query with a context of its own and registered values in it, and a column that the
statement is grouped by. -/
theorem compile_parameters_stock :
    ∃ schema model t c, Schema.build Sample.stock = .ok schema ∧
      schema.resolveModel "B" none = .ok model ∧
      template stockRegistry (.top schema {} model {}) stockStatement = .ok t ∧
      compile stockRegistry (.top schema {} model {}) stockContext stockStatement = .ok c ∧
      tokenNames t.sql = ["x", "__djaq1", "__djaq0", "x"] ∧
      c.parameters.map Value.text? = ["x", "own", "v", "w", "x"].map some ∧
      bindMarkers c.sql = ["$1", "$2", "$3", "$4", "$5"] ∧
      ∃ vss, c.parameters = t.select.laidOut .postgres vss ∧
        Brings schema {} stockRegistry stockContext t.select.trees t.nested [] vss := by
  have h : ((Schema.build Sample.stock).toOption.bind fun schema =>
      (schema.resolveModel "B" none).toOption.bind fun model =>
      (template stockRegistry (.top schema {} model {}) stockStatement).toOption.bind fun t =>
      (t.bind .postgres stockContext).toOption.map fun c =>
      decide (schema.Tidy ∧ (∀ q ∈ t.select :: t.nested, q.WellNamed) ∧ t.carried.length = 2 ∧
        tokenNames t.sql = ["x", "__djaq1", "__djaq0", "x"] ∧
        c.parameters.map Value.text? = ["x", "own", "v", "w", "x"].map some)) = some true := by
    decide +kernel
  simp only [Option.bind_eq_some_iff, Option.map_eq_some_iff, Steps.toOption_eq_some_iff,
    decide_eq_true_eq] at h
  obtain ⟨schema, hschema, model, hmodel, t, ht, c, hbind, htidy, hnamed, hcarried, hnames,
    hparameters⟩ := h
  have hc : compile stockRegistry (.top schema {} model {}) stockContext stockStatement = .ok c :=
    (compile_eq_bind ht stockContext).trans hbind
  have hregistry : ∀ name text own, stockRegistry.get? name ≠ some (.sql text own) := by
    intro name text own
    simp only [stockRegistry, Table.get?, Table.find?]
    split
    · simp
    · split <;> simp
  obtain ⟨-, -, hmarkers, -, vss, hlaid, -, hbrings⟩ :=
    compile_parameters htidy (Schema.resolveModel_mem hmodel).1 rfl hregistry ht hnamed
      (by rw [hcarried]; decide) hc
  have hlength : c.parameters.length = 5 := by
    simpa using congrArg List.length hparameters
  rw [hlength] at hmarkers
  refine ⟨schema, model, t, c, hschema, hmodel, ht, hc, hnames, hparameters, ?_, vss, hlaid,
    (hbrings [] vss).mpr ⟨rfl, rfl⟩⟩
  rw [hmarkers]
  decide

end PathQuery
