import PathQuery.Compile
import PathQuery.Proofs.Expr.Range
import PathQuery.Proofs.Steps

/-!
What compiling an expression is made of where it succeeds. The steps for each kind of expression
are taken apart once, here: what is to hold of every fragment is shown by the cases of an induction
over them.
-/

namespace PathQuery
namespace Compile

open Steps

variable {f : Frame} {g g' : Gathered}

/-! ### What succeeds -/

@[simp]
theorem lift_ok_iff {α : Type} {x : Except Error α} {a : α} :
    lift x g = .ok (a, g') ↔ x = .ok a ∧ g' = g := by
  cases x <;> simp [lift, eq_comm]

@[simp]
theorem path_ok_iff {head sql : String} {rest : List String} :
    path f head rest g = .ok (sql, g') ↔
      ∃ target relations, Join.resolvePath f.scope head rest g.relations = .ok (target, relations) ∧
        sql = target.sql f.scope.options.dialect ∧
        g' = { g with relations, fieldReads := g.fieldReads + 1 } := by
  unfold path
  cases h : Join.resolvePath f.scope head rest g.relations with
  | error => simp
  | ok p =>
    simp only [Except.ok.injEq, Prod.mk.injEq]
    constructor
    · rintro ⟨rfl, rfl⟩
      exact ⟨p.1, p.2, rfl, rfl, rfl⟩
    · rintro ⟨_, _, rfl, rfl, rfl⟩
      exact ⟨rfl, rfl⟩

@[simp]
theorem splice_ok_iff {text sql : String} {carried : List Value} {own : Option Context} :
    splice text carried own g = .ok (sql, g') ↔
      ∃ moved after, Splice.move text carried own g.carried = .ok (moved, after) ∧
        sql = "(" ++ moved ++ ")" ∧ g' = { g with carried := after } := by
  unfold splice
  cases h : Splice.move text carried own g.carried with
  | error => simp
  | ok p =>
    simp only [Except.ok.injEq, Prod.mk.injEq]
    constructor
    · rintro ⟨rfl, rfl⟩
      exact ⟨p.1, p.2, rfl, rfl, rfl⟩
    · rintro ⟨_, _, rfl, rfl, rfl⟩
      exact ⟨rfl, rfl⟩

/-- A sub-query is compiled in the scope below and moved to its place. -/
theorem subquery_ok {name sql : String} {correlated : Bool} {joinTypes : Table JoinType}
    {trail : List String} {s : Statement} {own : Option Context}
    (h : subquery f name correlated joinTypes trail s own g = .ok (sql, g')) :
    ∃ m t moved after, Join.resolveModel f.scope name = .ok m ∧
      f.nested (f.scope.below g.relations m
        (if correlated then some ⟨f.scope.model, f.scope.master.reference⟩ else none) joinTypes
        trail) s = .ok t ∧
      Splice.move t.sql t.carried own g.carried = .ok (moved, after) ∧
      sql = "(" ++ moved ++ ")" ∧
      g' = { g with carried := after, nested := g.nested ++ t.select :: t.nested } := by
  simp [subquery, spliceTemplate] at h
  obtain ⟨m, hm, t, ht, moved, after, hmove, rfl, rfl⟩ := h
  exact ⟨m, t, moved, after, hm, ht, hmove, rfl, rfl⟩

theorem subqueryCall_ok {args : List Expr} {sql : String}
    (h : subqueryCall f args g = .ok (sql, g')) :
    ∃ model select filter, args.mapM Expr.text? = some (model :: select :: Option.toList filter) ∧
      subquery f model true {} f.scope.trail { select, filter } none g = .ok (sql, g') := by
  unfold subqueryCall at h
  generalize args.mapM Expr.text? = sources at h ⊢
  match sources, h with
  | some [model, select], h => exact ⟨model, select, none, rfl, h⟩
  | some [model, select, filter], h => exact ⟨model, select, some filter, rfl, h⟩
  | none, h => cases h
  | some [], h => cases h
  | some [_], h => cases h
  | some (_ :: _ :: _ :: _ :: _), h => cases h

/-- A name stands for a query, for values that are carried on, or for text. -/
theorem named_cases {name sql : String} (h : named f name g = .ok (sql, g')) :
    (∃ d, f.registry.get? name = some (.query d) ∧
      subquery f d.model false d.joinTypes (name :: f.scope.trail) (d.statement d.context)
        (some d.context) g = .ok (sql, g')) ∨
    (∃ items, f.registry.get? name = some (.values items) ∧ sql = Splice.token g.carried.length ∧
      g' = { g with carried := g.carried ++ [.list items] }) ∨
    (∃ text context, f.registry.get? name = some (.sql text context) ∧
      splice text [] (some context) g = .ok (sql, g')) := by
  unfold named at h
  cases hd : f.registry.get? name with
  | none => simp [hd, fail] at h
  | some source =>
    cases source with
    | query d =>
      simp only [hd] at h
      exact .inl ⟨d, rfl, h⟩
    | values items =>
      simp only [hd] at h
      cases h
      exact .inr (.inl ⟨items, rfl, rfl, rfl⟩)
    | sql text context =>
      simp only [hd] at h
      exact .inr (.inr ⟨text, context, rfl, h⟩)

theorem string_plain {text : String} (hname : ∀ name, text.toList ≠ '@' :: name) :
    string f text = if !isSelectText text then pure (Text.quoteLiteral text)
      else if f.scope.options.trustLiteralSql then pure ("(" ++ Text.trim text ++ ")")
      else fail (.untrustedSql text) := by
  unfold string
  split
  · next name htext => exact absurd htext (hname name)
  · rfl

/-- A string is the name of a source, a literal, or a whole SELECT where those are trusted. -/
theorem string_cases {text sql : String} (h : string f text g = .ok (sql, g')) :
    (∃ name, text.toList = '@' :: name ∧ named f (.ofList name) g = .ok (sql, g')) ∨
      (∀ name, text.toList ≠ '@' :: name) ∧
        ((sql = Text.quoteLiteral text ∧ g' = g) ∨
          (f.scope.options.trustLiteralSql = true ∧ isSelectText text = true ∧
            sql = "(" ++ Text.trim text ++ ")" ∧ g' = g)) := by
  by_cases hname : ∃ name, text.toList = '@' :: name
  · obtain ⟨name, hname⟩ := hname
    simp only [string, hname] at h
    exact .inl ⟨name, hname, h⟩
  · rw [not_exists] at hname
    refine .inr ⟨hname, ?_⟩
    rw [string_plain hname] at h
    split at h
    · exact .inl (pure_ok_iff.mp h)
    · next hselect =>
      split at h
      · next htrust => exact .inr ⟨htrust, by simpa using hselect, pure_ok_iff.mp h⟩
      · cases h

/-- A call changes nothing but the note of an aggregate. -/
theorem call_state {name sql : String} {args : List String}
    (h : call f name args g = .ok (sql, g')) :
    g' = { g with
      aggregated := g.aggregated || isAggregate f.scope.options.dialect name } := by
  cases hb : Builtin.ofName? name with
  | none =>
    simp [call, hb] at h
    exact h.1
  | some b =>
    simp [call, hb] at h
    exact h.2

/-- A function has SQL of its own, or is called by its name. -/
theorem call_cases {name sql : String} {args : List String}
    (h : call f name args g = .ok (sql, g')) :
    (∃ b, Builtin.ofName? name = some b ∧
      b.render name args f.scope.options.dialect = .ok sql) ∨
      (Builtin.ofName? name = none ∧ sql = name ++ "(" ++ Text.join ", " args ++ ")") := by
  cases hb : Builtin.ofName? name with
  | none =>
    simp [call, hb] at h
    exact .inr ⟨rfl, h.2⟩
  | some b =>
    simp [call, hb] at h
    exact .inl ⟨b, rfl, h.1⟩

/-- A call is a sub-query, or of a function that may be called. -/
theorem expr_call_cases {name sql : String} {args : List Expr}
    (h : expr f (.call name args) g = .ok (sql, g')) :
    (isSubquery name = true ∧ subqueryCall f args g = .ok (sql, g')) ∨
      (isSubquery name = false ∧ isCallable f.scope.options name = true ∧ ∃ parts mid,
        exprs f args g = .ok (parts, mid) ∧ call f name parts mid = .ok (sql, g')) := by
  simp only [expr] at h
  split at h
  · next hsub => exact .inl ⟨hsub, h⟩
  · next hsub =>
    split at h
    · next hcallable =>
      exact .inr ⟨Bool.eq_false_iff.mpr hsub, hcallable, bind_ok_iff.mp h⟩
    · cases h

/-- The right side of a comparison is compiled, or has an end that stands for it. -/
theorem expr_compare_cases {op : CompareOp} {left right : Expr} {sql : String}
    (h : expr f (.compare op left right) g = .ok (sql, g')) :
    ∃ l mid, expr f left g = .ok (l, mid) ∧
      ((∃ rest, shortComparison? op right = some rest ∧ sql = l ++ rest ∧ g' = mid) ∨
        ∃ r, expr f right mid = .ok (r, g') ∧ sql = l ++ " " ++ op.sql ++ " " ++ r) := by
  cases hs : shortComparison? op right with
  | some rest =>
    simp [expr, hs] at h
    obtain ⟨l, hl, rfl⟩ := h
    exact ⟨l, g', hl, .inl ⟨rest, rfl, rfl, rfl⟩⟩
  | none =>
    simp [expr, hs] at h
    obtain ⟨l, mid, hl, r, hr, rfl⟩ := h
    exact ⟨l, mid, hl, .inr ⟨r, hr, rfl⟩⟩

theorem fragment_ok_iff {e : Expr} {part : Fragment} :
    fragment f e g = .ok (part, g') ↔
      ∃ sql, expr f e g = .ok (sql, g') ∧ part = ⟨e, sql, g.fieldReads < g'.fieldReads⟩ := by
  unfold fragment
  cases h : expr f e g with
  | error => simp
  | ok p =>
    obtain ⟨sql, g₁⟩ := p
    simp only [Except.ok.injEq, Prod.mk.injEq]
    constructor
    · rintro ⟨rfl, rfl⟩
      exact ⟨sql, ⟨rfl, rfl⟩, rfl⟩
    · rintro ⟨_, ⟨rfl, rfl⟩, rfl⟩
      exact ⟨rfl, rfl⟩

end Compile

/-! ### Kinds of expressions -/

namespace Expr

/-- The expressions that an expression is put together from. -/
def operands : Expr → List Expr
  | .call _ es | .logical _ es | .tuple es | .list es => es
  | .binary _ left right | .compare _ left right => [left, right]
  | .unary _ e => [e]
  | _ => []

/-- What can be read, and the star that may be the argument of a call. -/
def Legible (e : Expr) : Prop :=
  e.Readable ∨ e = .star

theorem Legible.operand {e x : Expr} (h : e.Legible) (hx : x ∈ e.operands) : x.Legible := by
  obtain hread | rfl := h
  · cases hread with
    | callAll => exact .inr (List.mem_singleton.mp hx)
    | call _ hes | logical _ _ hes | tuple hes | list hes => exact .inl (hes x hx)
    | binary _ hl hr | compare _ hl hr =>
      simp only [operands, List.mem_cons, List.not_mem_nil, or_false] at hx
      obtain rfl | rfl := hx
      · exact .inl hl
      · exact .inl hr
    | unary _ he => exact .inl (List.mem_singleton.mp hx ▸ he)
    | _ => cases hx
  · cases hx

theorem Legible.isNumber {text : String} (h : (number text).Legible) : IsNumber text.toList := by
  obtain (hread | h) := h
  · cases hread with
    | number htext => exact htext
  · cases h

theorem Legible.isBracedName {name : String} (h : (placeholder name).Legible) :
    IsBracedName name.toList := by
  obtain (hread | h) := h
  · cases hread with
    | placeholder hname => exact hname
  · cases h

theorem Legible.isName {name : String} {args : List Expr} (h : (call name args).Legible) :
    IsName name := by
  obtain (hread | h) := h
  · cases hread with
    | callAll hname | call hname => exact hname
  · cases h

end Expr

namespace Compile

open Steps

variable {f : Frame}

/-- The cases of an induction over what is compiled. `P` is of an expression, the state before it,
its fragment and the state behind it, `Q` is of a list of expressions, and both are to hold where
`R` does. A part that another one follows comes with its steps, which tell the state between
them. -/
structure Cases (f : Frame) (R : Expr → Prop) (P : Expr → Gathered → String → Gathered → Prop)
    (Q : List Expr → Gathered → List String → Gathered → Prop) : Prop where
  operand : ∀ {e x}, R e → x ∈ e.operands → R x
  path : ∀ {head rest g sql g'}, path f head rest g = .ok (sql, g') → P (.path head rest) g sql g'
  number : ∀ {text} g, R (.number text) → P (.number text) g text g
  str : ∀ {text g sql g'}, R (.str text) → string f text g = .ok (sql, g') → P (.str text) g sql g'
  bool : ∀ b g, P (.bool b) g (if b then "TRUE" else "FALSE") g
  null : ∀ g, P .null g "NULL" g
  placeholder : ∀ {name} g, R (.placeholder name) →
    P (.placeholder name) g (Placeholder.token name) g
  star : ∀ g, P .star g "*" g
  subquery : ∀ {name args g sql g'}, R (.call name args) → isSubquery name = true →
    subqueryCall f args g = .ok (sql, g') → P (.call name args) g sql g'
  call : ∀ {name args g parts mid sql g'}, R (.call name args) → isSubquery name = false →
    isCallable f.scope.options name = true → Q args g parts mid →
    Compile.call f name parts mid = .ok (sql, g') → P (.call name args) g sql g'
  binary : ∀ {op left right g l mid r g'}, expr f left g = .ok (l, mid) → P left g l mid →
    P right mid r g' → P (.binary op left right) g ("(" ++ l ++ " " ++ op.sql ++ " " ++ r ++ ")") g'
  short : ∀ {op left right rest g l g'}, R right → shortComparison? op right = some rest →
    P left g l g' → P (.compare op left right) g (l ++ rest) g'
  compare : ∀ {op left right g l mid r g'}, expr f left g = .ok (l, mid) → P left g l mid →
    P right mid r g' → P (.compare op left right) g (l ++ " " ++ op.sql ++ " " ++ r) g'
  logical : ∀ {op operands g parts g'}, Q operands g parts g' →
    P (.logical op operands) g ("(" ++ Text.join (" " ++ op.sql ++ " ") parts ++ ")") g'
  unary : ∀ {op operand g sql g'}, P operand g sql g' →
    P (.unary op operand) g (unarySql op sql) g'
  tuple : ∀ {items g parts g'}, Q items g parts g' → P (.tuple items) g (tupleSql parts) g'
  list : ∀ {items g parts g'}, Q items g parts g' → P (.list items) g (tupleSql parts) g'
  nil : ∀ g, Q [] g [] g
  cons : ∀ {e rest g sql mid parts g'}, expr f e g = .ok (sql, mid) → P e g sql mid →
    Q rest mid parts g' → Q (e :: rest) g (sql :: parts) g'

variable {R : Expr → Prop} {P : Expr → Gathered → String → Gathered → Prop}
  {Q : List Expr → Gathered → List String → Gathered → Prop}

mutual

theorem Cases.expr (c : Cases f R P Q) : ∀ (e : Expr) {g g' : Gathered} {sql : String}, R e →
    expr f e g = .ok (sql, g') → P e g sql g'
  | .path _ _, _, _, _, _, h => c.path h
  | .number text, _, _, _, he, h => by
    obtain ⟨rfl, rfl⟩ := pure_ok_iff.mp h
    exact c.number _ he
  | .str _, _, _, _, he, h => c.str he h
  | .bool b, _, _, _, _, h => by
    obtain ⟨rfl, rfl⟩ := pure_ok_iff.mp h
    exact c.bool b _
  | .null, _, _, _, _, h => by
    obtain ⟨rfl, rfl⟩ := pure_ok_iff.mp h
    exact c.null _
  | .placeholder name, _, _, _, he, h => by
    obtain ⟨rfl, rfl⟩ := pure_ok_iff.mp h
    exact c.placeholder _ he
  | .star, _, _, _, _, h => by
    obtain ⟨rfl, rfl⟩ := pure_ok_iff.mp h
    exact c.star _
  | .call name args, _, _, _, he, h => by
    obtain ⟨hsub, h⟩ | ⟨hsub, hcallable, parts, mid, hargs, h⟩ := expr_call_cases h
    · exact c.subquery he hsub h
    · exact c.call he hsub hcallable (c.exprs args (fun _ hx => c.operand he hx) hargs) h
  | .binary op left right, _, _, _, he, h => by
    simp [Compile.expr] at h
    obtain ⟨l, mid, hl, r, hr, rfl⟩ := h
    exact c.binary hl (c.expr left (c.operand he (by simp [Expr.operands])) hl)
      (c.expr right (c.operand he (by simp [Expr.operands])) hr)
  | .compare op left right, _, _, _, he, h => by
    have hleft := c.operand he (x := left) (by simp [Expr.operands])
    have hright := c.operand he (x := right) (by simp [Expr.operands])
    obtain ⟨l, mid, hl, ⟨rest, hs, rfl, rfl⟩ | ⟨r, hr, rfl⟩⟩ := expr_compare_cases h
    · exact c.short hright hs (c.expr left hleft hl)
    · exact c.compare hl (c.expr left hleft hl) (c.expr right hright hr)
  | .logical op operands, _, _, _, he, h => by
    simp [Compile.expr] at h
    obtain ⟨parts, hparts, rfl⟩ := h
    exact c.logical (c.exprs operands (fun _ hx => c.operand he hx) hparts)
  | .unary op operand, _, _, _, he, h => by
    simp [Compile.expr] at h
    obtain ⟨inner, hinner, rfl⟩ := h
    exact c.unary (c.expr operand (c.operand he (by simp [Expr.operands])) hinner)
  | .tuple items, _, _, _, he, h => by
    simp [Compile.expr] at h
    obtain ⟨parts, hparts, rfl⟩ := h
    exact c.tuple (c.exprs items (fun _ hx => c.operand he hx) hparts)
  | .list items, _, _, _, he, h => by
    simp [Compile.expr] at h
    obtain ⟨parts, hparts, rfl⟩ := h
    exact c.list (c.exprs items (fun _ hx => c.operand he hx) hparts)

theorem Cases.exprs (c : Cases f R P Q) :
    ∀ (es : List Expr) {g g' : Gathered} {parts : List String}, (∀ e ∈ es, R e) →
      exprs f es g = .ok (parts, g') → Q es g parts g'
  | [], _, _, _, _, h => by
    obtain ⟨rfl, rfl⟩ := pure_ok_iff.mp h
    exact c.nil _
  | e :: rest, _, _, _, hes, h => by
    rw [List.forall_mem_cons] at hes
    simp [Compile.exprs] at h
    obtain ⟨sql, mid, hsql, parts, hparts, rfl⟩ := h
    exact c.cons hsql (c.expr e hes.1 hsql) (c.exprs rest hes.2 hparts)

end

end Compile
end PathQuery
