import PathQuery.Definition
import PathQuery.Expr.Parser
import PathQuery.Join
import PathQuery.OrderTerm
import PathQuery.Template

/-!
Compiling statements. Expressions become fragments of SQL one after the other, and what they need
is gathered on the way: joined relations, carried values, plans of sub-queries. A sub-query is a
statement of its own one level further down, and the levels are bounded.
-/

namespace PathQuery

structure Gathered where
  relations : List Relation
  aggregated : Bool := false
  carried : List Value := []
  fieldReads : Nat := 0
  nested : List Select := []

namespace Compile

def maxDepth : Nat := 8

abbrev Action := StateT Gathered (Except Error)

def fail {α : Type} (e : Error) : Action α := fun _ => .error e

def lift {α : Type} (x : Except Error α) : Action α := fun g =>
  match x with
  | .ok a => .ok (a, g)
  | .error e => .error e

abbrev Nested := Scope → Statement → Except Error Template

structure Frame where
  scope : Scope
  registry : Registry
  nested : Nested

def path (f : Frame) (head : String) (rest : List String) : Action String := fun g =>
  match Join.resolvePath f.scope head rest g.relations with
  | .ok (target, relations) =>
    .ok (target.sql f.scope.options.dialect,
      { g with relations, fieldReads := g.fieldReads + 1 })
  | .error e => .error e

def splice (sql : String) (carried : List Value) (own : Option Context) : Action String := fun g =>
  match Splice.move sql carried own g.carried with
  | .ok (sql, carried) => .ok ("(" ++ sql ++ ")", { g with carried })
  | .error e => .error e

def spliceTemplate (t : Template) (own : Option Context) : Action String := do
  let sql ← splice t.sql t.carried own
  modify fun g => { g with nested := g.nested ++ t.select :: t.nested }
  return sql

def subquery (f : Frame) (model : String) (correlated : Bool) (joinTypes : Table JoinType)
    (trail : List String) (statement : Statement) (own : Option Context) : Action String := do
  let model ← lift (Join.resolveModel f.scope model)
  let outer := if correlated then some ⟨f.scope.model, f.scope.master.reference⟩ else none
  let g ← get
  let template ← lift (f.nested (f.scope.below g.relations model outer joinTypes trail) statement)
  spliceTemplate template own

/-- A correlated sub-query from its arguments: a model, a column list and maybe a filter. -/
def subqueryCall (f : Frame) (args : List Expr) : Action String :=
  match args.mapM Expr.text? with
  | some [model, select] =>
    subquery f model true {} f.scope.trail { select } none
  | some [model, select, filter] =>
    subquery f model true {} f.scope.trail { select, filter := some filter } none
  | _ => fail .subqueryArguments

def named (f : Frame) (name : String) : Action String :=
  match f.registry.get? name with
  | none => fail (.noSource name)
  | some (.query d) =>
    subquery f d.model false d.joinTypes (name :: f.scope.trail) (d.statement d.context)
      (some d.context)
  | some (.values items) => fun g =>
    .ok (Splice.token g.carried.length, { g with carried := g.carried ++ [.list items] })
  | some (.sql text context) => splice text [] (some context)

def isSelectText (text : String) : Bool :=
  let cs := Text.trimStart text.toList
  (cs.take 6).map Char.toLower == "select".toList && (cs.drop 6).head?.any Text.isBlank

def string (f : Frame) (text : String) : Action String :=
  match text.toList with
  | '@' :: name => named f (.ofList name)
  | _ =>
    if !isSelectText text then pure (Text.quoteLiteral text)
    else if f.scope.options.trustLiteralSql then pure ("(" ++ Text.trim text ++ ")")
    else fail (.untrustedSql text)

/-- The pattern of LIKE for a literal with stars that is compared for equality. -/
def globPattern? : Expr → Option String
  | .str text =>
    if text.toList.contains '*' && text.toList.head? != some '@' && !isSelectText text then
      some (Text.replaceChar '*' "%" text)
    else none
  | _ => none

/-- What a comparison comes to when its right side does not have to be compiled. -/
def shortComparison? (op : CompareOp) (right : Expr) : Option String :=
  match op, globPattern? right, right with
  | .eq, some pattern, _ => some (" LIKE " ++ Text.quoteLiteral pattern)
  | .ne, some pattern, _ => some (" NOT LIKE " ++ Text.quoteLiteral pattern)
  | .eq, _, .null | .is, _, .null => some " IS NULL"
  | .ne, _, .null | .isNot, _, .null => some " IS NOT NULL"
  | _, _, _ => none

def unarySql (op : UnaryOp) (sql : String) : String :=
  match op with
  | .not => "NOT " ++ sql
  | .neg => if sql.toList.head? == some '-' then "-(" ++ sql ++ ")" else "-" ++ sql
  | .pos => sql

def tupleSql (items : List String) : String :=
  if items.isEmpty then "(NULL)" else "(" ++ Text.join ", " items ++ ")"

def isCallable (o : Options) (name : String) : Bool :=
  (Builtin.ofName? name).isSome || o.functions.allows name

def isAggregate (d : Dialect) (name : String) : Bool :=
  (Builtin.ofName? name).any Builtin.isAggregate || d.isAggregate name

def call (f : Frame) (name : String) (args : List String) : Action String := do
  let d := f.scope.options.dialect
  modify fun g => { g with aggregated := g.aggregated || isAggregate d name }
  match Builtin.ofName? name with
  | some b => lift (b.render name args d)
  | none => return name ++ "(" ++ Text.join ", " args ++ ")"

def isSubquery (name : String) : Bool :=
  Text.lowerBasic name == "subquery"

mutual

def expr (f : Frame) : Expr → Action String
  | .path head rest => path f head rest
  | .number text => pure text
  | .str text => string f text
  | .bool b => pure (if b then "TRUE" else "FALSE")
  | .null => pure "NULL"
  | .placeholder name => pure (Placeholder.token name)
  | .star => pure "*"
  | .call name args =>
    if isSubquery name then subqueryCall f args
    else if isCallable f.scope.options name then do
      let args ← exprs f args
      call f name args
    else fail (.unknownFunction name)
  | .binary op left right => do
    let l ← expr f left
    let r ← expr f right
    return "(" ++ l ++ " " ++ op.sql ++ " " ++ r ++ ")"
  | .compare op left right => do
    let l ← expr f left
    match shortComparison? op right with
    | some rest => return l ++ rest
    | none =>
      let r ← expr f right
      return l ++ " " ++ op.sql ++ " " ++ r
  | .logical op operands => do
    let parts ← exprs f operands
    return "(" ++ Text.join (" " ++ op.sql ++ " ") parts ++ ")"
  | .unary op operand => do
    let sql ← expr f operand
    return unarySql op sql
  | .tuple items => do
    let parts ← exprs f items
    return tupleSql parts
  | .list items => do
    let parts ← exprs f items
    return tupleSql parts

def exprs (f : Frame) : List Expr → Action (List String)
  | [] => pure []
  | e :: rest => do
    let sql ← expr f e
    let parts ← exprs f rest
    return sql :: parts

end

def fragment (f : Frame) (e : Expr) : Action Fragment := fun g =>
  match expr f e g with
  | .ok (sql, g') => .ok (⟨e, sql, g.fieldReads < g'.fieldReads⟩, g')
  | .error e => .error e

/-- The source of the column list, where a star or nothing means every concrete field. -/
def selectSource (m : Model) (select : String) : String :=
  let s := Text.trim select
  if s == "" || s == "*" then Text.join ", " (m.concreteFields.map (·.name)) else s

def column (f : Frame) (c : Column) : Action (Fragment × String) := do
  let e ← lift (Expr.parse c.expression)
  let sql ← fragment f e
  return (sql, c.name)

def columns (f : Frame) : List Column → Action (List (Fragment × String))
  | [] => pure []
  | c :: rest => do
    let first ← column f c
    let rest ← columns f rest
    return first :: rest

def filter (f : Frame) : Option String → Action (Option Fragment)
  | none => pure none
  | some source =>
    if (Text.trimChars source.toList).isEmpty then pure none
    else do
      let e ← lift (Expr.parse source)
      let sql ← fragment f e
      return some sql

def orderTerms (f : Frame) : List OrderTerm → Action (List (Fragment × Bool))
  | [] => pure []
  | t :: rest => do
    let first ← fragment f t.expr
    let rest ← orderTerms f rest
    return (first, t.descending) :: rest

def orderBy (f : Frame) : Option String → Action (List (Fragment × Bool))
  | none => pure []
  | some source => do
    let terms ← lift (OrderTerm.parseList source)
    orderTerms f terms

def plan (f : Frame) (s : Statement) (cs : List Column) : Action Select := do
  let columns ← columns f cs
  let filter ← filter f s.filter
  let orderBy ← orderBy f s.orderBy
  let g ← get
  return {
    depth := f.scope.depth
    trail := f.scope.trail
    outer := f.scope.outer.map (·.reference)
    columns
    relations := g.relations
    filter
    orderBy
    aggregated := g.aggregated
    distinct := s.distinct
    limit := s.limit
    offset := s.offset }

def select (registry : Registry) (nested : Nested) (scope : Scope) (s : Statement) :
    Except Error Template :=
  match Column.parseList (selectSource scope.model s.select) with
  | .error e => .error e
  | .ok [] => .error .emptyColumns
  | .ok columns =>
    match plan ⟨scope, registry, nested⟩ s columns { relations := [scope.master] } with
    | .error e => .error e
    | .ok (select, g) =>
      .ok { sql := select.render scope.options.dialect, carried := g.carried, columns, select,
            nested := g.nested }

/-- Compiles a statement with at most so many levels of sub-queries below it. -/
def templateWithin (registry : Registry) : Nat → Nested
  | 0 => select registry fun _ _ => .error (.tooDeep maxDepth)
  | n + 1 => select registry (templateWithin registry n)

def template (registry : Registry) (scope : Scope) (s : Statement) : Except Error Template :=
  templateWithin registry maxDepth scope s

end Compile

def compile (registry : Registry) (scope : Scope) (context : Context) (s : Statement) :
    Except Error Compiled :=
  match Compile.template registry scope s with
  | .ok t => t.bind scope.options.dialect context
  | .error e => .error e

end PathQuery
