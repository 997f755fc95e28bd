/-! Expressions of the query language. -/

namespace PathQuery

inductive BinaryOp where
  | add | sub | mul | div | mod
deriving DecidableEq, Repr

def BinaryOp.sql : BinaryOp → String
  | .add => "+"
  | .sub => "-"
  | .mul => "*"
  | .div => "/"
  | .mod => "%"

inductive CompareOp where
  | eq | ne | lt | le | gt | ge | is | isNot | isIn | notIn
deriving DecidableEq, Repr

def CompareOp.sql : CompareOp → String
  | .eq => "="
  | .ne => "<>"
  | .lt => "<"
  | .le => "<="
  | .gt => ">"
  | .ge => ">="
  | .is => "IS"
  | .isNot => "IS NOT"
  | .isIn => "IN"
  | .notIn => "NOT IN"

inductive Connective where
  | and | or
deriving DecidableEq, Repr

def Connective.sql : Connective → String
  | .and => "AND"
  | .or => "OR"

inductive UnaryOp where
  | neg | pos | not
deriving DecidableEq, Repr

/-- An expression. A number is kept as it was written, a path is dotted and has at least one
segment, and `star` is the argument of `count(*)`. -/
inductive Expr where
  | path (head : String) (rest : List String)
  | number (text : String)
  | str (text : String)
  | bool (b : Bool)
  | null
  | placeholder (name : String)
  | star
  | call (name : String) (args : List Expr)
  | binary (op : BinaryOp) (left right : Expr)
  | compare (op : CompareOp) (left right : Expr)
  | logical (op : Connective) (operands : List Expr)
  | unary (op : UnaryOp) (operand : Expr)
  | tuple (items : List Expr)
  | list (items : List Expr)
deriving Repr

instance : Inhabited Expr := ⟨.null⟩

def Expr.text? : Expr → Option String
  | .str text => some text
  | _ => none

end PathQuery
