import PathQuery.Placeholder
import PathQuery.Value

/-!
Filters put together from expressions with and and or. Against a context, a leaf with a placeholder
that has no present value is left out, and so is a node that keeps no child.
-/

namespace PathQuery

inductive Condition where
  | leaf (source : String)
  | and (children : List Condition)
  | or (children : List Condition)
deriving Repr

namespace Condition

instance : Inhabited Condition := ⟨.leaf ""⟩

def both : Condition → Condition → Condition
  | .and left, .and right => .and (left ++ right)
  | .and left, right => .and (left ++ [right])
  | left, right => .and [left, right]

def either : Condition → Condition → Condition
  | .or left, .or right => .or (left ++ right)
  | .or left, right => .or (left ++ [right])
  | left, right => .or [left, right]

def isLeaf : Condition → Bool
  | .leaf _ => true
  | _ => false

/-- Whether every placeholder of a source has a present value. -/
def isSupplied (context : Context) (source : String) : Bool :=
  (Placeholder.names source).all fun name =>
    match context.get? name with
    | some v => v.isPresent
    | none => false

/-- The text of a node from the children that are left, each with whether it is a leaf. A single
child that is itself a node needs no parentheses of its own. -/
def combine (word : String) : List (Bool × String) → String
  | [] => ""
  | [(false, s)] => s
  | parts => "(" ++ Text.join word (parts.map (·.2)) ++ ")"

mutual

/-- The filter expression against a context, empty if nothing is left. -/
def render (context : Context) : Condition → String
  | .leaf source => if isSupplied context source then source else ""
  | .and children => combine " and " (survivors context children)
  | .or children => combine " or " (survivors context children)

def survivors (context : Context) : List Condition → List (Bool × String)
  | [] => []
  | c :: rest =>
    let s := render context c
    if s.isEmpty then survivors context rest else (c.isLeaf, s) :: survivors context rest

end

mutual

def display : Condition → String
  | .leaf source => source
  | .and children => "(" ++ Text.join " and " (displayAll children) ++ ")"
  | .or children => "(" ++ Text.join " or " (displayAll children) ++ ")"

def displayAll : List Condition → List String
  | [] => []
  | c :: rest => display c :: displayAll rest

end

end Condition
end PathQuery
