import PathQuery.Column
import PathQuery.Expr.Parser

/-!
Order lists: expressions between commas. A term is descending after `desc` or when a minus sign
stands before it.
-/

namespace PathQuery

structure OrderTerm where
  expr : Expr
  descending : Bool
deriving Repr

namespace OrderTerm

open PathQuery.Expr (Parser Reply skipGap)

def direction (cs : List Char) : Option Bool × List Char :=
  match Expr.gap? cs with
  | none => (none, cs)
  | some after =>
    match Expr.keyword? ['d', 'e', 's', 'c'] after with
    | some rest => (some true, rest)
    | none =>
      match Expr.keyword? ['a', 's', 'c'] after with
      | some rest => (some false, rest)
      | none => (none, cs)

def term : Parser (Expr × Option Bool) :=
  fun cs =>
    match Expr.expression cs with
    | .error stuck => .error stuck
    | .ok (e, rest) =>
      let (dir, rest) := direction rest
      .ok ((e, dir), rest)

def moreTerms :
    Nat → List (Expr × Option Bool) → List Char → List (Expr × Option Bool) × List Char
  | 0, terms, cs => (terms, cs)
  | n + 1, terms, cs =>
    match skipGap cs with
    | ',' :: rest =>
      match term (skipGap rest) with
      | .ok (t, rest) => moreTerms n (terms ++ [t]) rest
      | .error _ => (terms, cs)
    | _ => (terms, cs)

def ofParsed : Expr × Option Bool → Except Error OrderTerm
  | (.unary .neg _, some false) => .error .directionConflict
  | (.unary .neg e, _) => .ok ⟨e, true⟩
  | (e, dir) => .ok ⟨e, dir == some true⟩

def ofAll : List (Expr × Option Bool) → Except Error (List OrderTerm)
  | [] => .ok []
  | t :: rest =>
    match ofParsed t with
    | .error e => .error e
    | .ok t =>
      match ofAll rest with
      | .error e => .error e
      | .ok rest => .ok (t :: rest)

def parseList (source : String) : Except Error (List OrderTerm) :=
  match Column.stripOuter (Text.trimChars source.toList) with
  | .error e => .error e
  | .ok [] => .ok []
  | .ok cs =>
    match term cs with
    | .error stuck => .error (.orderStuck (.ofList cs) stuck)
    | .ok (first, rest) =>
      let (terms, rest) := moreTerms rest.length [first] rest
      let rest := Text.trimChars rest
      if rest.isEmpty then ofAll terms else .error (.orderTermNear (.ofList rest))

end OrderTerm
end PathQuery
