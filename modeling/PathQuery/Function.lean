import PathQuery.Dialect
import PathQuery.Error
import PathQuery.Text.Lower

/-! Functions of the language: those with SQL of their own, and those that pass as written. -/

namespace PathQuery

inductive Builtin where
  | iif | like | ilike | contains | regex | concat | today | cast | pointX | pointY
  | indexChoice | countDistinct | sumIf
deriving DecidableEq, Repr

namespace Builtin

def ofName? (name : String) : Option Builtin :=
  match Text.upperBasic name with
  | "IIF" => some .iif
  | "LIKE" => some .like
  | "ILIKE" => some .ilike
  | "CONTAINS" => some .contains
  | "REGEX" => some .regex
  | "CONCAT" => some .concat
  | "TODAY" => some .today
  | "CAST" => some .cast
  | "POINTX" => some .pointX
  | "POINTY" => some .pointY
  | "INDEX_CHOICE0" => some .indexChoice
  | "COUNTDISTINCT" => some .countDistinct
  | "SUMIF" => some .sumIf
  | _ => none

def isAggregate : Builtin → Bool
  | .countDistinct | .sumIf => true
  | _ => false

/-- The least and, if there is one, the greatest number of arguments. -/
def arity : Builtin → Nat × Option Nat
  | .today => (0, some 0)
  | .pointX | .pointY | .countDistinct => (1, some 1)
  | .like | .ilike | .contains | .regex | .cast => (2, some 2)
  | .iif | .sumIf => (3, some 3)
  | .concat => (1, none)
  | .indexChoice => (2, none)

def accepts (b : Builtin) (n : Nat) : Bool :=
  b.arity.1 ≤ n && (b.arity.2.all fun m => n ≤ m)

def expected (b : Builtin) : String :=
  match b.arity with
  | (least, none) => "at least " ++ Text.ofNat least
  | (least, some most) =>
    if most == least then Text.ofNat least
    else Text.ofNat least ++ " to " ++ Text.ofNat most

def isTypeRest (c : Char) : Bool :=
  c.isAlphanum || c == '_' || c == ' '

def typeSize? (cs : List Char) : Option (List Char × List Char) :=
  let first := cs.takeWhile Text.isDecimalDigit
  let rest := cs.drop first.length
  if first.isEmpty then none
  else
    match rest with
    | ')' :: rest => some (first ++ [')'], rest)
    | ',' :: rest =>
      let blanks := rest.takeWhile Text.isBlank
      let second := (rest.drop blanks.length).takeWhile Text.isDecimalDigit
      if second.isEmpty then none
      else
        match rest.drop (blanks.length + second.length) with
        | ')' :: rest => some (first ++ ',' :: blanks ++ second ++ [')'], rest)
        | _ => none
    | _ => none

def typeName? : List Char → Option (List Char)
  | '\'' :: c :: cs =>
    if !c.isAlpha then none
    else
      let word := cs.takeWhile isTypeRest
      match cs.drop word.length with
      | ['\''] => some (c :: word)
      | '(' :: rest =>
        match typeSize? rest with
        | some (size, ['\'']) => some (c :: word ++ '(' :: size)
        | _ => none
      | _ => none
  | _ => none

def choiceArms : Nat → List String → List String
  | _, [] => []
  | i, a :: rest => ("WHEN " ++ Text.ofNat i ++ " THEN " ++ a) :: choiceArms (i + 1) rest

def render (b : Builtin) (name : String) (args : List String) (d : Dialect) :
    Except Error String :=
  if !b.accepts args.length then .error (.arity name b.expected args.length)
  else
    match b, args with
    | .iif, [c, x, y] => .ok ("CASE WHEN " ++ c ++ " THEN " ++ x ++ " ELSE " ++ y ++ " END")
    | .like, [x, y] => .ok (x ++ " LIKE " ++ y)
    | .ilike, [x, y] => .ok (x ++ " " ++ d.ilike ++ " " ++ y)
    | .contains, [x, y] => .ok (x ++ " " ++ d.ilike ++ " '%' || " ++ y ++ " || '%'")
    | .regex, [x, y] => .ok (x ++ " " ++ d.regexMatch ++ " " ++ y)
    | .concat, args => .ok (Text.join " || " args)
    | .today, _ => .ok "CURRENT_DATE"
    | .cast, [x, y] =>
      match typeName? y.toList with
      | some t => .ok ("CAST(" ++ x ++ " AS " ++ .ofList t ++ ")")
      | none => .error (.castType y)
    | .pointX, [x] => .ok ("ST_X(" ++ x ++ ")")
    | .pointY, [x] => .ok ("ST_Y(" ++ x ++ ")")
    | .indexChoice, x :: arms =>
      .ok ("CASE " ++ x ++ " " ++ Text.join " " (choiceArms 0 arms) ++ " END")
    | .countDistinct, [x] => .ok ("COUNT(DISTINCT " ++ x ++ ")")
    | .sumIf, [c, x, y] =>
      .ok ("SUM(CASE WHEN " ++ c ++ " THEN " ++ x ++ " ELSE " ++ y ++ " END)")
    | b, args => .error (.arity name b.expected args.length)

end Builtin

structure FunctionList where
  names : List String
deriving DecidableEq, Repr

namespace FunctionList

def ofNames (names : List String) : FunctionList :=
  ⟨names.map Text.lower⟩

def standard : FunctionList :=
  ofNames ["abs", "coalesce", "lower", "upper", "length", "round", "nullif", "trim", "substr",
    "replace", "avg", "count", "max", "min", "sum", "group_concat", "total", "stddev", "variance",
    "array_agg", "string_agg"]

instance : Inhabited FunctionList := ⟨standard⟩

def extend (l : FunctionList) (names : List String) : FunctionList :=
  ⟨l.names ++ names.map Text.lower⟩

def allows (l : FunctionList) (name : String) : Bool :=
  l.names.contains (Text.lower name)

end FunctionList
end PathQuery
