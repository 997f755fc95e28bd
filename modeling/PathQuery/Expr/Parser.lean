import PathQuery.Expr
import PathQuery.Error

/-!
Parsing expressions. From the loosest to the tightest, the levels are `or`, `and`, `not`,
comparisons, sums, products, signs and the primary forms. Each level is built on the next one, and
the primary forms hold whole expressions between brackets, so a level takes the parser for those as
an argument. `exprAt n` parses expressions whose brackets nest less than `n` deep.

A parse that fails returns the text at which it got stuck.
-/

namespace PathQuery.Expr

abbrev Reply (α : Type) := Except (List Char) (α × List Char)

abbrev Parser (α : Type) := List Char → Reply α

def isGap (c : Char) : Bool :=
  c == ' ' || c == '\t' || c == '\r' || c == '\n'

def skipGap (cs : List Char) : List Char :=
  cs.dropWhile isGap

def gap? : List Char → Option (List Char)
  | [] => none
  | c :: cs => if isGap c then some (skipGap cs) else none

/-! ### Chains of operators -/

/-- Repeats operator and operand. The number bounds the repetitions. -/
def chainLoop {α β γ : Type} (op? : List Char → Option (β × List Char)) (operand : Parser α)
    (extend : γ → β → α → γ) : Nat → γ → List Char → Reply γ
  | 0, acc, cs => .ok (acc, cs)
  | n + 1, acc, cs =>
    match op? (skipGap cs) with
    | none => .ok (acc, cs)
    | some (op, rest) =>
      match operand (skipGap rest) with
      | .error stuck => .error stuck
      | .ok (x, rest) => chainLoop op? operand extend n (extend acc op x) rest

def connected (op : Connective) (word : List Char) (operand : Parser Expr) : Parser Expr :=
  fun cs =>
    match operand cs with
    | .error stuck => .error stuck
    | .ok (first, rest) =>
      match chainLoop (fun cs => (keyword? word cs).map ((), ·)) operand
          (fun operands _ e => operands ++ [e]) rest.length [first] rest with
      | .error stuck => .error stuck
      | .ok ([e], rest) => .ok (e, rest)
      | .ok (operands, rest) => .ok (.logical op operands, rest)

def leftward (op? : List Char → Option (BinaryOp × List Char)) (operand : Parser Expr) :
    Parser Expr :=
  fun cs =>
    match operand cs with
    | .error stuck => .error stuck
    | .ok (first, rest) =>
      chainLoop op? operand (fun left op right => .binary op left right) rest.length first rest

/-! ### Operators -/

def sumOp? : List Char → Option (BinaryOp × List Char)
  | '+' :: cs => some (.add, cs)
  | '-' :: cs => some (.sub, cs)
  | _ => none

def productOp? : List Char → Option (BinaryOp × List Char)
  | '*' :: cs => some (.mul, cs)
  | '/' :: cs => some (.div, cs)
  | '%' :: cs => some (.mod, cs)
  | _ => none

def keywords? (first second cs : List Char) : Option (List Char) :=
  ((keyword? first cs).bind gap?).bind (keyword? second)

def wordOp? (cs : List Char) : Option (CompareOp × List Char) :=
  match keywords? ['i', 's'] ['n', 'o', 't'] cs with
  | some rest => some (.isNot, rest)
  | none =>
    match keyword? ['i', 's'] cs with
    | some rest => some (.is, rest)
    | none =>
      match keywords? ['n', 'o', 't'] ['i', 'n'] cs with
      | some rest => some (.notIn, rest)
      | none => (keyword? ['i', 'n'] cs).map (.isIn, ·)

def compareOp? : List Char → Option (CompareOp × List Char)
  | '=' :: '=' :: cs => some (.eq, cs)
  | '!' :: '=' :: cs => some (.ne, cs)
  | '<' :: '>' :: cs => some (.ne, cs)
  | '<' :: '=' :: cs => some (.le, cs)
  | '>' :: '=' :: cs => some (.ge, cs)
  | '<' :: cs => some (.lt, cs)
  | '>' :: cs => some (.gt, cs)
  | '=' :: cs => some (.eq, cs)
  | cs => wordOp? cs

/-! ### Levels -/

def comparison (operand : Parser Expr) : Parser Expr :=
  fun cs =>
    match operand cs with
    | .error stuck => .error stuck
    | .ok (left, rest) =>
      match compareOp? (skipGap rest) with
      | none => .ok (left, rest)
      | some (op, after) =>
        match operand (skipGap after) with
        | .error stuck => .error stuck
        | .ok (right, rest) => .ok (.compare op left right, rest)

/-- Any number of `not` before an operand. Where none can be read after `not`, the word itself is
what the parse is stuck at. -/
def negated (operand : Parser Expr) : Nat → Parser Expr
  | 0, cs => operand cs
  | n + 1, cs =>
    match keyword? ['n', 'o', 't'] cs with
    | none => operand cs
    | some rest =>
      match negated operand n (skipGap rest) with
      | .ok (e, rest) => .ok (.unary .not e, rest)
      | .error _ => operand cs

def sign? : List Char → Option (UnaryOp × List Char)
  | '-' :: cs => some (.neg, cs)
  | '+' :: cs => some (.pos, cs)
  | _ => none

def signs (operand : Parser Expr) : Nat → Parser Expr
  | 0, cs => operand cs
  | n + 1, cs =>
    match sign? cs with
    | none => operand cs
    | some (op, rest) =>
      match signs operand n (skipGap rest) with
      | .ok (e, rest) => .ok (.unary op e, rest)
      | .error _ => .error cs

/-! ### Primary forms -/

def moreItems (inner : Parser Expr) : Nat → List Expr → List Char → List Expr × List Char
  | 0, items, cs => (items, cs)
  | n + 1, items, cs =>
    match skipGap cs with
    | ',' :: rest =>
      match inner (skipGap rest) with
      | .ok (e, rest) => moreItems inner n (items ++ [e]) rest
      | .error _ => (items, cs)
    | _ => (items, cs)

def trailingComma (cs : List Char) : Bool × List Char :=
  match skipGap cs with
  | ',' :: rest => (true, rest)
  | _ => (false, cs)

def sequence (inner : Parser Expr) (cs : List Char) : (List Expr × Bool) × List Char :=
  let (items, rest) := match inner cs with
    | .ok (e, rest) => moreItems inner rest.length [e] rest
    | .error _ => ([], cs)
  let (trailing, rest) := trailingComma rest
  ((items, trailing), rest)

def closing? (close : Char) (cs : List Char) : Option (List Char) :=
  match skipGap cs with
  | c :: rest => if c == close then some rest else none
  | [] => none

/-- After `(`: one expression is grouped, otherwise they form a tuple. -/
def grouped? (inner : Parser Expr) (cs : List Char) : Option (Expr × List Char) :=
  let (body, rest) := sequence inner (skipGap cs)
  (closing? ')' rest).map fun rest =>
    match body with
    | ([e], false) => (e, rest)
    | (items, _) => (.tuple items, rest)

def listed? (inner : Parser Expr) (cs : List Char) : Option (Expr × List Char) :=
  let ((items, _), rest) := sequence inner (skipGap cs)
  (closing? ']' rest).map (.list items, ·)

def braced? (cs : List Char) : Option (List Char × List Char) :=
  let name := cs.takeWhile Text.isNameChar
  if name.isEmpty then none
  else
    match cs.drop name.length with
    | c :: rest => if c == '\x7d' then some (name, rest) else none
    | [] => none

def escapes (q : Char) : List Char → Bool
  | c :: _ => c == q || c == '\\'
  | [] => false

/-- After an opening quote `q`: the text up to the closing one. A quote written twice stands for
itself, and so do a quote and a backslash after a backslash. -/
def quotedText? (q : Char) : List Char → Option (List Char × List Char)
  | [] => none
  | c :: rest =>
    if c == q then
      match rest with
      | d :: rest' =>
        if d == q then (quotedText? q rest').map fun (text, rest) => (q :: text, rest)
        else some ([], rest)
      | [] => some ([], [])
    else if c == '\\' && escapes q rest then
      match rest with
      | d :: rest' => (quotedText? q rest').map fun (text, rest) => (d :: text, rest)
      | [] => none
    else (quotedText? q rest).map fun (text, rest) => (c :: text, rest)

/-- A string literal. One that holds just a name in braces is that placeholder. -/
def ofQuoted (text : List Char) : Expr :=
  match text with
  | '\x7b' :: rest =>
    match braced? rest with
    | some (name, []) => .placeholder (.ofList name)
    | _ => .str (.ofList text)
  | _ => .str (.ofList text)

def places (cs : List Char) : List Char :=
  match cs with
  | '.' :: rest =>
    let ds := rest.takeWhile Char.isDigit
    if ds.isEmpty then [] else '.' :: ds
  | _ => []

def exponent (cs : List Char) : List Char :=
  match cs with
  | c :: rest =>
    if c == 'e' || c == 'E' then
      let sign := match rest with
        | '+' :: _ => ['+']
        | '-' :: _ => ['-']
        | _ => []
      let ds := (rest.drop sign.length).takeWhile Char.isDigit
      if ds.isEmpty then [] else c :: sign ++ ds
    else []
  | [] => []

def numberText (cs : List Char) : List Char :=
  let whole := cs.takeWhile Char.isDigit
  let part := places (cs.drop whole.length)
  let power := exponent (cs.drop (whole.length + part.length))
  whole ++ part ++ power

def constant? (cs : List Char) : Option (Expr × List Char) :=
  match keyword? ['t', 'r', 'u', 'e'] cs with
  | some rest => some (.bool true, rest)
  | none =>
    match keyword? ['f', 'a', 'l', 's', 'e'] cs with
    | some rest => some (.bool false, rest)
    | none =>
      match keyword? ['n', 'o', 'n', 'e'] cs with
      | some rest => some (.null, rest)
      | none => (keyword? ['n', 'u', 'l', 'l'] cs).map (.null, ·)

def arguments? (inner : Parser Expr) : List Char → Option (List Expr × List Char)
  | '(' :: cs =>
    match skipGap cs with
    | '*' :: rest => (closing? ')' rest).map ([.star], ·)
    | cs =>
      let ((items, _), rest) := sequence inner cs
      (closing? ')' rest).map (items, ·)
  | _ => none

def segments : Nat → List Char → List String × List Char
  | 0, cs => ([], cs)
  | n + 1, cs =>
    match cs with
    | '.' :: rest =>
      match name? rest with
      | some (name, rest) =>
        let (more, rest) := segments n rest
        (String.ofList name :: more, rest)
      | none => ([], cs)
    | _ => ([], cs)

def named (inner : Parser Expr) : Parser Expr :=
  fun cs =>
    match name? cs with
    | none => .error cs
    | some (name, rest) =>
      match arguments? inner rest with
      | some (args, rest) => .ok (.call (.ofList name) args, rest)
      | none =>
        let (more, rest) := segments rest.length rest
        .ok (.path (.ofList name) more, rest)

/-- The reply to an alternative that can only get stuck where it starts. -/
def orStuck (cs : List Char) : Option (Expr × List Char) → Reply Expr
  | some reply => .ok reply
  | none => .error cs

def primary (inner : Parser Expr) : Parser Expr :=
  fun cs =>
    match cs with
    | '(' :: rest => orStuck cs (grouped? inner rest)
    | '[' :: rest => orStuck cs (listed? inner rest)
    | '\x7b' :: rest =>
      orStuck cs ((braced? rest).map fun (name, rest) => (.placeholder (.ofList name), rest))
    | '\'' :: rest =>
      orStuck cs ((quotedText? '\'' rest).map fun (text, rest) => (ofQuoted text, rest))
    | '"' :: rest =>
      orStuck cs ((quotedText? '"' rest).map fun (text, rest) => (ofQuoted text, rest))
    | c :: _ =>
      if c.isDigit then
        let text := numberText cs
        .ok (.number (.ofList text), cs.drop text.length)
      else
        match constant? cs with
        | some reply => .ok reply
        | none => named inner cs
    | [] => .error []

/-! ### Whole expressions -/

def signedLevel (inner : Parser Expr) : Parser Expr :=
  fun cs => signs (primary inner) cs.length cs

def productLevel (inner : Parser Expr) : Parser Expr :=
  leftward productOp? (signedLevel inner)

def sumLevel (inner : Parser Expr) : Parser Expr :=
  leftward sumOp? (productLevel inner)

def comparisonLevel (inner : Parser Expr) : Parser Expr :=
  comparison (sumLevel inner)

def notLevel (inner : Parser Expr) : Parser Expr :=
  fun cs => negated (comparisonLevel inner) cs.length cs

def andLevel (inner : Parser Expr) : Parser Expr :=
  connected .and ['a', 'n', 'd'] (notLevel inner)

def orLevel (inner : Parser Expr) : Parser Expr :=
  connected .or ['o', 'r'] (andLevel inner)

/-- Expressions whose brackets nest less than `n` deep. -/
def exprAt : Nat → Parser Expr
  | 0 => fun cs => .error cs
  | n + 1 => orLevel (exprAt n)

/-- An expression at the start of the text. Every bracket takes a character, so the length of the
text bounds the depth. -/
def expression : Parser Expr :=
  fun cs => exprAt (cs.length + 1) cs

def position (source rest : List Char) : Nat :=
  Text.byteLength source - Text.byteLength rest

def parse (source : String) : Except Error Expr :=
  let cs := Text.trimChars source.toList
  match expression cs with
  | .error rest => .error (.stuck (position cs rest) rest)
  | .ok (e, rest) =>
    let rest := Text.trimStart rest
    if rest.isEmpty then .ok e
    else .error (.trailing (position cs rest) (.ofList (Text.trimEnd rest)))

end PathQuery.Expr
