import PathQuery.Number.Binary
import PathQuery.Text.Edit

/-! Reading a double from plain text: sign, digits with an optional point, optional exponent. -/

namespace PathQuery.Number

def takeDigits (cs : List Char) : List Char × List Char :=
  cs.span Char.isDigit

def readExponent? : List Char → Option Int
  | [] => some 0
  | c :: cs => if c == 'e' || c == 'E' then Text.toInt? cs else none

/-- Digits, point and exponent; at least one digit has to stand beside the point. -/
def readUnsigned? (negative : Bool) (cs : List Char) : Option Float :=
  let (whole, rest) := takeDigits cs
  let (places, rest) := match rest with
    | '.' :: rest => takeDigits rest
    | rest => ([], rest)
  if whole.isEmpty && places.isEmpty then none
  else (readExponent? rest).map fun e =>
    nearestScientific negative (Text.digitsValue (whole ++ places)) (e - places.length)

/-- A double from text, with the names of what is not finite in any case. -/
def read? (cs : List Char) : Option Float :=
  let (negative, body) := match cs with
    | '-' :: rest => (true, rest)
    | '+' :: rest => (false, rest)
    | rest => (false, rest)
  let word := body.map Char.toLower
  if word == ['n', 'a', 'n'] then some (0.0 / 0.0)
  else if word == ['i', 'n', 'f'] || word == ['i', 'n', 'f', 'i', 'n', 'i', 't', 'y'] then
    some (if negative then -1.0 / 0.0 else 1.0 / 0.0)
  else readUnsigned? negative body

end PathQuery.Number
