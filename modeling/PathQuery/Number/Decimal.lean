import PathQuery.Number.Binary
import PathQuery.Text.Edit

/-!
Decimal numbers of at most 96 bits with up to 28 places. The places that were written are kept,
so `1.50` stays `1.50`.
-/

namespace PathQuery.Number

/-- The number `± mantissa / 10 ^ scale`. -/
structure Decimal where
  negative : Bool
  mantissa : Nat
  scale : Nat
deriving DecidableEq, BEq

namespace Decimal

def limit : Nat := twoTo 96

def maxScale : Nat := 28

def make (negative : Bool) (mantissa scale : Nat) : Decimal :=
  ⟨negative && mantissa != 0, mantissa, scale⟩

structure Progress where
  point : Bool := false
  digit : Bool := false
  mantissa : Nat := 0
  scale : Nat := 0

/-- Ends the reading at a digit that no longer fits: it only decides the rounding. -/
def roundLast (negative : Bool) (p : Progress) (c : Char) : Option Decimal :=
  if c.isDigit then
    if 5 ≤ c.toNat - '0'.toNat then
      let m := p.mantissa + 1
      if m < limit then some (make negative m p.scale)
      else if p.scale == 0 then none
      else some (make negative ((m + 4) / 10) (p.scale - 1))
    else some (make negative p.mantissa p.scale)
  else if c == '_' || (c == '.' && p.point) then some (make negative p.mantissa p.scale)
  else none

def readDigits (negative : Bool) (p : Progress) : List Char → Option Decimal
  | [] => if p.digit then some (make negative p.mantissa p.scale) else none
  | c :: cs =>
    if p.point && p.digit && maxScale ≤ p.scale then roundLast negative p c
    else if c.isDigit then
      let m := p.mantissa * 10 + (c.toNat - '0'.toNat)
      if m < limit then
        readDigits negative
          { p with digit := true, mantissa := m, scale := if p.point then p.scale + 1 else 0 } cs
      else if p.point then roundLast negative p c
      else none
    else if c == '.' && !p.point then readDigits negative { p with point := true } cs
    else if c == '_' && p.digit then readDigits negative p cs
    else none

/-- Reads a sign and digits with an optional point; digits that do not fit are rounded away. -/
def readPlain? : List Char → Option Decimal
  | '-' :: cs => readDigits true {} cs
  | '+' :: cs => readDigits false {} cs
  | cs => readDigits false {} cs

/-- Moves the point `n` places to the right. Places that are there are used up first; beyond them
the number becomes a whole one, which has to fit. -/
def shiftRight? (d : Decimal) (n : Nat) : Option Decimal :=
  if n ≤ d.scale then some { d with scale := d.scale - n }
  else if maxScale < n then none
  else
    let m := d.mantissa * tenTo (n - d.scale)
    if m < limit then some (make d.negative m 0) else none

def shiftLeft? (d : Decimal) (n : Nat) : Option Decimal :=
  if d.scale + n ≤ maxScale then some { d with scale := d.scale + n } else none

def exponentSize? : List Char → Option Nat
  | '+' :: cs => Text.toNat? cs
  | cs => Text.toNat? cs

def scaled? (d : Decimal) : List Char → Option Decimal
  | '-' :: cs => (exponentSize? cs).bind d.shiftLeft?
  | cs => (exponentSize? cs).bind d.shiftRight?

def isExponentMark (c : Char) : Bool :=
  c == 'e' || c == 'E'

def readScientific? (cs : List Char) : Option Decimal :=
  match cs.dropWhile (!isExponentMark ·) with
  | _ :: exponent => (readPlain? (cs.takeWhile (!isExponentMark ·))).bind (·.scaled? exponent)
  | [] => none

def read? (cs : List Char) : Option Decimal :=
  (readPlain? cs).or (readScientific? cs)

def render (d : Decimal) : String :=
  let ds := Nat.toDigits 10 d.mantissa
  let cs :=
    if d.scale == 0 then ds
    else
      let ds := List.replicate (d.scale + 1 - ds.length) '0' ++ ds
      ds.take (ds.length - d.scale) ++ '.' :: ds.drop (ds.length - d.scale)
  .ofList (if d.negative then '-' :: cs else cs)

def truncate (d : Decimal) : Int :=
  let n : Int := (d.mantissa / tenTo d.scale : Nat)
  if d.negative then -n else n

def raise (x : Float) (n : Nat) : Float :=
  go x n 1.0 n
where
  go (x : Float) (n : Nat) (r : Float) : Nat → Float
  | 0 => r
  | fuel + 1 => if n == 0 then r else go (x * x) (n / 2) (if n % 2 == 1 then r * x else r) fuel

/-- The double that stands for the decimal: whole part and places are converted on their own, and
the sum is rounded to the places of the decimal. -/
def toFloat (d : Decimal) : Float :=
  let x :=
    if d.scale == 0 then nearest false d.mantissa 1
    else
      let unit := tenTo d.scale
      let whole := nearest false (d.mantissa / unit) 1
      let part := nearest false (d.mantissa % unit) 1 / nearest false unit 1
      if part == 0.0 then whole
      else
        let places := raise 10.0 d.scale
        ((whole + part) * places).round / places
  if d.negative then -x else x

end Decimal
end PathQuery.Number
