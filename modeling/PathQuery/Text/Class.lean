import PathQuery.Text.Alphabetic
import PathQuery.Text.Mark
import PathQuery.Text.Numeric
import PathQuery.Text.Recent

/-!
Character classes. Letters, names and cases follow Unicode 17.0; words and decimal digits follow
Unicode 16.0, so that the characters that are new in 17.0 are not among them. A set of code points
is given by the sorted list of its boundaries: the first number starts a run of members, the second
ends it, the third starts the next run, and so on. Below 128 the classes are written out, so that
text in the basic alphabet never reaches a table.
-/

namespace PathQuery.Text

/-- Whether `n` lies in the set with these boundaries. -/
def inside : List Nat → Nat → Bool
  | [], _ => false
  | a :: rest, n => if n < a then false else !inside rest n

def isBlank (c : Char) : Bool :=
  let n := c.toNat
  n == 0x20 || (0x9 ≤ n && n ≤ 0xD) || n == 0x85 || n == 0xA0 || n == 0x1680 ||
    (0x2000 ≤ n && n ≤ 0x200A) || n == 0x2028 || n == 0x2029 || n == 0x202F || n == 0x205F ||
    n == 0x3000

def isAlphanumeric (c : Char) : Bool :=
  if c.toNat < 128 then c.isAlphanum
  else inside alphabetic c.toNat || inside number c.toNat

def isNameChar (c : Char) : Bool :=
  isAlphanumeric c || c == '_'

def isDecimalDigit (c : Char) : Bool :=
  if c.toNat < 128 then c.isDigit
  else inside decimalDigit c.toNat && !inside recent c.toNat

/-- Word characters: letters, marks, decimal digits and connecting characters. -/
def isWordChar (c : Char) : Bool :=
  if c.toNat < 128 then c.isAlphanum || c == '_'
  else (inside alphabetic c.toNat || inside mark c.toNat || inside decimalDigit c.toNat ||
    inside connector c.toNat) && !inside recent c.toNat

end PathQuery.Text
