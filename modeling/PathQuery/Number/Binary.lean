/-!
Double precision numbers as exact fractions: taking one apart into a whole number times a power of
two, and the double that lies nearest to a fraction.
-/

namespace PathQuery.Number

def twoTo (n : Nat) : Nat :=
  Nat.pow 2 n

def tenTo (n : Nat) : Nat :=
  Nat.pow 10 n

/-- The parts of a double. A finite one is `m * 2 ^ q`. -/
inductive Parts where
  | nan
  | infinite (negative : Bool)
  | finite (negative : Bool) (m : Nat) (q : Int)

def parts (x : Float) : Parts :=
  let bits : Nat := x.toBits.toNat
  let negative := bits / twoTo 63 == 1
  let biased : Nat := bits / twoTo 52 % 2048
  let tail : Nat := bits % twoTo 52
  if biased == 2047 then
    if tail == 0 then .infinite negative else .nan
  else if biased == 0 then .finite negative tail (-1074)
  else .finite negative (twoTo 52 + tail) ((biased : Int) - 1075)

def scaled (a b : Nat) (e : Int) : Nat × Nat :=
  if 0 ≤ e then (a * twoTo e.toNat, b) else (a, b * twoTo (-e).toNat)

/-- `a / b` rounded to a whole number, a half to the even neighbour. -/
def roundQuotient (a b : Nat) : Nat :=
  let m := a / b
  let twice := 2 * (a % b)
  if twice > b || (twice == b && m % 2 == 1) then m + 1 else m

def nearestBits (a b : Nat) : Nat :=
  let guess : Int := (a.log2 : Int) - (b.log2 : Int)
  let (a₁, b₁) := scaled a b (-guess)
  let top := if a₁ < b₁ then guess - 1 else guess
  let q := max (top - 52) (-1074)
  let (n, d) := scaled a b (-q)
  let m := roundQuotient n d
  let (m, q) := if m == twoTo 53 then (twoTo 52, q + 1) else (m, q)
  if m < twoTo 52 then m
  else if 2047 ≤ q + 1075 then 2047 * twoTo 52
  else (q + 1075).toNat * twoTo 52 + (m - twoTo 52)

def nearest (negative : Bool) (a b : Nat) : Float :=
  let bits := if a == 0 then 0 else nearestBits a b
  Float.ofBits (UInt64.ofNat (if negative then twoTo 63 + bits else bits))

/-- The double nearest to `m * 10 ^ e`. A magnitude far outside the range is settled before any
power of ten is formed. -/
def nearestScientific (negative : Bool) (m : Nat) (e : Int) : Float :=
  let width : Int := (Nat.toDigits 10 m).length
  if m == 0 || width + e < -330 then nearest negative 0 1
  else if 320 < width + e then nearest negative (tenTo 320) 1
  else if 0 ≤ e then nearest negative (m * tenTo e.toNat) 1
  else nearest negative m (tenTo (-e).toNat)

def truncate? (x : Float) : Option Int :=
  match parts x with
  | .finite negative m q =>
    let n : Int := if 0 ≤ q then (m * twoTo q.toNat : Nat) else (m / twoTo (-q).toNat : Nat)
    some (if negative then -n else n)
  | _ => none

end PathQuery.Number
