import PathQuery.Number.Binary

/-!
The fewest decimal digits that read back as a given double. The reals that round to `m * 2 ^ q`
form an interval, whose ends belong to it when `m` is even. For one digit, two digits, and so on,
the neighbours of the value on that decimal grid are tried; the first grid with a neighbour in the
interval gives the digits.
-/

namespace PathQuery.Number

inductive Tie where
  | even
  | up

/-- An interval around `value / unit`, in units of `1 / unit`. -/
structure Interval where
  low : Nat
  value : Nat
  high : Nat
  unit : Nat
  closed : Bool

/-- The reals that round to `m * 2 ^ q`. Below a power of two the neighbour is half as far. -/
def interval (m : Nat) (q : Int) : Interval :=
  let below := if m == twoTo 52 && q != -1074 then 1 else 2
  let (scale, unit) := scaled 1 4 q
  ⟨(4 * m - below) * scale, 4 * m * scale, (4 * m + 2) * scale, unit, m % 2 == 0⟩

def Interval.onGrid (i : Interval) (k : Int) : Interval :=
  if 0 ≤ k then ⟨i.low, i.value, i.high, i.unit * tenTo k.toNat, i.closed⟩
  else
    let s := tenTo (-k).toNat
    ⟨i.low * s, i.value * s, i.high * s, i.unit, i.closed⟩

def Interval.holds (i : Interval) (d : Nat) : Bool :=
  let x := d * i.unit
  d != 0 && if i.closed then i.low ≤ x && x ≤ i.high else i.low < x && x < i.high

/-- The nearer of the whole neighbours of the value that lie in the interval. -/
def Interval.pick? (i : Interval) (tie : Tie) : Option Nat :=
  let d := i.value / i.unit
  let twice := 2 * (i.value % i.unit)
  match i.holds d, i.holds (d + 1) with
  | false, false => none
  | true, false => some d
  | false, true => some (d + 1)
  | true, true =>
    if twice < i.unit then some d
    else if i.unit < twice then some (d + 1)
    else match tie with
      | .up => some (d + 1)
      | .even => some (if d % 2 == 0 then d else d + 1)

def leadingExponent (a b : Nat) : Int :=
  if b ≤ a then ((Nat.toDigits 10 (a / b)).length : Int) - 1
  else
    let j := (Nat.toDigits 10 (b / a)).length
    if b ≤ a * tenTo (j - 1) then -((j - 1 : Nat) : Int) else -(j : Int)

/-- The first grid, from `k` down to finer ones, with a neighbour in the interval. -/
def Interval.search (i : Interval) (tie : Tie) : Nat → Int → Nat × Int
  | 0, k => (i.value / i.unit, k)
  | n + 1, k =>
    match (i.onGrid k).pick? tie with
    | some d => (d, k)
    | none => i.search tie n (k - 1)

def stripZeros : Nat → Nat → Int → Nat × Int
  | 0, d, k => (d, k)
  | n + 1, d, k => if d % 10 == 0 then stripZeros n (d / 10) (k + 1) else (d, k)

/-- The shortest digits `d` and the exponent `k` with `d * 10 ^ k` reading back as `m * 2 ^ q`. -/
def shortest (tie : Tie) (m : Nat) (q : Int) : Nat × Int :=
  if m == 0 then (0, 0)
  else
    let i := interval m q
    let (d, k) := i.search tie 18 (leadingExponent i.value i.unit)
    stripZeros 18 d k

end PathQuery.Number
