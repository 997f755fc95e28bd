import PathQuery.Text.Edit

/-! Calendar dates and times of day, without time zones. -/

namespace PathQuery

def isLeapYear (y : Int) : Bool :=
  y % 4 == 0 && (y % 100 != 0 || y % 400 == 0)

def daysInMonth (y : Int) (m : Nat) : Nat :=
  if m == 2 then if isLeapYear y then 29 else 28
  else if m == 4 || m == 6 || m == 9 || m == 11 then 30
  else 31

structure Date where
  year : Int
  month : Nat
  day : Nat
  month_valid : 1 ≤ month ∧ month ≤ 12
  day_valid : 1 ≤ day ∧ day ≤ daysInMonth year month
deriving DecidableEq

/-- A time of day to the nanosecond. Second 60 is a leap second. -/
structure Time where
  hour : Nat
  minute : Nat
  second : Nat
  nanos : Nat
  hour_valid : hour < 24
  minute_valid : minute < 60
  second_valid : second ≤ 60
  nanos_valid : nanos < 1000000000
deriving DecidableEq

structure DateTime where
  date : Date
  time : Time
deriving DecidableEq

def Date.make? (year : Int) (month day : Nat) : Option Date :=
  if m : 1 ≤ month ∧ month ≤ 12 then
    if d : 1 ≤ day ∧ day ≤ daysInMonth year month then some ⟨year, month, day, m, d⟩ else none
  else none

def Time.make? (hour minute second nanos : Nat) : Option Time :=
  if h : hour < 24 then
    if m : minute < 60 then
      if s : second ≤ 60 then
        if n : nanos < 1000000000 then some ⟨hour, minute, second, nanos, h, m, s, n⟩ else none
      else none
    else none
  else none

namespace Calendar

def readNumber? (width : Nat) (cs : List Char) : Option (Nat × List Char) :=
  let cs := Text.trimStart cs
  let ds := (cs.takeWhile Char.isDigit).take width
  if ds.isEmpty then none else some (Text.digitsValue ds, cs.drop ds.length)

/-- A year: four digits at most, or any number of them after a sign. -/
def readYear? (cs : List Char) : Option (Int × List Char) :=
  match Text.trimStart cs with
  | '-' :: rest => (readNumber? rest.length rest).map fun (n, rest) => (-(n : Int), rest)
  | '+' :: rest => (readNumber? rest.length rest).map fun (n, rest) => ((n : Int), rest)
  | rest => (readNumber? 4 rest).map fun (n, rest) => ((n : Int), rest)

def expect? (c : Char) (cs : List Char) : Option (List Char) :=
  match Text.trimStart cs with
  | d :: rest => if d == c then some rest else none
  | [] => none

def readDate? (cs : List Char) : Option (Date × List Char) := do
  let (year, cs) ← readYear? cs
  let cs ← expect? '-' cs
  let (month, cs) ← readNumber? 2 cs
  let cs ← expect? '-' cs
  let (day, cs) ← readNumber? 2 cs
  let date ← Date.make? year month day
  return (date, cs)

/-- The fraction of a second; digits after the ninth are dropped. -/
def readFraction? : List Char → Option (Nat × List Char)
  | '.' :: cs =>
    let ds := cs.takeWhile Char.isDigit
    if ds.isEmpty then none
    else some (Text.digitsValue ((ds ++ List.replicate 9 '0').take 9), cs.drop ds.length)
  | cs => some (0, cs)

def readTime? (cs : List Char) : Option (Time × List Char) := do
  let (hour, cs) ← readNumber? 2 cs
  let cs ← expect? ':' cs
  let (minute, cs) ← readNumber? 2 cs
  let cs ← expect? ':' cs
  let (second, cs) ← readNumber? 2 cs
  let (nanos, cs) ← readFraction? cs
  let time ← Time.make? hour minute second nanos
  return (time, cs)

def padded (width n : Nat) : String :=
  let ds := Text.digits n
  .ofList (List.replicate (width - ds.length) '0' ++ ds)

end Calendar

open Calendar

def Date.read? (cs : List Char) : Option Date := do
  let (date, rest) ← readDate? cs
  if (Text.trimStart rest).isEmpty then some date else none

def DateTime.read? (cs : List Char) : Option DateTime := do
  let (date, cs) ← readDate? cs
  let cs ← expect? 'T' cs
  let (time, rest) ← readTime? cs
  if (Text.trimStart rest).isEmpty then some ⟨date, time⟩ else none

/-- Years of four digits are written bare, others with their sign. -/
def Date.render (d : Date) : String :=
  let year :=
    if 0 ≤ d.year && d.year ≤ 9999 then padded 4 d.year.toNat
    else (if d.year < 0 then "-" else "+") ++ padded 4 d.year.natAbs
  year ++ "-" ++ padded 2 d.month ++ "-" ++ padded 2 d.day

def Time.renderSeconds (t : Time) : String :=
  padded 2 t.hour ++ ":" ++ padded 2 t.minute ++ ":" ++ padded 2 t.second

/-- A fraction of a second in three, six or nine digits, nothing for zero. -/
def Time.renderFraction (t : Time) : String :=
  if t.nanos == 0 then ""
  else if t.nanos % 1000000 == 0 then "." ++ padded 3 (t.nanos / 1000000)
  else if t.nanos % 1000 == 0 then "." ++ padded 6 (t.nanos / 1000)
  else "." ++ padded 9 t.nanos

def Time.render (t : Time) : String :=
  t.renderSeconds ++ t.renderFraction

def DateTime.render (t : DateTime) : String :=
  t.date.render ++ " " ++ t.time.render

def DateTime.renderDocument (t : DateTime) : String :=
  t.date.render ++ "T" ++ t.time.render

def DateTime.renderSeconds (t : DateTime) : String :=
  t.date.render ++ " " ++ t.time.renderSeconds

end PathQuery
