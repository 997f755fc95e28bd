import PathQuery.Calendar
import PathQuery.Number.Read
import PathQuery.Toml.Text
import PathQuery.Value

/-! Numbers, dates and times of TOML. -/

namespace PathQuery.Toml

/-- Digits with single underscores between them, underscores dropped. -/
def digitRun (isDigit : Char → Bool) : List Char → List Char × List Char
  | [] => ([], [])
  | c :: cs =>
    if isDigit c then
      match cs with
      | '_' :: d :: rest =>
        if isDigit d then
          let (more, rest) := digitRun isDigit (d :: rest)
          (c :: more, rest)
        else ([c], cs)
      | cs =>
        let (more, rest) := digitRun isDigit cs
        (c :: more, rest)
    else ([], c :: cs)
termination_by cs => cs.length

def sign (cs : List Char) : Bool × List Char :=
  match cs with
  | '-' :: rest => (true, rest)
  | '+' :: rest => (false, rest)
  | rest => (false, rest)

def whole? (cs : List Char) : Option (List Char × List Char) :=
  match cs with
  | '0' :: rest => some (['0'], rest)
  | cs =>
    let (ds, rest) := digitRun Char.isDigit cs
    if ds.isEmpty then none else some (ds, rest)

def ranged? (n : Int) (rest : List Char) : Option (Json × List Char) :=
  if Value.minInt ≤ n && n ≤ Value.maxInt then some (.int n, rest) else none

def isRadixDigit (radix : Nat) (c : Char) : Bool :=
  (Json.hexValue? c).any (· < radix)

def radix? (radix : Nat) (cs : List Char) : Option (Json × List Char) :=
  let (ds, rest) := digitRun (isRadixDigit radix) cs
  if ds.isEmpty then none
  else ranged? (ds.foldl (fun n c => n * radix + (Json.hexValue? c).getD 0) 0 : Nat) rest

def integer? (cs : List Char) : Option (Json × List Char) :=
  match cs with
  | '0' :: 'x' :: rest => radix? 16 rest
  | '0' :: 'o' :: rest => radix? 8 rest
  | '0' :: 'b' :: rest => radix? 2 rest
  | cs => do
    let (negative, rest) := sign cs
    let (ds, rest) ← whole? rest
    let n : Int := Text.digitsValue ds
    ranged? (if negative then -n else n) rest

def places? (cs : List Char) : Option (List Char × List Char) :=
  match cs with
  | '.' :: rest =>
    let (ds, rest) := digitRun Char.isDigit rest
    if ds.isEmpty then none else some (ds, rest)
  | _ => none

def exponent? (cs : List Char) : Option (Int × List Char) :=
  match cs with
  | c :: rest =>
    if c == 'e' || c == 'E' then
      let (negative, rest) := sign rest
      let (ds, rest) := digitRun Char.isDigit rest
      let n : Int := Text.digitsValue ds
      if ds.isEmpty then none else some (if negative then -n else n, rest)
    else none
  | [] => none

/-- A number with places or an exponent; too large a positive one is refused. -/
def float? (cs : List Char) : Option (Json × List Char) := do
  let (negative, rest) := sign cs
  match rest with
  | 'i' :: 'n' :: 'f' :: rest => return (.real (if negative then -1.0 / 0.0 else 1.0 / 0.0), rest)
  | 'n' :: 'a' :: 'n' :: rest => return (.real (0.0 / 0.0), rest)
  | _ =>
    let (ds, rest) ← whole? rest
    let (places, e, rest) ← match places? rest with
      | some (places, rest) =>
        match exponent? rest with
        | some (e, rest) => some (places, e, rest)
        | none => some (places, 0, rest)
      | none => (exponent? rest).map fun (e, rest) => ([], e, rest)
    let x := Number.nearestScientific negative (Text.digitsValue (ds ++ places))
      (e - places.length)
    if x.isInf && !negative then none else return (.real x, rest)

def fixed? (width : Nat) (cs : List Char) : Option (Nat × List Char) := do
  let ds := cs.take width
  return (← if ds.length == width then Text.toNat? ds else none, cs.drop width)

def expect? (c : Char) : List Char → Option (List Char)
  | d :: rest => if d == c then some rest else none
  | [] => none

def date? (cs : List Char) : Option (Date × List Char) := do
  let (year, cs) ← fixed? 4 cs
  let cs ← expect? '-' cs
  let (month, cs) ← fixed? 2 cs
  let cs ← expect? '-' cs
  let (day, cs) ← fixed? 2 cs
  return (← Date.make? year month day, cs)

def time? (cs : List Char) : Option (Time × List Char) := do
  let (hour, cs) ← fixed? 2 cs
  let cs ← expect? ':' cs
  let (minute, cs) ← fixed? 2 cs
  let cs ← expect? ':' cs
  let (second, cs) ← fixed? 2 cs
  let (nanos, cs) := match Calendar.readFraction? cs with
    | some r => r
    | none => (0, cs)
  return (← Time.make? hour minute second nanos, cs)

def offset? (cs : List Char) : Option (String × List Char) :=
  match cs with
  | 'Z' :: rest | 'z' :: rest => some ("Z", rest)
  | c :: rest => do
    if c == '+' || c == '-' then
      let (hours, rest) ← fixed? 2 rest
      let rest ← expect? ':' rest
      let (minutes, rest) ← fixed? 2 rest
      if hours < 24 && minutes < 60 then
        let s := if c == '-' && (hours != 0 || minutes != 0) then "-" else "+"
        return (s ++ Calendar.padded 2 hours ++ ":" ++ Calendar.padded 2 minutes, rest)
      else none
    else none
  | [] => none

def timeText (t : Time) : String :=
  if t.nanos == 0 then t.renderSeconds
  else
    let ds := (Calendar.padded 9 t.nanos).toList
    t.renderSeconds ++ "." ++ .ofList (ds.reverse.dropWhile (· == '0')).reverse

/-- A date or time in a data document that has no such values. -/
def stamped (text : String) : Json :=
  .obj [("$__toml_private_datetime", .str text)]

def moment? (cs : List Char) : Option (Json × List Char) :=
  match date? cs with
  | some (d, rest) =>
    let clock := match rest with
      | 'T' :: rest | 't' :: rest | ' ' :: rest => time? rest
      | _ => none
    match clock with
    | none => some (stamped d.render, rest)
    | some (t, rest) =>
      let civil := d.render ++ "T" ++ timeText t
      match offset? rest with
      | some (z, rest) => some (stamped (civil ++ z), rest)
      | none => some (stamped civil, rest)
  | none => (time? cs).map fun (t, rest) => (stamped (timeText t), rest)

def number? (cs : List Char) : Option (Json × List Char) :=
  (moment? cs).or ((float? cs).or (integer? cs))

end PathQuery.Toml
