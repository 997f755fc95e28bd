import PathQuery.Json

/-!
Reading JSON text. Numbers are collected in 64 bits: digits that no longer fit are dropped and
counted in the exponent, and the double is the collected number times or over a power of ten. A
number that a reader takes first bounds its steps.
-/

namespace PathQuery.Json

def isSpace (c : Char) : Bool :=
  c == ' ' || c == '\n' || c == '\t' || c == '\r'

def skipSpace (cs : List Char) : List Char :=
  cs.dropWhile isSpace

def hexValue? (c : Char) : Option Nat :=
  if c.isDigit then some (c.toNat - '0'.toNat)
  else if 'a' ≤ c && c ≤ 'f' then some (c.toNat - 'a'.toNat + 10)
  else if 'A' ≤ c && c ≤ 'F' then some (c.toNat - 'A'.toNat + 10)
  else none

def readHex4? : List Char → Option (Nat × List Char)
  | a :: b :: c :: d :: rest => do
    let a ← hexValue? a
    let b ← hexValue? b
    let c ← hexValue? c
    let d ← hexValue? d
    return (((a * 16 + b) * 16 + c) * 16 + d, rest)
  | _ => none

/-- A code point after `\u`, where two surrogate halves make one. -/
def readCodePoint? (cs : List Char) : Option (Char × List Char) := do
  let (n, rest) ← readHex4? cs
  if 0xDC00 ≤ n && n ≤ 0xDFFF then none
  else if 0xD800 ≤ n && n ≤ 0xDBFF then
    match rest with
    | '\\' :: 'u' :: rest =>
      let (low, rest) ← readHex4? rest
      if 0xDC00 ≤ low && low ≤ 0xDFFF then
        return (Char.ofNat (0x10000 + (n - 0xD800) * 0x400 + (low - 0xDC00)), rest)
      else none
    | _ => none
  else return (Char.ofNat n, rest)

def simpleEscape? (c : Char) : Option Char :=
  if c == '"' || c == '\\' || c == '/' then some c
  else if c == 'b' then some '\x08'
  else if c == 'f' then some '\x0c'
  else if c == 'n' then some '\n'
  else if c == 'r' then some '\r'
  else if c == 't' then some '\t'
  else none

def readString? : Nat → List Char → List Char → Option (String × List Char)
  | 0, _, _ => none
  | _ + 1, _, [] => none
  | n + 1, acc, c :: rest =>
    if c == '"' then some (.ofList acc.reverse, rest)
    else if c == '\\' then
      match rest with
      | 'u' :: rest => do
        let (c, rest) ← readCodePoint? rest
        readString? n (c :: acc) rest
      | e :: rest => do
        let c ← simpleEscape? e
        readString? n (c :: acc) rest
      | [] => none
    else if c.toNat < 0x20 then none
    else readString? n (c :: acc) rest

/-- Digits collected in 64 bits: the number, and how many digits did not fit. -/
def collect : List Char → Nat → Nat × Nat
  | [], n => (n, 0)
  | c :: cs, n =>
    let m := n * 10 + (c.toNat - '0'.toNat)
    if m < Number.twoTo 64 then collect cs m else (n, cs.length + 1)

/-- `significand * 10 ^ exponent` as a product or quotient of doubles; `none` past the range. -/
def scale (significand : Nat) (exponent : Int) : Option Float :=
  go (Number.nearest false significand 1) exponent (exponent.natAbs / 308 + 1)
where
  go (x : Float) (e : Int) : Nat → Option Float
  | 0 => some x
  | fuel + 1 =>
    if e.natAbs ≤ 308 then
      let power := Number.nearest false (Number.tenTo e.natAbs) 1
      if 0 ≤ e then
        let y := x * power
        if y.isInf then none else some y
      else some (x / power)
    else if x == 0.0 then some x
    else if 0 ≤ e then none
    else go (x / Number.nearest false (Number.tenTo 308) 1) (e + 308) fuel

def real? (negative : Bool) (significand : Nat) (exponent : Int) : Json :=
  match scale significand exponent with
  | some x => .real (if negative then -x else x)
  | none => .overflow

def readExponent? (cs : List Char) : Option (Bool × List Char × List Char) :=
  let (negative, cs) := match cs with
    | '-' :: cs => (true, cs)
    | '+' :: cs => (false, cs)
    | cs => (false, cs)
  let (ds, rest) := cs.span Char.isDigit
  if ds.isEmpty then none else some (negative, ds, rest)

/-- A number with a fraction or an exponent, from its whole digits. An exponent that does not fit
in 32 bits decides the number alone. -/
def readReal? (negative : Bool) (whole cs : List Char) : Option (Json × List Char) := do
  let (n, dropped) := collect whole 0
  let (significand, exponent, rest) ← match cs with
    | '.' :: cs =>
      let (places, rest) := cs.span Char.isDigit
      if places.isEmpty then none
      else
        let (m, lost) := collect places n
        some (m, (dropped : Int) - ((places.length - lost : Nat) : Int), rest)
    | rest => some (n, (dropped : Int), rest)
  match rest with
  | c :: cs =>
    if c == 'e' || c == 'E' then
      let (down, ds, rest) ← readExponent? cs
      let e := Text.digitsValue ds
      if Number.twoTo 31 ≤ e then
        if significand != 0 && !down then return (.overflow, rest)
        else return (.real (if negative then -0.0 else 0.0), rest)
      else
        let e : Int := if down then -(e : Int) else e
        return (real? negative significand (exponent + e), rest)
    else return (real? negative significand exponent, rest)
  | [] => return (real? negative significand exponent, rest)

/-- A number. Whole numbers of 64 bits stay whole; minus zero and larger ones are doubles. -/
def readNumber? (negative : Bool) (cs : List Char) : Option (Json × List Char) :=
  let (whole, rest) := cs.span Char.isDigit
  if whole.isEmpty || (whole.length != 1 && whole.head? == some '0') then none
  else
    match rest with
    | '.' :: _ | 'e' :: _ | 'E' :: _ => readReal? negative whole rest
    | _ =>
      let n := Text.digitsValue whole
      if n < Number.twoTo 64 then
        if !negative then some (.int n, rest)
        else if n == 0 || Number.twoTo 63 < n then some (.real (-(Number.nearest false n 1)), rest)
        else some (.int (-(n : Int)), rest)
      else readReal? negative whole rest

mutual

/-- A value after optional space. The first argument bounds the number of steps. -/
def readValue? : Nat → List Char → Option (Json × List Char)
  | 0, _ => none
  | n + 1, cs =>
    match skipSpace cs with
    | 'n' :: 'u' :: 'l' :: 'l' :: rest => some (.null, rest)
    | 't' :: 'r' :: 'u' :: 'e' :: rest => some (.bool true, rest)
    | 'f' :: 'a' :: 'l' :: 's' :: 'e' :: rest => some (.bool false, rest)
    | '"' :: rest => (readString? (rest.length + 1) [] rest).map fun (s, rest) => (.str s, rest)
    | '[' :: rest =>
      match skipSpace rest with
      | ']' :: rest => some (.arr [], rest)
      | rest => readItems? n [] rest
    | '\x7b' :: rest =>
      match skipSpace rest with
      | '\x7d' :: rest => some (.obj [], rest)
      | rest => readMembers? n [] rest
    | '-' :: rest => readNumber? true rest
    | rest => readNumber? false rest

def readItems? : Nat → List Json → List Char → Option (Json × List Char)
  | 0, _, _ => none
  | n + 1, acc, cs =>
    match readValue? n cs with
    | none => none
    | some (v, rest) =>
      match skipSpace rest with
      | ',' :: rest => readItems? n (v :: acc) rest
      | ']' :: rest => some (.arr (v :: acc).reverse, rest)
      | _ => none

def readMembers? : Nat → List (String × Json) → List Char → Option (Json × List Char)
  | 0, _, _ => none
  | n + 1, acc, cs =>
    match skipSpace cs with
    | '"' :: rest =>
      match readString? (rest.length + 1) [] rest with
      | none => none
      | some (k, rest) =>
        match skipSpace rest with
        | ':' :: rest =>
          match readValue? n rest with
          | none => none
          | some (v, rest) =>
            match skipSpace rest with
            | ',' :: rest => readMembers? n ((k, v) :: acc) rest
            | '\x7d' :: rest => some (.obj ((k, v) :: acc).reverse, rest)
            | _ => none
        | _ => none
    | _ => none

end

def readLoose? (text : String) : Option Json :=
  let cs := text.toList
  match readValue? (2 * cs.length + 2) cs with
  | some (v, rest) => if (skipSpace rest).isEmpty then some v else none
  | none => none

def read? (text : String) : Option Json :=
  match readLoose? text with
  | some v => if v.fits maxDepth then some v else none
  | none => none

end PathQuery.Json
