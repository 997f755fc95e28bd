import PathQuery.Number.Shortest

/-! How the shortest digits of a double are written out. -/

namespace PathQuery.Number

/-- Digits `d` at exponent `k` in positional notation, with a point only where it is needed. -/
def positional (d : Nat) (k : Int) : List Char :=
  let ds := Nat.toDigits 10 d
  if 0 ≤ k then if d == 0 then ds else ds ++ List.replicate k.toNat '0'
  else
    let places := (-k).toNat
    let ds := List.replicate (places + 1 - ds.length) '0' ++ ds
    ds.take (ds.length - places) ++ '.' :: ds.drop (ds.length - places)

def scientific (d : Nat) (k : Int) : List Char :=
  let ds := Nat.toDigits 10 d
  let e := k + (ds.length - 1 : Nat)
  let exponent := (if e < 0 then '-' else '+') :: Nat.toDigits 10 e.natAbs
  match ds with
  | [] => []
  | [c] => c :: 'e' :: exponent
  | c :: rest => c :: '.' :: rest ++ 'e' :: exponent

def signed (negative : Bool) (cs : List Char) : String :=
  .ofList (if negative then '-' :: cs else cs)

def plain (x : Float) : String :=
  match parts x with
  | .nan => "NaN"
  | .infinite negative => signed negative ['i', 'n', 'f']
  | .finite negative m q =>
    let (d, k) := shortest .up m q
    signed negative (positional d k)

/-- The text of a finite double in a data document: positional with at least one place from
`10 ^ -5` up to `10 ^ 16`, scientific outside. -/
def document? (x : Float) : Option String :=
  match parts x with
  | .finite negative m q =>
    let (d, k) := shortest .even m q
    let e := k + ((Nat.toDigits 10 d).length - 1 : Nat)
    some <| signed negative <|
      if d == 0 || (-5 ≤ e && e < 16) then
        let cs := positional d k
        if 0 ≤ k then cs ++ ['.', '0'] else cs
      else scientific d k
  | _ => none

end PathQuery.Number
