/-!
Text from bytes that may be no text. Bytes that start a character but do not end it become one
replacement character together, and any other byte that is out of place becomes one by itself.
-/

namespace PathQuery.Text

def replacement : Char := '�'

/-- A character that is begun: how many bytes are missing, its code so far, and the bounds of the
next byte. -/
structure Begun where
  missing : Nat
  code : Nat
  low : Nat := 0x80
  high : Nat := 0xBF

def beginChar (b : Nat) : List Char × Option Begun :=
  if b < 0x80 then ([Char.ofNat b], none)
  else if b < 0xC2 then ([replacement], none)
  else if b < 0xE0 then ([], some { missing := 1, code := b - 0xC0 })
  else if b == 0xE0 then ([], some { missing := 2, code := 0, low := 0xA0 })
  else if b == 0xED then ([], some { missing := 2, code := 0xD, high := 0x9F })
  else if b < 0xF0 then ([], some { missing := 2, code := b - 0xE0 })
  else if b == 0xF0 then ([], some { missing := 3, code := 0, low := 0x90 })
  else if b < 0xF4 then ([], some { missing := 3, code := b - 0xF0 })
  else if b == 0xF4 then ([], some { missing := 3, code := 4, high := 0x8F })
  else ([replacement], none)

def decodeFrom : Option Begun → List UInt8 → List Char
  | none, [] => []
  | some _, [] => [replacement]
  | none, b :: rest =>
    let (out, begun) := beginChar b.toNat
    out ++ decodeFrom begun rest
  | some p, b :: rest =>
    let n := b.toNat
    if p.low ≤ n && n ≤ p.high then
      let code := p.code * 64 + (n - 0x80)
      if p.missing ≤ 1 then Char.ofNat code :: decodeFrom none rest
      else decodeFrom (some { missing := p.missing - 1, code }) rest
    else
      let (out, begun) := beginChar n
      replacement :: out ++ decodeFrom begun rest

def ofBytes (bytes : List UInt8) : String :=
  .ofList (decodeFrom none bytes)

end PathQuery.Text
