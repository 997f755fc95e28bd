import PathQuery.Text.Class

/-! Cutting, joining and replacing pieces of text. -/

namespace PathQuery.Text

def trimStart (cs : List Char) : List Char :=
  cs.dropWhile isBlank

def trimEnd (cs : List Char) : List Char :=
  (cs.reverse.dropWhile isBlank).reverse

def trimChars (cs : List Char) : List Char :=
  trimEnd (trimStart cs)

def trim (s : String) : String :=
  .ofList (trimChars s.toList)

def join (sep : String) : List String → String
  | [] => ""
  | [s] => s
  | s :: t :: rest => s ++ sep ++ join sep (t :: rest)

def replaceChar (c : Char) (new : String) (s : String) : String :=
  .ofList (s.toList.flatMap fun x => if x == c then new.toList else [x])

def dropLead? : List Char → List Char → Option (List Char)
  | [], cs => some cs
  | _ :: _, [] => none
  | a :: lead, c :: cs => if a == c then dropLead? lead cs else none

def startsWith (lead s : String) : Bool :=
  (dropLead? lead.toList s.toList).isSome

def lowerBasic (s : String) : String :=
  .ofList (s.toList.map Char.toLower)

def upperBasic (s : String) : String :=
  .ofList (s.toList.map Char.toUpper)

def digits (n : Nat) : List Char :=
  Nat.toDigits 10 n

def ofNat (n : Nat) : String :=
  .ofList (digits n)

def ofInt : Int → String
  | .ofNat n => ofNat n
  | .negSucc n => "-" ++ ofNat (n + 1)

def digitsValue (cs : List Char) : Nat :=
  cs.foldl (fun n c => n * 10 + (c.toNat - '0'.toNat)) 0

def toNat? (cs : List Char) : Option Nat :=
  if !cs.isEmpty && cs.all Char.isDigit then some (digitsValue cs) else none

def toInt? : List Char → Option Int
  | '-' :: cs => (toNat? cs).map fun n => -(n : Int)
  | '+' :: cs => (toNat? cs).map fun n => (n : Int)
  | cs => (toNat? cs).map fun n => (n : Int)

def byteLength : List Char → Nat
  | [] => 0
  | c :: cs => c.utf8Size + byteLength cs

end PathQuery.Text
