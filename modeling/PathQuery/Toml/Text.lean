import PathQuery.Json.Reader

/-! Strings and keys of TOML. A number that a reader takes first bounds the lines or parts. -/

namespace PathQuery.Toml

def isGap (c : Char) : Bool :=
  c == ' ' || c == '\t'

def skipGap (cs : List Char) : List Char :=
  cs.dropWhile isGap

def newline? : List Char → Option (List Char)
  | '\n' :: cs => some cs
  | '\r' :: '\n' :: cs => some cs
  | _ => none

def isPlain (c : Char) : Bool :=
  c == '\t' || (0x20 ≤ c.toNat && c.toNat != 0x7F)

def skipComment : List Char → List Char
  | '#' :: cs => cs.dropWhile isPlain
  | cs => cs

def skipLines : Nat → List Char → List Char
  | 0, cs => cs
  | n + 1, cs =>
    let rest := skipComment (skipGap cs)
    match newline? rest with
    | some rest => skipLines n rest
    | none => rest

def hexRun (digits : List Char) : Option Nat :=
  digits.foldl (fun n c => do return (← n) * 16 + (← Json.hexValue? c)) (some 0)

def codePoint? (width : Nat) (cs : List Char) : Option (Char × List Char) := do
  let digits := cs.take width
  if digits.length != width then none
  else
    let n ← hexRun digits
    if (0xD800 ≤ n && n ≤ 0xDFFF) || 0x10FFFF < n then none
    else return (Char.ofNat n, cs.drop width)

def escape? : List Char → Option (Char × List Char)
  | 'b' :: cs => some ('\x08', cs)
  | 't' :: cs => some ('\t', cs)
  | 'n' :: cs => some ('\n', cs)
  | 'f' :: cs => some ('\x0c', cs)
  | 'r' :: cs => some ('\r', cs)
  | '"' :: cs => some ('"', cs)
  | '\\' :: cs => some ('\\', cs)
  | 'u' :: cs => codePoint? 4 cs
  | 'U' :: cs => codePoint? 8 cs
  | _ => none

def basic? : Nat → List Char → List Char → Option (String × List Char)
  | 0, _, _ => none
  | n + 1, acc, cs =>
    match cs with
    | '"' :: rest => some (.ofList acc.reverse, rest)
    | '\\' :: rest => do
      let (c, rest) ← escape? rest
      basic? n (c :: acc) rest
    | c :: rest => if isPlain c then basic? n (c :: acc) rest else none
    | [] => none

def literal? (cs : List Char) : Option (String × List Char) :=
  let body := cs.takeWhile fun c => isPlain c && c != '\''
  match cs.drop body.length with
  | '\'' :: rest => some (.ofList body, rest)
  | _ => none

/-- A backslash at the end of a line takes the blanks and breaks after it away. -/
def foldedLine? (cs : List Char) : Option (List Char) :=
  match newline? (skipGap cs) with
  | some rest => some (rest.dropWhile fun c => isGap c || c == '\n' || c == '\r')
  | none => none

/-- The end of a string of several lines: of up to five quotes in a row, the last three close it
and the others belong to the text. -/
def closing? (q : Char) (cs : List Char) : Option (List Char × List Char) :=
  let run := (cs.takeWhile (· == q)).take 5
  if run.length < 3 then none else some (run.drop 3, cs.drop run.length)

def lines? (q : Char) (escapes : Bool) : Nat → List Char → List Char → Option (String × List Char)
  | 0, _, _ => none
  | n + 1, acc, cs =>
    match closing? q cs with
    | some (extra, rest) => some (.ofList (extra ++ acc).reverse, rest)
    | none =>
      match newline? cs with
      | some rest => lines? q escapes n ('\n' :: acc) rest
      | none =>
        match cs with
        | [] => none
        | c :: rest =>
          if c == '\\' && escapes then
            match foldedLine? rest with
            | some rest => lines? q escapes n acc rest
            | none => do
              let (c, rest) ← escape? rest
              lines? q escapes n (c :: acc) rest
          else if isPlain c then lines? q escapes n (c :: acc) rest
          else none

def dropNewline (cs : List Char) : List Char :=
  (newline? cs).getD cs

def string? (cs : List Char) : Option (String × List Char) :=
  match cs with
  | '"' :: '"' :: '"' :: rest => lines? '"' true (rest.length + 1) [] (dropNewline rest)
  | '"' :: rest => basic? (rest.length + 1) [] rest
  | '\'' :: '\'' :: '\'' :: rest => lines? '\'' false (rest.length + 1) [] (dropNewline rest)
  | '\'' :: rest => literal? rest
  | _ => none

def isKeyChar (c : Char) : Bool :=
  c.isAlphanum || c == '_' || c == '-'

def keyPart? (cs : List Char) : Option (String × List Char) :=
  match cs with
  | '"' :: rest => basic? (rest.length + 1) [] rest
  | '\'' :: rest => literal? rest
  | _ =>
    let name := cs.takeWhile isKeyChar
    if name.isEmpty then none else some (.ofList name, cs.drop name.length)

def key? : Nat → List Char → Option (List String × List Char)
  | 0, _ => none
  | n + 1, cs => do
    let (part, rest) ← keyPart? (skipGap cs)
    match skipGap rest with
    | '.' :: rest =>
      let (parts, rest) ← key? n rest
      return (part :: parts, rest)
    | rest => return ([part], rest)

end PathQuery.Toml
