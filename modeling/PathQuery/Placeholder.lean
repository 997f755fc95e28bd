import PathQuery.Text.Class

/-!
Placeholders: names of word characters in braces. A text falls into pieces, which are tokens where
a placeholder stands outside single quotes and single characters everywhere else.
-/

namespace PathQuery.Placeholder

def token? (cs : List Char) : Option (List Char) :=
  let name := cs.takeWhile Text.isWordChar
  if name.isEmpty then none
  else
    match cs.drop name.length with
    | c :: _ => if c == '\x7d' then some name else none
    | [] => none

def namesIn : List Char → List (List Char)
  | [] => []
  | c :: cs =>
    match if c == '\x7b' then token? cs else none with
    | some name => name :: namesIn cs
    | none => namesIn cs

def names (text : String) : List String :=
  (namesIn text.toList).map String.ofList

inductive Piece where
  | char (c : Char)
  | token (name : List Char)
deriving DecidableEq, Repr

/-- The pieces of a text, inside single quotes or not, of which the first `skip` characters belong
to the token before. -/
def piecesFrom : Bool → Nat → List Char → List Piece
  | _, _, [] => []
  | quoted, skip + 1, _ :: cs => piecesFrom quoted skip cs
  | quoted, 0, c :: cs =>
    if c == '\'' then .char c :: piecesFrom (!quoted) 0 cs
    else
      match if c == '\x7b' && !quoted then token? cs else none with
      | some name => .token name :: piecesFrom quoted (name.length + 1) cs
      | none => .char c :: piecesFrom quoted 0 cs

def pieces (text : List Char) : List Piece :=
  piecesFrom false 0 text

def token (name : String) : String :=
  "\x7b" ++ name ++ "\x7d"

variable {m : Type → Type} [Monad m]

def fill (replace : String → m String) : List Piece → m (List Char)
  | [] => pure []
  | .char c :: rest => do
    let out ← fill replace rest
    pure (c :: out)
  | .token name :: rest => do
    let new ← replace (.ofList name)
    let out ← fill replace rest
    pure (new.toList ++ out)

def substitute (replace : String → m String) (text : String) : m String := do
  let out ← fill replace (pieces text.toList)
  pure (.ofList out)

end PathQuery.Placeholder
