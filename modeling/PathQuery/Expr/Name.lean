import PathQuery.Text.Quoted

/-!
Names and keywords of the expression language. A name is a letter or an underscore and then
letters, digits and underscores of the basic alphabet; the reserved words are no names, in any
case of their letters. A failed parse is told by the text at which it got stuck.
-/

namespace PathQuery.Expr

def isNameStart (c : Char) : Bool :=
  c.isAlpha || c == '_'

def isNameRest (c : Char) : Bool :=
  c.isAlphanum || c == '_'

def reserved : List (List Char) := [
  ['a', 'n', 'd'], ['o', 'r'], ['n', 'o', 't'], ['i', 'n'], ['i', 's'],
  ['t', 'r', 'u', 'e'], ['f', 'a', 'l', 's', 'e'], ['n', 'o', 'n', 'e'], ['n', 'u', 'l', 'l']]

def isReserved (name : List Char) : Bool :=
  reserved.contains (name.map Char.toLower)

/-- The longest run that is spelled like a name, reserved or not. -/
def spelled : List Char → List Char
  | [] => []
  | c :: cs => if isNameStart c then c :: cs.takeWhile isNameRest else []

def name? (cs : List Char) : Option (List Char × List Char) :=
  let name := spelled cs
  if name.isEmpty || isReserved name then none else some (name, cs.drop name.length)

def startsReserved (cs : List Char) : Bool :=
  isReserved (spelled cs)

def dropWord? : List Char → List Char → Option (List Char)
  | [], cs => some cs
  | _ :: _, [] => none
  | a :: word, c :: cs => if c.toLower == a then dropWord? word cs else none

/-- The text after the keyword `word`, which no character of a longer name may follow. -/
def keyword? (word cs : List Char) : Option (List Char) :=
  match dropWord? word cs with
  | some [] => some []
  | some (c :: rest) => if Text.isNameChar c then none else some (c :: rest)
  | none => none

def stuckMessage (rest : List Char) : String :=
  "Parsing Error: Error \x7b input: " ++ Text.dump rest ++ ", code: " ++
    (if startsReserved rest then "Verify" else "Tag") ++ " \x7d"

end PathQuery.Expr
