import PathQuery.Error
import PathQuery.Text.Lower

/-!
Column lists: expressions between commas, each with the alias that follows `as` or else one made
from its text. A pair of parentheses around the whole list is dropped.
-/

namespace PathQuery

structure Column where
  expression : String
  name : String
deriving DecidableEq, Repr

namespace Column

abbrev Quote := Option Char

def quoteAfter (quote : Quote) (c : Char) : Quote :=
  match quote with
  | some q => if c == q then none else some q
  | none => if c == '\'' || c == '"' then some c else none

def opens (c : Char) : Bool :=
  c == '(' || c == '[' || c == '\x7b'

def closes (c : Char) : Bool :=
  c == ')' || c == ']' || c == '\x7d'

/-- The parts between commas outside brackets and strings, `part` being the reversed beginning of
the first; nothing where brackets or quotes do not match up. -/
def splitFrom (depth : Nat) (quote : Quote) (part : List Char) :
    List Char → Option (List (List Char))
  | [] => if depth == 0 && quote.isNone then some [part.reverse] else none
  | c :: cs =>
    if quote.isNone && opens c then splitFrom (depth + 1) none (c :: part) cs
    else if quote.isNone && closes c then
      if depth == 0 then none else splitFrom (depth - 1) none (c :: part) cs
    else if quote.isNone && depth == 0 && c == ',' then
      (splitFrom 0 none [] cs).map (part.reverse :: ·)
    else splitFrom depth (quoteAfter quote c) (c :: part) cs

def split? (cs : List Char) : Option (List (List Char)) :=
  splitFrom 0 none [] cs

def afterOuter? (depth : Nat) (quote : Quote) : List Char → Option (List Char)
  | [] => none
  | c :: cs =>
    if quote.isNone && c == '(' then afterOuter? (depth + 1) none cs
    else if quote.isNone && c == ')' then
      if depth ≤ 1 then some cs else afterOuter? (depth - 1) none cs
    else afterOuter? depth (quoteAfter quote c) cs

def stripOuter (cs : List Char) : Except Error (List Char) :=
  if cs.head? == some '(' && cs.getLast? == some ')' then
    match afterOuter? 0 none cs with
    | none => .error (.unbalanced (.ofList cs))
    | some [] => .ok (Text.trimChars (cs.drop 1).dropLast)
    | some _ => .ok cs
  else .ok cs

/-- The letters of `as`, in any case; the long s counts as an s. -/
def isAliasWord (a s : Char) : Bool :=
  (a == 'a' || a == 'A') && (s == 's' || s == 'S' || s == 'ſ')

/-- Splits `expression as alias`, reading from the end. -/
def aliased? (cs : List Char) : Option (List Char × List Char) :=
  let back := cs.reverse
  let word := back.takeWhile Text.isWordChar
  let back := back.drop word.length
  match back.takeWhile Text.isBlank, back.dropWhile Text.isBlank with
  | _ :: _, s :: a :: back =>
    match back.takeWhile Text.isBlank, back.dropWhile Text.isBlank with
    | _ :: _, e :: back =>
      if !word.isEmpty && isAliasWord a s then
        some (Text.trimChars (e :: back).reverse, word.reverse)
      else none
    | _, _ => none
  | _, _ => none

def isDash (c : Char) : Bool :=
  c == '-' || Text.isBlank c

def dashed : Bool → List Char → List Char
  | _, [] => []
  | after, c :: cs =>
    if isDash c then if after then dashed true cs else '-' :: dashed true cs
    else c :: dashed false cs

def isEdge (c : Char) : Bool :=
  c == '-' || c == '_'

/-- An alias made from the text of an expression: points and spaces become underscores, letters
small, and only word characters stay. -/
def slug (expression : String) : String :=
  let text := Text.replaceChar ' ' "_" (Text.replaceChar '.' "_" expression)
  let cs := (Text.lower text).toList.filter fun c => Text.isWordChar c || isDash c
  let cs := (dashed false cs).dropWhile isEdge
  let cs := (cs.reverse.dropWhile isEdge).reverse
  .ofList (cs.map fun c => if c == '-' then '_' else c)

def ofPart (count : Nat) (cs : List Char) : Column :=
  match aliased? cs with
  | some (expression, name) => ⟨.ofList expression, .ofList name⟩
  | none =>
    let name := slug (.ofList cs)
    ⟨.ofList cs, if name.isEmpty then "col" ++ Text.ofNat count else name⟩

def ofParts (columns : List Column) : List (List Char) → Except Error (List Column)
  | [] => .ok columns
  | part :: parts =>
    let part := Text.trimChars part
    if part.isEmpty then ofParts columns parts
    else
      let column := ofPart columns.length part
      if columns.any (·.name == column.name) then .error (.duplicateAlias column.name)
      else ofParts (columns ++ [column]) parts

def parseList (source : String) : Except Error (List Column) :=
  match stripOuter (Text.trimChars source.toList) with
  | .error e => .error e
  | .ok cs =>
    match split? cs with
    | none => .error (.unbalanced (.ofList cs))
    | some parts => ofParts [] parts

end Column
end PathQuery
