import PathQuery.Text.Hidden
import PathQuery.Text.Edit

/-!
Quoted text: SQL identifiers and literals, where a quote inside is written twice, and dumps, where
quotes, backslashes and hidden characters are escaped.
-/

namespace PathQuery.Text

def doubled (q : Char) : List Char → List Char
  | [] => []
  | c :: rest => if c == q then c :: c :: doubled q rest else c :: doubled q rest

def quoted (q : Char) (s : String) : String :=
  .ofList (q :: doubled q s.toList ++ [q])

def quoteIdent (s : String) : String := quoted '"' s

def quoteLiteral (s : String) : String := quoted '\'' s

def hexDigits (n : Nat) : List Char :=
  Nat.toDigits 16 n

def dumpChar (c : Char) : List Char :=
  if c == '\x00' then ['\\', '0']
  else if c == '\t' then ['\\', 't']
  else if c == '\r' then ['\\', 'r']
  else if c == '\n' then ['\\', 'n']
  else if c == '"' || c == '\\' then ['\\', c]
  else if inside hidden c.toNat then
    ['\\', 'u', '\x7b'] ++ hexDigits c.toNat ++ ['\x7d']
  else [c]

/-- Text in double quotes with everything that is not plainly visible escaped. -/
def dump (cs : List Char) : String :=
  .ofList ('"' :: cs.flatMap dumpChar ++ ['"'])

end PathQuery.Text
