import PathQuery.Toml
import PathQuery.Toml.Scalar

/-!
Reading a TOML document as the tree that it denotes. A number that a reader takes first bounds its
steps or lines.
-/

namespace PathQuery.Toml

mutual

def value? : Nat → List Char → Option (Json × List Char)
  | 0, _ => none
  | n + 1, cs =>
    match cs with
    | '[' :: rest => array? n [] rest
    | '\x7b' :: rest =>
      match skipGap rest with
      | '\x7d' :: rest => some (.obj [], rest)
      | rest => inline? n (.mk false false []) rest
    | 't' :: 'r' :: 'u' :: 'e' :: rest => some (.bool true, rest)
    | 'f' :: 'a' :: 'l' :: 's' :: 'e' :: rest => some (.bool false, rest)
    | '"' :: _ | '\'' :: _ => (string? cs).map fun (s, rest) => (.str s, rest)
    | cs => number? cs

def array? : Nat → List Json → List Char → Option (Json × List Char)
  | 0, _, _ => none
  | n + 1, items, cs =>
    let rest := skipLines (cs.length + 1) cs
    match rest with
    | ']' :: rest => some (.arr items.reverse, rest)
    | _ =>
      match value? n rest with
      | none => none
      | some (v, rest) =>
        let rest := skipLines (rest.length + 1) rest
        match rest with
        | ',' :: rest => array? n (v :: items) rest
        | ']' :: rest => some (.arr (v :: items).reverse, rest)
        | _ => none

def inline? : Nat → Group → List Char → Option (Json × List Char)
  | 0, _, _ => none
  | n + 1, g, cs =>
    match key? (cs.length + 1) cs with
    | none => none
    | some (path, rest) =>
      match rest with
      | '=' :: rest =>
        match value? n (skipGap rest) with
        | none => none
        | some (v, rest) =>
          match g.assign path.dropLast (path.getLastD "") v with
          | none => none
          | some g =>
            match skipGap rest with
            | ',' :: rest => inline? n g rest
            | '\x7d' :: rest => some (g.toJson, rest)
            | _ => none
      | _ => none

end

def lineEnd? (cs : List Char) : Option (List Char) :=
  match skipComment (skipGap cs) with
  | [] => some []
  | rest => newline? rest

structure State where
  root : Group := .mk false false []
  path : List String := []

def keyValue? (s : State) (cs : List Char) : Option (State × List Char) := do
  let (path, rest) ← key? (cs.length + 1) cs
  let rest ← expect? '=' rest
  let (v, rest) ← value? (2 * rest.length + 2) (skipGap rest)
  let root ← s.root.modify false (·.assign path.dropLast (path.getLastD "") v) s.path
  return ({ s with root }, rest)

def header? (s : State) (cs : List Char) : Option (State × List Char) :=
  match cs with
  | '[' :: cs => do
    let (path, rest) ← key? (cs.length + 1) cs
    let rest ← (expect? ']' rest).bind (expect? ']')
    let root ← s.root.openItem path.dropLast (path.getLastD "")
    return (⟨root, path⟩, rest)
  | cs => do
    let (path, rest) ← key? (cs.length + 1) cs
    let rest ← expect? ']' rest
    let root ← s.root.openTable path.dropLast (path.getLastD "")
    return (⟨root, path⟩, rest)

def document? : Nat → State → List Char → Option Group
  | 0, _, _ => none
  | n + 1, s, cs =>
    match skipGap cs with
    | [] => some s.root
    | '[' :: rest =>
      match header? s rest with
      | none => none
      | some (s, rest) => (lineEnd? rest).bind (document? n s)
    | rest =>
      match lineEnd? rest with
      | some rest => document? n s rest
      | none =>
        match keyValue? s rest with
        | none => none
        | some (s, rest) => (lineEnd? rest).bind (document? n s)

def read? (text : String) : Option Json :=
  let cs := match text.toList with
    | '\uFEFF' :: cs => cs
    | cs => cs
  (document? (cs.length + 1) {} cs).map Group.toJson

end PathQuery.Toml
