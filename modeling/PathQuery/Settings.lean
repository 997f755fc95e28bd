import PathQuery.Options
import PathQuery.Schema.Reader

/-! Settings, and where they come from. -/

namespace PathQuery

structure Settings where
  databaseUrl : Option String := none
  dialect : Option Dialect := none
  /-- The schema file. -/
  schema : Option String := none
  trustLiteralSql : Bool := false
  whitelist : Option Whitelist := none
  /-- Functions allowed on top of the standard ones. -/
  functions : List String := []

namespace Settings

instance : Inhabited Settings := ⟨{}⟩

open Schema (positions optional withDefault text? flag? items? choice?)

def whitelist? : Json → Option Whitelist
  | .obj members => do
    let names ← members.mapM fun m => do
      let names ← items? text? m.2
      return (m.1, names)
    return ⟨.ofList names⟩
  | _ => none

def ofDocument? (v : Json) : Option Settings := do
  match ← positions false [["database_url"], ["dialect"], ["schema"], ["trust_literal_sql"],
      ["whitelist"], ["functions"]] v with
  | [url, dialect, schema, trust, whitelist, functions] =>
    return {
      databaseUrl := ← optional text? url
      dialect := ← optional (choice? .toml Dialect.ofName?) dialect
      schema := ← optional text? schema
      trustLiteralSql := ← withDefault false flag? trust
      whitelist := ← optional whitelist? whitelist
      functions := ← withDefault [] (items? text?) functions }
  | _ => none

def ofToml (text : String) : Except Error Settings :=
  match (Toml.read? text).bind ofDocument? with
  | some s => .ok s
  | none => .error .malformedSettings

def overrideUrl (s : Settings) (url : Option String) : Settings :=
  match url with
  | some url => if url.isEmpty then s else { s with databaseUrl := some url }
  | none => s

/-- The dialect that is set, else the one that the database implies. -/
def effectiveDialect (s : Settings) : Dialect :=
  (s.dialect.or (s.databaseUrl.bind Dialect.ofUrl?)).getD .postgres

def options (s : Settings) : Options where
  dialect := s.effectiveDialect
  whitelist := s.whitelist
  functions := FunctionList.standard.extend s.functions
  trustLiteralSql := s.trustLiteralSql

structure Places where
  /-- The path asked for and the text there. -/
  asked : Option (String × Option String) := none
  localFile : Option String := none
  userFile : Option String := none
  /-- The database set in the environment. -/
  url : Option String := none

/-- The settings of the file asked for, else of the local file, else of the user's. -/
def find (p : Places) : Except Error Settings :=
  match p.asked with
  | some (path, none) => .error (.unreadable path)
  | some (_, some text) => ofToml text
  | none =>
    match p.localFile.or p.userFile with
    | some text => ofToml text
    | none => .ok {}

def load (p : Places) : Except Error Settings :=
  match find p with
  | .ok s => .ok (s.overrideUrl p.url)
  | .error e => .error e

end Settings
end PathQuery
