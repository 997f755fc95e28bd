import PathQuery.Compile
import PathQuery.Cursor
import PathQuery.Schema.Description

/-! A schema, what may be done with it, and maybe a place to run statements. -/

namespace PathQuery

abbrev Executor := String → List Value → Except Error RowSource

structure Database where
  schema : Schema
  options : Options := {}
  executor : Option Executor := none

namespace Database

instance : Inhabited Database := ⟨{ schema := {} }⟩

def resolveModel (db : Database) (name : String) : Except Error Model :=
  db.schema.resolveModel name db.options.whitelist

def compile (db : Database) (registry : Registry) (d : Definition) (context : Context) :
    Except Error Compiled :=
  match db.resolveModel d.model with
  | .ok m =>
    PathQuery.compile registry (.top db.schema db.options m d.joinTypes) context
      (d.statement context)
  | .error e => .error e

def describe (db : Database) : Json :=
  db.schema.describe db.options.whitelist

end Database
end PathQuery
