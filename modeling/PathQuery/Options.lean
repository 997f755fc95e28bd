import PathQuery.Function
import PathQuery.Schema.Model

/-! What a compilation may use. -/

namespace PathQuery

structure Options where
  dialect : Dialect := .postgres
  whitelist : Option Whitelist := none
  functions : FunctionList := .standard
  /-- Whether string literals that hold a whole SELECT are taken as SQL. -/
  trustLiteralSql : Bool := false

instance : Inhabited Options := ⟨{}⟩

end PathQuery
