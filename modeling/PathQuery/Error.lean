import PathQuery.Expr.Name

/-! Everything that can go wrong, by cause, with its kind and its message. -/

namespace PathQuery

inductive Error where
  | modelNotFound (name : String)
  | fieldNotFound (model field : String) (suggestion : Option String)
  | unknownFunction (name : String)
  /-- No expression starts at `rest`, which is `position` bytes into the source. -/
  | stuck (position : Nat) (rest : List Char)
  | trailing (position : Nat) (rest : String)
  | unbalanced (source : String)
  | duplicateAlias (name : String)
  | orderTermNear (rest : String)
  | orderStuck (source : String) (rest : List Char)
  | directionConflict
  | emptyColumns
  | arity (name expected : String) (got : Nat)
  | castType (argument : String)
  | subqueryArguments
  | otherModel (other queried : String)
  | noModel (table : String)
  | invalid (reason : String)
  | noSource (name : String)
  | tooDeep (limit : Nat)
  | untrustedSql (text : String)
  | missingParameter (name : String)
  | duplicateModel (label : String)
  | unknownTarget (target : String)
  | accessorClash (accessor target : String)
  | notRelation (field : String)
  | malformedSchema
  | noDatabase
  | unreachable (url : String)
  | execution (reason : String)
  /-- The database did not take the statement, for reasons of its own. -/
  | refused
  | rowWidth (values columns : Nat)
  | wrongShape
  | malformedSettings
  | noSchemaFile
  | unreadable (path : String)
deriving DecidableEq, Repr

inductive ErrorKind where
  | modelNotFound | fieldNotFound | unknownFunction | parse | invalidExpression
  | subqueryResolution | untrustedSql | missingParameter | schema | connection | execution
  | decode | config | io
deriving DecidableEq, Repr

namespace Error

def kind : Error → ErrorKind
  | .modelNotFound _ => .modelNotFound
  | .fieldNotFound .. => .fieldNotFound
  | .unknownFunction _ => .unknownFunction
  | .stuck .. | .trailing .. => .parse
  | .unbalanced _ | .duplicateAlias _ | .orderTermNear _ | .orderStuck .. | .directionConflict
  | .emptyColumns | .arity .. | .castType _ | .subqueryArguments | .otherModel .. | .noModel _
  | .invalid _ => .invalidExpression
  | .noSource _ | .tooDeep _ => .subqueryResolution
  | .untrustedSql _ => .untrustedSql
  | .missingParameter _ => .missingParameter
  | .duplicateModel _ | .unknownTarget _ | .accessorClash .. | .notRelation _
  | .malformedSchema => .schema
  | .noDatabase | .unreachable _ => .connection
  | .execution _ | .refused => .execution
  | .rowWidth .. | .wrongShape => .decode
  | .malformedSettings | .noSchemaFile => .config
  | .unreadable _ => .io

/-- Errors met while a query is put together, as opposed to while it runs. -/
def isCompileError (e : Error) : Bool :=
  match e.kind with
  | .connection | .execution | .decode | .io => false
  | _ => true

def detail : Error → String
  | .modelNotFound name => s!"'{name}'"
  | .fieldNotFound model field suggestion =>
    s!"'{field}' on model '{model}'" ++
      match suggestion with
      | some s => s!" (did you mean '{s}'?)"
      | none => ""
  | .unknownFunction name => s!"'{name}'"
  | .stuck _ rest => "Parse failed: " ++ Expr.stuckMessage rest
  | .trailing _ rest => s!"Unexpected trailing content: '{rest}'"
  | .unbalanced source => s!"unbalanced brackets or quotes in '{source}'"
  | .duplicateAlias name => s!"duplicate column alias '{name}'"
  | .orderTermNear rest => s!"bad order-by term near '{rest}'"
  | .orderStuck source rest => s!"bad order-by '{source}': " ++ Expr.stuckMessage rest
  | .directionConflict => "'-' prefix conflicts with 'asc'"
  | .emptyColumns => "empty column list"
  | .arity name expected got => s!"{name}() takes {expected} argument(s), got {got}"
  | .castType argument => s!"invalid CAST type {argument}"
  | .subqueryArguments =>
    "subquery() takes a model, a column list and an optional filter, as strings"
  | .otherModel other queried => s!"model '{other}' is not the queried model '{queried}'"
  | .noModel table => s!"relation '{table}' has no model"
  | .invalid reason => reason
  | .noSource name => s!"no source named '{name}'"
  | .tooDeep limit => s!"sub-queries nested deeper than {limit}"
  | .untrustedSql text => s!"'{text}'"
  | .missingParameter name => s!"'{name}'"
  | .duplicateModel label => s!"duplicate model '{label}'"
  | .unknownTarget target => s!"unknown relation target '{target}'"
  | .accessorClash accessor target =>
    s!"reverse accessor '{accessor}' clashes with a field of '{target}'; set related_name"
  | .notRelation field => s!"field '{field}' is not a relation"
  | .malformedSchema => "malformed schema document"
  | .noDatabase => "no database configured"
  | .unreachable url => s!"cannot connect to '{url}'"
  | .execution reason => reason
  | .refused => "statement refused"
  | .rowWidth values columns => s!"row has {values} values for {columns} columns"
  | .wrongShape => "row does not have the requested shape"
  | .malformedSettings => "malformed settings"
  | .noSchemaFile => "no schema file configured"
  | .unreadable path => s!"cannot read '{path}'"

def message (e : Error) : String :=
  let lead := match e with
    | .modelNotFound _ => "Model not found: "
    | .fieldNotFound .. => "Field not found: "
    | .unknownFunction _ => "Unknown function: "
    | .stuck position _ | .trailing position _ => s!"Parse error at position {position}: "
    | .untrustedSql _ => "Literal SQL is not trusted: "
    | .missingParameter _ => "Missing value for parameter "
    | e => match e.kind with
      | .subqueryResolution => "Sub-query resolution failed: "
      | .schema => "Schema error: "
      | .connection => "Connection error: "
      | .execution => "Execution error: "
      | .decode => "Decode error: "
      | .config => "Configuration error: "
      | .io => "IO error: "
      | _ => "Invalid expression: "
  lead ++ e.detail

end Error
end PathQuery
