import PathQuery.Calendar
import PathQuery.Column
import PathQuery.Compile
import PathQuery.Condition
import PathQuery.Csv
import PathQuery.Cursor
import PathQuery.Database
import PathQuery.Definition
import PathQuery.Dialect
import PathQuery.Error
import PathQuery.Expr
import PathQuery.Expr.Name
import PathQuery.Expr.Parser
import PathQuery.Function
import PathQuery.Join
import PathQuery.Json
import PathQuery.Json.Reader
import PathQuery.Number.Binary
import PathQuery.Number.Decimal
import PathQuery.Number.Layout
import PathQuery.Number.Read
import PathQuery.Number.Shortest
import PathQuery.Options
import PathQuery.OrderTerm
import PathQuery.Placeholder
import PathQuery.Query
import PathQuery.Record
import PathQuery.Relation
import PathQuery.Sample.Bookshop
import PathQuery.Sample.Small
import PathQuery.Sample.Zoo
import PathQuery.Schema
import PathQuery.Schema.Description
import PathQuery.Schema.Model
import PathQuery.Schema.Reader
import PathQuery.Select
import PathQuery.Settings
import PathQuery.Sqlite
import PathQuery.Table
import PathQuery.Template
import PathQuery.Text.Alphabetic
import PathQuery.Text.Cased
import PathQuery.Text.Class
import PathQuery.Text.Distance
import PathQuery.Text.Edit
import PathQuery.Text.Hidden
import PathQuery.Text.Lossy
import PathQuery.Text.Lower
import PathQuery.Text.Mark
import PathQuery.Text.Numeric
import PathQuery.Text.Quoted
import PathQuery.Text.Recent
import PathQuery.Toml
import PathQuery.Toml.Reader
import PathQuery.Toml.Scalar
import PathQuery.Toml.Text
import PathQuery.Value
import PathQuery.Proofs.Join.Growth
import PathQuery.Proofs.Compile.Cases
import PathQuery.Proofs.Compile.Run
import PathQuery.Proofs.Compile.Containment
import PathQuery.Proofs.Sql.Fragment
import PathQuery.Proofs.Compile.Quoting
import PathQuery.Proofs.Compile.Secrecy
import PathQuery.Proofs.Expr.Extension
import PathQuery.Proofs.Expr.Chain
import PathQuery.Proofs.Expr.Splice
import PathQuery.Proofs.Expr.Truth
import PathQuery.Proofs.Condition.Meaning
import PathQuery.Proofs.Expr.Print
import PathQuery.Proofs.Expr.RoundTrip
import PathQuery.Proofs.Expr.Regroup
import PathQuery.Proofs.Compile.Grouping
import PathQuery.Proofs.Compile.Aggregate
import PathQuery.Proofs.Compile.Parameters
import PathQuery.Proofs.Compile.Expansion
import PathQuery.Proofs.Compile.Levels
import PathQuery.Proofs.Join.Attributes
import PathQuery.Proofs.Compile.Naming
import PathQuery.Proofs.Compile.Callable
import PathQuery.Proofs.Compile.Correlation
import PathQuery.Proofs.Query.Operation
import PathQuery.Proofs.Query.Current
import PathQuery.Proofs.Record.Columns
import PathQuery.Proofs.Query.Delivery
import PathQuery.Proofs.Schema.OtherSides
import PathQuery.Proofs.Join.Inverses
import PathQuery.Proofs.Condition.Conjunct
import PathQuery.Proofs.Query.Lookup
import PathQuery.Proofs.Compile.Places
import PathQuery.Proofs.Column.Splitting
import PathQuery.Proofs.Compile.Lexing
import PathQuery.Proofs.Compile.Copies
import PathQuery.Proofs.Compile.Bindable
import PathQuery.Proofs.Schema.Lookup
import PathQuery.Proofs.Compile.Like
import PathQuery.Proofs.Join.Terminal
import PathQuery.Proofs.Compile.Outer
import PathQuery.Proofs.Column.Derived
import PathQuery.Proofs.Compile.Star
import PathQuery.Proofs.Schema.Arrangement
import PathQuery.Proofs.Csv.Reading
import PathQuery.Proofs.Record.Aliases
import PathQuery.Proofs.OrderTerm.Written
import PathQuery.Proofs.Sqlite.Binding
import PathQuery.Proofs.Compile.Unbound
import PathQuery.Proofs.Placeholder.Fusion
import PathQuery.Proofs.Expr.Descent
