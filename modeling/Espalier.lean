import Espalier.Connection
import Espalier.Database.Action
import Espalier.Database.Basic
import Espalier.Database.Cell
import Espalier.Database.Definition
import Espalier.Database.Image
import Espalier.Database.Reading
import Espalier.Database.Table
import Espalier.Database.Writing
import Espalier.Document
import Espalier.Entries
import Espalier.Host
import Espalier.Json.Basic
import Espalier.Json.Numeral
import Espalier.Json.Printer
import Espalier.Json.Reader
import Espalier.Json.Tree
import Espalier.Main
import Espalier.Number.Decimal
import Espalier.Number.Double
import Espalier.Number.Numeral
import Espalier.Number.Word
import Espalier.Program.Arguments
import Espalier.Program.Basic
import Espalier.Proofs.Connecting
import Espalier.Proofs.Database.Formation
import Espalier.Proofs.Database.Introspection
import Espalier.Proofs.Database.Lookup
import Espalier.Proofs.Database.Rows
import Espalier.Proofs.Database.Settling
import Espalier.Proofs.Database.Taking
import Espalier.Proofs.Entries
import Espalier.Proofs.Json.Compact
import Espalier.Proofs.Json.Conversions
import Espalier.Proofs.Json.Doubles
import Espalier.Proofs.Json.Grammar
import Espalier.Proofs.Json.Numerals
import Espalier.Proofs.Json.Reading
import Espalier.Proofs.Json.Scaling
import Espalier.Proofs.Json.Source
import Espalier.Proofs.Json.Strings
import Espalier.Proofs.Json.Trees
import Espalier.Proofs.Number.Closest
import Espalier.Proofs.Number.Digits
import Espalier.Proofs.Number.Nearest
import Espalier.Proofs.Number.Products
import Espalier.Proofs.Number.Rounding
import Espalier.Proofs.Number.Shortest
import Espalier.Proofs.Number.Whole
import Espalier.Proofs.Schema.Documents
import Espalier.Proofs.Schema.Grammar
import Espalier.Proofs.Schema.Rules
import Espalier.Proofs.Schema.Soundness
import Espalier.Proofs.Sequencing
import Espalier.Proofs.Settings.Directives
import Espalier.Proofs.Settings.Notations
import Espalier.Proofs.Settings.Paths
import Espalier.Proofs.Settings.Printing
import Espalier.Proofs.Settings.Restoring
import Espalier.Proofs.Settings.Sources
import Espalier.Proofs.Sql.Layouts
import Espalier.Proofs.Sql.Rows
import Espalier.Proofs.Sql.Statements
import Espalier.Proofs.Sql.Tokens
import Espalier.Proofs.Store.Admission
import Espalier.Proofs.Store.Agreeing
import Espalier.Proofs.Store.Atomicity
import Espalier.Proofs.Store.Binding
import Espalier.Proofs.Store.Compiling
import Espalier.Proofs.Store.Completing
import Espalier.Proofs.Store.Conformity
import Espalier.Proofs.Store.Elements
import Espalier.Proofs.Store.Exporting
import Espalier.Proofs.Store.Extending
import Espalier.Proofs.Store.Fitting
import Espalier.Proofs.Store.Gathering
import Espalier.Proofs.Store.Grafting
import Espalier.Proofs.Store.Growing
import Espalier.Proofs.Store.History
import Espalier.Proofs.Store.Ids
import Espalier.Proofs.Store.Image
import Espalier.Proofs.Store.Keys
import Espalier.Proofs.Store.Layout
import Espalier.Proofs.Store.Numbering
import Espalier.Proofs.Store.Paging
import Espalier.Proofs.Store.Planning
import Espalier.Proofs.Store.Planting
import Espalier.Proofs.Store.Provisioning
import Espalier.Proofs.Store.Pruning
import Espalier.Proofs.Store.Replanting
import Espalier.Proofs.Store.Restricting
import Espalier.Proofs.Store.RoundTrip
import Espalier.Proofs.Store.Run
import Espalier.Proofs.Store.Sowing
import Espalier.Proofs.Store.Supplying
import Espalier.Proofs.Store.Tending
import Espalier.Proofs.Store.Verifying
import Espalier.Proofs.Store.Writing
import Espalier.Proofs.Text.Letters
import Espalier.Proofs.Text.Percent
import Espalier.Proofs.Text.Runs
import Espalier.Proofs.Text.Trimming
import Espalier.Proofs.Text.Utf8
import Espalier.Proofs.Time.Durations
import Espalier.Proofs.Time.Timestamps
import Espalier.Proofs.Yaml.Agreement
import Espalier.Proofs.Yaml.Blocks
import Espalier.Proofs.Yaml.Nodes
import Espalier.Proofs.Yaml.Numbers
import Espalier.Proofs.Yaml.Records
import Espalier.Proofs.Yaml.Tokens
import Espalier.Schema.Basic
import Espalier.Schema.Document
import Espalier.Schema.Layout
import Espalier.Schema.Validation
import Espalier.Settings.Basic
import Espalier.Settings.Database
import Espalier.Settings.Dsn
import Espalier.Settings.Layer
import Espalier.Settings.Logging
import Espalier.Settings.Pragma
import Espalier.Sql.Statement
import Espalier.Store.Basic
import Espalier.Store.Codec
import Espalier.Store.Failure
import Espalier.Store.Growth
import Espalier.Store.Insertion
import Espalier.Store.Plan
import Espalier.Store.Provision
import Espalier.Text.Ascii
import Espalier.Text.Blank
import Espalier.Text.Percent
import Espalier.Text.Search
import Espalier.Text.Utf8
import Espalier.Time.Duration
import Espalier.Time.Timestamp
import Espalier.Tree
import Espalier.Workspace
import Espalier.Yaml.Cursor
import Espalier.Yaml.Node
import Espalier.Yaml.Printer
import Espalier.Yaml.Reader
import Espalier.Yaml.Scalar
import Espalier.Yaml.Tree

/-!
# Espalier

Espalier keeps nested documents in flat relational tables.  A schema names a main table and its
secondary tables; a document is trained along it, one row of the main table and one row for each
element of a list, and is grown back from those rows when it is read.
-/
