import Listing.Text.Blank
import Listing.Text.Split
import Listing.Number.Power
import Listing.Number.Range
import Listing.Number.Binary
import Listing.Number.Shortest
import Listing.Number.Reading
import Listing.Keyed
import Listing.Datum
import Listing.Json.Writer
import Listing.Json.Reader
import Listing.Text.LowerCase
import Listing.Path
import Listing.Alias
import Listing.Error
import Listing.ErrorReport
import Listing.Schema.Basic
import Listing.Filter
import Listing.Page
import Listing.Options.Basic
import Listing.Options.Validation
import Listing.Plan.Basic
import Listing.Plan.Joins
import Listing.Plan.Compile
import Listing.Statement.Basic
import Listing.Statement.Render
import Listing.Calendar.Basic
import Listing.Calendar.Reader
import Listing.Calendar.Writer
import Listing.Options.Build
import Listing.Record
import Listing.Execution
import Listing.Toml.Lexeme
import Listing.Toml.Reader
import Listing.Document
import Listing.Schema.Document
import Listing.Options.Document
import Listing.Verbosity
import Listing.Text.Utf8
import Listing.Text.Percent
import Listing.Text.Quoted
import Listing.Wire.Bytes
import Listing.Wire.Hex
import Listing.Wire.Uuid
import Listing.Wire.Numeric
import Listing.Wire.ColumnType
import Listing.Wire.Parameter
import Listing.Wire.Cell
import Listing.Connection.Host
import Listing.Connection.Url
import Listing.Connection.Failure
import Listing.Connection.Settings
import Listing.Connection.Exchange
import Listing.Connection.Pool
import Listing.Proofs.Text
import Listing.Proofs.Firsts
import Listing.Proofs.Path
import Listing.Proofs.Outcome
import Listing.Proofs.Alias
import Listing.Proofs.AliasSessions
import Listing.Proofs.Validation
import Listing.Proofs.Joins
import Listing.Proofs.Compilation
import Listing.Proofs.Scoping
import Listing.Proofs.References
import Listing.Proofs.Grouping
import Listing.Proofs.NumberText
import Listing.Proofs.JsonText
import Listing.Proofs.Shapes
import Listing.Proofs.Soundness
import Listing.Proofs.Identity
import Listing.Proofs.Records
import Listing.Proofs.Flattening
import Listing.Proofs.Hydration
import Listing.Proofs.Partition
import Listing.Proofs.Repetition
import Listing.Proofs.Drafts
import Listing.Proofs.Lexemes
import Listing.Proofs.Spacing
import Listing.Proofs.Isolation
import Listing.Proofs.Bindings
import Listing.Proofs.Acceptance
import Listing.Proofs.Scalars
import Listing.Proofs.Erasure
import Listing.Proofs.Parameters
import Listing.Proofs.Scopes
import Listing.Proofs.Deletion
import Listing.Proofs.JoinPairs
import Listing.Proofs.Written
import Listing.Proofs.Operands
import Listing.Proofs.Occurrences
import Listing.Proofs.Vocabulary
import Listing.Proofs.Windows
import Listing.Proofs.Renaming
import Listing.Proofs.Prefixes
import Listing.Proofs.Selection
import Listing.Proofs.RootKeys
import Listing.Proofs.Fields
import Listing.Proofs.Ordering
import Listing.Proofs.PageOrder
import Listing.Proofs.Requests
import Listing.Proofs.Failures
import Listing.Proofs.Digits
import Listing.Proofs.JsonReading
import Listing.Proofs.Documents
import Listing.Proofs.OptionsText
import Listing.Proofs.Bytes
import Listing.Proofs.Doubles
import Listing.Proofs.Calendar
import Listing.Proofs.DateText
import Listing.Proofs.Cells
import Listing.Proofs.Integers
import Listing.Proofs.CommaLists
import Listing.Proofs.IntegerLists
import Listing.Proofs.SchemaText
import Listing.Proofs.Coverage
import Listing.Proofs.Expansion
import Listing.Proofs.Patterns
import Listing.Proofs.Exclusion
import Listing.Proofs.Missing
import Listing.Proofs.Pages
import Listing.Proofs.Readers
import Listing.Proofs.CountedKeys
import Listing.Proofs.Brackets
import Listing.Proofs.Restrictions
import Listing.Proofs.Precedence
import Listing.Proofs.Widths
import Listing.Proofs.Moments
import Listing.Proofs.DateBounds
import Listing.Proofs.ArrayCells
import Listing.Proofs.PercentText
import Listing.Proofs.Credentials
import Listing.Proofs.LetterCase
import Listing.Proofs.StoreErrors
import Listing.Proofs.Exchanges
import Listing.Proofs.Walks
