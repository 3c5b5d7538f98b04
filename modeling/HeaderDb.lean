import HeaderDb.CommandLine
import HeaderDb.CommandLine.Help
import HeaderDb.Database.Decode
import HeaderDb.Database.Layout
import HeaderDb.Database.Record
import HeaderDb.Decimal.Binary64
import HeaderDb.Decimal.Shortest
import HeaderDb.Failure
import HeaderDb.Glob.Match
import HeaderDb.Glob.Pattern
import HeaderDb.Json.Lexeme
import HeaderDb.Json.Literal
import HeaderDb.Json.Numeral
import HeaderDb.Json.Skip
import HeaderDb.Main
import HeaderDb.Mismatch
import HeaderDb.Program
import HeaderDb.Proofs.Database.RoundTrip
import HeaderDb.Proofs.Json.Literal
import HeaderDb.Proofs.Json.Reading
import HeaderDb.Proofs.Json.Rendering
import HeaderDb.Proofs.Json.Skip
import HeaderDb.Proofs.Run.Effects
import HeaderDb.Proofs.Run.Growth
import HeaderDb.Proofs.Run.Listing
import HeaderDb.Proofs.Run.Order
import HeaderDb.Proofs.Run.Relocate
import HeaderDb.Proofs.Run.Repeat
import HeaderDb.Proofs.Tree.Fresh
import HeaderDb.Proofs.Tree.Join
import HeaderDb.Proofs.Tree.Node
import HeaderDb.Proofs.Tree.Order
import HeaderDb.Proofs.Tree.Relocate
import HeaderDb.Proofs.Tree.Walk
import HeaderDb.Proofs.Tree.Write
import HeaderDb.Run
import HeaderDb.Scan
import HeaderDb.Settings
import HeaderDb.Terminal.Filter
import HeaderDb.Terminal.Style
import HeaderDb.Text.GraphemeExtend
import HeaderDb.Text.Quoted
import HeaderDb.Text.Unprintable
import HeaderDb.Text.Utf8
import HeaderDb.Toml.Document
import HeaderDb.Toml.Error
import HeaderDb.Toml.Lexeme
import HeaderDb.Toml.Number
import HeaderDb.Toml.Source
import HeaderDb.Toml.Text
import HeaderDb.Toml.Value
import HeaderDb.Tree.Access
import HeaderDb.Tree.Edit
import HeaderDb.Tree.Node
import HeaderDb.Tree.Path
import HeaderDb.Tree.Walk
import HeaderDb.Proofs.Database.Format
import HeaderDb.Proofs.Run.Notes
import HeaderDb.Proofs.Run.Records
import HeaderDb.Proofs.CommandLine.Decoding
import HeaderDb.Proofs.Toml.Reading
import HeaderDb.Proofs.Toml.Assignments
import HeaderDb.Proofs.Settings.Document
import HeaderDb.Proofs.Tree.Elsewhere
import HeaderDb.Proofs.Run.Precedence
import HeaderDb.Proofs.Glob.Items
import HeaderDb.Proofs.Glob.Pieces
import HeaderDb.Proofs.Glob.Affixes
import HeaderDb.Proofs.Run.Steps
import HeaderDb.Proofs.Text.Splitting
import HeaderDb.Proofs.Database.Command
import HeaderDb.Proofs.Database.Lines
import HeaderDb.Proofs.Database.Compact
