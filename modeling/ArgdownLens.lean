import ArgdownLens.Decimal.Binary64
import ArgdownLens.Decimal.Shortest
import ArgdownLens.Engine.Command
import ArgdownLens.Engine.Config
import ArgdownLens.Engine.Error
import ArgdownLens.Engine.Host
import ArgdownLens.Engine.Request
import ArgdownLens.Json.Fault
import ArgdownLens.Json.Number
import ArgdownLens.Json.Raw
import ArgdownLens.Json.Token
import ArgdownLens.Json.Value
import ArgdownLens.Json.Writer
import ArgdownLens.Model.Entity
import ArgdownLens.Model.OrderedMap
import ArgdownLens.Model.Relation
import ArgdownLens.Model.Response
import ArgdownLens.Position
import ArgdownLens.Process
import ArgdownLens.Query.Analysis
import ArgdownLens.Query.Completion
import ArgdownLens.Query.Definition
import ArgdownLens.Query.Diagnostic
import ArgdownLens.Query.Edit
import ArgdownLens.Query.Hover
import ArgdownLens.Query.Locate
import ArgdownLens.Query.Occurrence
import ArgdownLens.Query.Outline
import ArgdownLens.Query.References
import ArgdownLens.Query.Rename
import ArgdownLens.Span
import ArgdownLens.Text.Blank
import ArgdownLens.Text.LineIndex
import ArgdownLens.Text.Plain
import ArgdownLens.Text.Quoted
import ArgdownLens.Text.Utf8
import ArgdownLens.Tree.Node
import ArgdownLens.Uri.FilePath
import ArgdownLens.Uri.Host
import ArgdownLens.Uri.Path
import ArgdownLens.Uri.Percent
import ArgdownLens.Wire.Decoder
import ArgdownLens.Wire.Encoder
import ArgdownLens.Wire.Entity
import ArgdownLens.Wire.Response
import ArgdownLens.Wire.Tree
import ArgdownLens.Proofs.Cursor.Closest
import ArgdownLens.Proofs.Tree.WellFormed
import ArgdownLens.Proofs.Tree.Order
import ArgdownLens.Proofs.Cursor.Resolution
import ArgdownLens.Proofs.Cursor.Agreement
import ArgdownLens.Proofs.Cursor.Return
import ArgdownLens.Proofs.Engine.History
import ArgdownLens.Proofs.Engine.Command
import ArgdownLens.Proofs.Query.Order
import ArgdownLens.Proofs.Query.Partition
import ArgdownLens.Proofs.Rename
import ArgdownLens.Proofs.Json.Lexing
import ArgdownLens.Proofs.Json.Numeral
import ArgdownLens.Proofs.Json.Spelling
import ArgdownLens.Proofs.Json.Tree
import ArgdownLens.Proofs.Wire.Entity
import ArgdownLens.Proofs.Wire.RoundTrip
import ArgdownLens.Proofs.Cursor.Indentation
import ArgdownLens.Proofs.Model.Build
import ArgdownLens.Proofs.Query.Completion
import ArgdownLens.Proofs.Text.Utf8
import ArgdownLens.Proofs.Json.Mending
import ArgdownLens.Proofs.Wire.Listing
import ArgdownLens.Proofs.Wire.Bytes
import ArgdownLens.Proofs.Cursor.Column
import ArgdownLens.Proofs.Json.Written
import ArgdownLens.Proofs.Engine.Payload
import ArgdownLens.Proofs.Text.Lines
import ArgdownLens.Proofs.Text.Scan
import ArgdownLens.Proofs.Text.Coordinates
import ArgdownLens.Proofs.Text.Pattern
import ArgdownLens.Proofs.Query.ClosedTitle
import ArgdownLens.Proofs.Wire.Closing
import ArgdownLens.Proofs.Uri.FilePath
import ArgdownLens.Proofs.Json.Grammar
import ArgdownLens.Proofs.Wire.Core
import ArgdownLens.Proofs.Wire.Foreign
import ArgdownLens.Proofs.Query.Outline
import ArgdownLens.Proofs.Query.HoverLines
import ArgdownLens.Proofs.Uri.Spelling
import ArgdownLens.Proofs.Wire.Graft
import ArgdownLens.Proofs.Wire.Inset
import ArgdownLens.Proofs.Wire.Coordinate
import ArgdownLens.Proofs.Span
import ArgdownLens.Proofs.Query.Rendering
import ArgdownLens.Proofs.Text.Tiling
import ArgdownLens.Proofs.Json.Quoted
import ArgdownLens.Proofs.Wire.Text
import ArgdownLens.Proofs.Wire.Naming
