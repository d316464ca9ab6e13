import Mailgrid.Calendar
import Mailgrid.Component
import Mailgrid.Decimal.Digits
import Mailgrid.Decimal.FloorDiv
import Mailgrid.Decimal.Nearest
import Mailgrid.Decimal.Read
import Mailgrid.Decimal.Rounded
import Mailgrid.Decimal.Shortest
import Mailgrid.Document
import Mailgrid.Document.Format
import Mailgrid.Engine
import Mailgrid.Expansion
import Mailgrid.Failure
import Mailgrid.Files.FileTree
import Mailgrid.Files.Glob
import Mailgrid.Files.Path
import Mailgrid.Job
import Mailgrid.Job.Arguments
import Mailgrid.Main
import Mailgrid.Markup.ClassList
import Mailgrid.Markup.Forest
import Mailgrid.Markup.Forest.OfTokens
import Mailgrid.Markup.Grammar
import Mailgrid.Markup.OpenTag
import Mailgrid.Markup.Reference
import Mailgrid.Markup.Reference.Names
import Mailgrid.Markup.Spelling
import Mailgrid.Markup.Style
import Mailgrid.Markup.Token
import Mailgrid.Message
import Mailgrid.Message.Filling
import Mailgrid.Message.Layout
import Mailgrid.Message.Number
import Mailgrid.Message.Subject
import Mailgrid.Options
import Mailgrid.RawBlock
import Mailgrid.Settings
import Mailgrid.Table
import Mailgrid.Template
import Mailgrid.Text.Blank
import Mailgrid.Text.Bytes
import Mailgrid.Text.Case
import Mailgrid.Text.CaseTable
import Mailgrid.Text.Digit
import Mailgrid.Text.Fold
import Mailgrid.Text.Integer
import Mailgrid.Text.Letter
import Mailgrid.Text.Printable
import Mailgrid.Text.Quoted
import Mailgrid.Text.Search
import Mailgrid.Text.Split
import Mailgrid.Unfolding
import Mailgrid.Value
import Mailgrid.Value.Hash
import Mailgrid.VoidElement
import Mailgrid.Yaml
import Mailgrid.Yaml.Kind
import Mailgrid.Yaml.Literal
import Mailgrid.Yaml.Mark
import Mailgrid.Yaml.Node
import Mailgrid.Yaml.Scalar.Block
import Mailgrid.Yaml.Scalar.Plain
import Mailgrid.Yaml.Scalar.Quoted
import Mailgrid.Yaml.Tag
import Mailgrid.Yaml.Token
import Mailgrid.Proofs.Markup.Outline
import Mailgrid.Proofs.Unfolding.Step
import Mailgrid.Proofs.Document.Marks
import Mailgrid.Proofs.Unfolding.Order
import Mailgrid.Proofs.Markup.Tokens
import Mailgrid.Proofs.Markup.Reading
import Mailgrid.Proofs.Expansion.Frame
import Mailgrid.Proofs.Expansion.Marker
import Mailgrid.Proofs.Unfolding.Unfolded
import Mailgrid.Proofs.Unfolding.Expanded
import Mailgrid.Proofs.Unfolding.OnePass
import Mailgrid.Proofs.Expansion.Rows
import Mailgrid.Proofs.Unfolding.AnyOrder
import Mailgrid.Proofs.Markup.Ordinary
import Mailgrid.Proofs.Markup.Spelling
import Mailgrid.Proofs.RawBlock
import Mailgrid.Proofs.VoidElement
import Mailgrid.Proofs.Document.Ordinary
import Mailgrid.Proofs.Engine
import Mailgrid.Proofs.RawBlock.RoundTrip
import Mailgrid.Proofs.Markup.Brackets
import Mailgrid.Proofs.Markup.Refusal
import Mailgrid.Proofs.Unfolding.Refusal
import Mailgrid.Proofs.Engine.Total
import Mailgrid.Proofs.Engine.Raw
import Mailgrid.Proofs.Markup.Clear
import Mailgrid.Proofs.Markup.Retagged
import Mailgrid.Proofs.Renaming.Expansion
import Mailgrid.Proofs.Renaming.Run
import Mailgrid.Proofs.Renaming.Spelling
import Mailgrid.Proofs.Renaming.Document
import Mailgrid.Proofs.Engine.Renamed
import Mailgrid.Proofs.Document.Hollow
import Mailgrid.Proofs.Markup.Passage
import Mailgrid.Proofs.VoidElement.Local
import Mailgrid.Proofs.VoidElement.Passages
import Mailgrid.Proofs.VoidElement.Interiors
import Mailgrid.Proofs.Template.Sealed
import Mailgrid.Proofs.Expansion.Values
import Mailgrid.Proofs.Expansion.Centered
import Mailgrid.Proofs.Unfolding.Centered
import Mailgrid.Proofs.Markup.Names
import Mailgrid.Proofs.Unfolding.Parsed
import Mailgrid.Proofs.Markup.Protected
import Mailgrid.Proofs.Markup.Constructs
import Mailgrid.Proofs.Unfolding.Protected
import Mailgrid.Proofs.Unfolding.Inside
import Mailgrid.Proofs.Unfolding.ColumnLayout
import Mailgrid.Proofs.Document.Segments
import Mailgrid.Proofs.Files.FileTree
import Mailgrid.Proofs.Files.Glob
import Mailgrid.Proofs.Job.Documents
import Mailgrid.Proofs.Job.Written
import Mailgrid.Proofs.Job.Sound
import Mailgrid.Proofs.Markup.Grown
import Mailgrid.Proofs.Markup.Reference
import Mailgrid.Proofs.Template.Opening
import Mailgrid.Proofs.Expansion.HandedOn
import Mailgrid.Proofs.Expansion.Decoded
import Mailgrid.Proofs.Markup.Passed
import Mailgrid.Proofs.Document.Parts
import Mailgrid.Proofs.Engine.Spacer
import Mailgrid.Proofs.VoidElement.Slashed
import Mailgrid.Proofs.Unfolding.Lower
import Mailgrid.Proofs.Markup.Respelled
import Mailgrid.Proofs.Markup.Spelled
import Mailgrid.Proofs.Engine.Spelled
import Mailgrid.Proofs.VoidElement.Once
import Mailgrid.Proofs.RawBlock.Marked
import Mailgrid.Proofs.RawBlock.Pass
import Mailgrid.Proofs.VoidElement.Canonical
import Mailgrid.Proofs.Engine.Recased
import Mailgrid.Proofs.RawBlock.Placeholder
import Mailgrid.Proofs.Unfolding.Limit
import Mailgrid.Proofs.Expansion.Carried
import Mailgrid.Proofs.Unfolding.CenterInPlace
import Mailgrid.Proofs.Options
import Mailgrid.Proofs.Files.Inside
import Mailgrid.Proofs.Job.Meets
import Mailgrid.Proofs.Job.Inside
import Mailgrid.Proofs.Markup.Verbatim
import Mailgrid.Proofs.Document.Unwrapped
