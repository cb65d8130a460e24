import ServiceTypes.Call.Basic
import ServiceTypes.Call.Curl
import ServiceTypes.Call.Reply
import ServiceTypes.Command.Arguments
import ServiceTypes.Command.Report
import ServiceTypes.Decimal.Double
import ServiceTypes.Decimal.Shortest
import ServiceTypes.Diagnostic
import ServiceTypes.Extraction
import ServiceTypes.Http.Message
import ServiceTypes.Http.Response
import ServiceTypes.Http.Scan
import ServiceTypes.Imports
import ServiceTypes.Json.Error
import ServiceTypes.Json.Node
import ServiceTypes.Json.Number
import ServiceTypes.Json.Record
import ServiceTypes.Json.Token
import ServiceTypes.Json.Tree
import ServiceTypes.Json.Value
import ServiceTypes.Keyed
import ServiceTypes.Main
import ServiceTypes.Model.FieldType
import ServiceTypes.Model.Reading
import ServiceTypes.Model.Writing
import ServiceTypes.Registry
import ServiceTypes.Source.Document
import ServiceTypes.Source.Reading
import ServiceTypes.Source.TypeExpr
import ServiceTypes.Source.Writing
import ServiceTypes.Tag.Encoding
import ServiceTypes.Tag.Entry
import ServiceTypes.Tag.Literal
import ServiceTypes.Tag.Scan
import ServiceTypes.Text.Blank
import ServiceTypes.Text.Lines
import ServiceTypes.Text.Uppercase
import ServiceTypes.Text.Utf8
import ServiceTypes.Typing
import ServiceTypes.Proofs.Keyed
import ServiceTypes.Proofs.Registry.Slots
import ServiceTypes.Proofs.Text.Octets
import ServiceTypes.Proofs.Http.Scan
import ServiceTypes.Proofs.Http.Search
import ServiceTypes.Proofs.Http.Soundness
import ServiceTypes.Proofs.Http.BareLines
import ServiceTypes.Proofs.Http.Written
import ServiceTypes.Proofs.Registry.Sessions
import ServiceTypes.Proofs.Model.Reading
import ServiceTypes.Proofs.Registry.Handoff
import ServiceTypes.Proofs.Call.Wire
import ServiceTypes.Proofs.Imports.Versions
import ServiceTypes.Proofs.Extraction.Invisible
import ServiceTypes.Proofs.Extraction.LastDeclaration
import ServiceTypes.Proofs.Extraction.Order
import ServiceTypes.Proofs.Extraction.Isolation
import ServiceTypes.Proofs.Model.Parts
import ServiceTypes.Proofs.Tag.Encoding
import ServiceTypes.Proofs.Typing.WellFormed
import ServiceTypes.Proofs.Extraction.WellFormed
import ServiceTypes.Proofs.Tag.Spelling
import ServiceTypes.Proofs.Tag.Sequence
import ServiceTypes.Proofs.Tag.Unquoting
import ServiceTypes.Proofs.Tag.Scan
import ServiceTypes.Proofs.Tag.Lookup
import ServiceTypes.Proofs.Tag.Rounds
import ServiceTypes.Proofs.Typing.TagLiterals
import ServiceTypes.Proofs.Typing.References
import ServiceTypes.Proofs.Model.Text
import ServiceTypes.Proofs.Extraction.References
import ServiceTypes.Proofs.Typing.Events
import ServiceTypes.Proofs.Typing.Losses
import ServiceTypes.Proofs.Typing.MapKeys
import ServiceTypes.Proofs.Extraction.Account
import ServiceTypes.Proofs.Json.Integer
import ServiceTypes.Proofs.Json.Text
import ServiceTypes.Proofs.Json.Grammar
import ServiceTypes.Proofs.Json.Meaning
import ServiceTypes.Proofs.Json.Compact
import ServiceTypes.Proofs.Json.Record
import ServiceTypes.Proofs.Json.Tree
import ServiceTypes.Proofs.Source.Spelling
import ServiceTypes.Proofs.Source.Decoding
import ServiceTypes.Proofs.Call.Body
import ServiceTypes.Proofs.Model.Erasure
import ServiceTypes.Proofs.Tag.Rendering
import ServiceTypes.Proofs.Typing.Naming
import ServiceTypes.Proofs.Typing.Legible
import ServiceTypes.Proofs.Typing.Restyling
import ServiceTypes.Proofs.Typing.Normal
