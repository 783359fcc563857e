import ShapeCodec.Base64
import ShapeCodec.Binary.Basic
import ShapeCodec.Binary.Literal
import ShapeCodec.Binary.Power
import ShapeCodec.Binary.Shortest
import ShapeCodec.Binary.Style
import ShapeCodec.Codec
import ShapeCodec.Config.Basic
import ShapeCodec.Config.Json
import ShapeCodec.Decimal
import ShapeCodec.Document.Access
import ShapeCodec.Document.Basic
import ShapeCodec.Document.Update
import ShapeCodec.Entries
import ShapeCodec.Error
import ShapeCodec.Gallery.Shapes
import ShapeCodec.Gallery.Types
import ShapeCodec.Gallery.Unchecked
import ShapeCodec.Json.Basic
import ShapeCodec.Json.Envelope
import ShapeCodec.Json.Parsed
import ShapeCodec.Json.Parser
import ShapeCodec.Json.Printer
import ShapeCodec.Json.Scalar
import ShapeCodec.Json.Scanner
import ShapeCodec.Json.Setting
import ShapeCodec.Json.Skip
import ShapeCodec.Json.Untyped
import ShapeCodec.Numeral
import ShapeCodec.Proofs.AbsentMembers
import ShapeCodec.Proofs.Base64
import ShapeCodec.Proofs.Binary
import ShapeCodec.Proofs.Calendar
import ShapeCodec.Proofs.CallValues
import ShapeCodec.Proofs.Calls
import ShapeCodec.Proofs.CapturedCalls
import ShapeCodec.Proofs.CapturedValues
import ShapeCodec.Proofs.Changes
import ShapeCodec.Proofs.Conformance
import ShapeCodec.Proofs.Containers
import ShapeCodec.Proofs.DateScanning
import ShapeCodec.Proofs.DateTexts
import ShapeCodec.Proofs.DecimalReads
import ShapeCodec.Proofs.Denotation
import ShapeCodec.Proofs.DepthLimit
import ShapeCodec.Proofs.Entries
import ShapeCodec.Proofs.Enumerations
import ShapeCodec.Proofs.Envelopes
import ShapeCodec.Proofs.FailedWrites
import ShapeCodec.Proofs.Faults
import ShapeCodec.Proofs.Frames
import ShapeCodec.Proofs.Idempotence
import ShapeCodec.Proofs.Integers
import ShapeCodec.Proofs.LateBinding
import ShapeCodec.Proofs.Layout
import ShapeCodec.Proofs.Leaves
import ShapeCodec.Proofs.Medium
import ShapeCodec.Proofs.MemberViews
import ShapeCodec.Proofs.Members
import ShapeCodec.Proofs.NullPolicy
import ShapeCodec.Proofs.NumberValues
import ShapeCodec.Proofs.OrderedMaps
import ShapeCodec.Proofs.ParserDepth
import ShapeCodec.Proofs.Printing
import ShapeCodec.Proofs.Reading
import ShapeCodec.Proofs.ReadingThrough
import ShapeCodec.Proofs.Redaction
import ShapeCodec.Proofs.Registries
import ShapeCodec.Proofs.RegistryCalls
import ShapeCodec.Proofs.RegistryFilling
import ShapeCodec.Proofs.Reordering
import ShapeCodec.Proofs.RequiredMembers
import ShapeCodec.Proofs.Rereading
import ShapeCodec.Proofs.Result
import ShapeCodec.Proofs.RoundTrip
import ShapeCodec.Proofs.Rounding
import ShapeCodec.Proofs.Scanning
import ShapeCodec.Proofs.SentDefaults
import ShapeCodec.Proofs.ShapeIds
import ShapeCodec.Proofs.Showing
import ShapeCodec.Proofs.ShownReads
import ShapeCodec.Proofs.ShownValues
import ShapeCodec.Proofs.ShownWrites
import ShapeCodec.Proofs.SinkMaps
import ShapeCodec.Proofs.Soundness
import ShapeCodec.Proofs.Sources
import ShapeCodec.Proofs.Standins
import ShapeCodec.Proofs.Targets
import ShapeCodec.Proofs.Timestamps
import ShapeCodec.Proofs.Tolerance
import ShapeCodec.Proofs.Traversal
import ShapeCodec.Proofs.Tree
import ShapeCodec.Proofs.TypeLookup
import ShapeCodec.Proofs.TypeMatching
import ShapeCodec.Proofs.UnionArity
import ShapeCodec.Proofs.UnionTags
import ShapeCodec.Proofs.Untagging
import ShapeCodec.Proofs.Untyped
import ShapeCodec.Proofs.UntypedJson
import ShapeCodec.Proofs.ValidMembers
import ShapeCodec.Proofs.ValueDocuments
import ShapeCodec.Proofs.ValueParts
import ShapeCodec.Proofs.ValueReading
import ShapeCodec.Proofs.ValueRoundTrip
import ShapeCodec.Proofs.Values
import ShapeCodec.Proofs.Walks
import ShapeCodec.Proofs.WholeFloats
import ShapeCodec.Proofs.Writing
import ShapeCodec.Proofs.WritingEnds
import ShapeCodec.Proofs.WritingLevels
import ShapeCodec.Proofs.WrittenUnder
import ShapeCodec.Reader.Document
import ShapeCodec.Reader.Source
import ShapeCodec.Reader.Traversal
import ShapeCodec.Scalar
import ShapeCodec.Schema.Basic
import ShapeCodec.Schema.Inspect
import ShapeCodec.Schema.Layout
import ShapeCodec.Schema.Members
import ShapeCodec.Schema.Prelude
import ShapeCodec.Schema.Registry
import ShapeCodec.Schema.Traits
import ShapeCodec.ShapeId
import ShapeCodec.ShapeType
import ShapeCodec.Text.Blank
import ShapeCodec.Text.Printable
import ShapeCodec.Text.Quoted
import ShapeCodec.Time.Calendar
import ShapeCodec.Time.DateTime
import ShapeCodec.Time.Format
import ShapeCodec.Time.HttpDate
import ShapeCodec.Time.Instant
import ShapeCodec.Time.Scan
import ShapeCodec.Tree
import ShapeCodec.Typed.Basic
import ShapeCodec.Typed.Codec
import ShapeCodec.Typed.Derive
import ShapeCodec.Typed.Inspect
import ShapeCodec.Typed.Reader
import ShapeCodec.Typed.Registry
import ShapeCodec.Typed.TypeText
import ShapeCodec.Typed.Writer
import ShapeCodec.Writer.Call
import ShapeCodec.Writer.Document
import ShapeCodec.Writer.Json
import ShapeCodec.Writer.Machine
