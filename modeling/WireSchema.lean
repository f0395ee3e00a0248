import WireSchema.Text.Blank
import WireSchema.Text.LowerCase
import WireSchema.Text.Quoted
import WireSchema.Bytes
import WireSchema.Utf8
import WireSchema.Crc32c
import WireSchema.Base64
import WireSchema.Binary64.Text
import WireSchema.Schema.Catalogue
import WireSchema.Schema.Digest
import WireSchema.Schema.Listing
import WireSchema.Wire.Stream
import WireSchema.Command.Convert
import WireSchema.Command.Line
import WireSchema.Recording.Binary
import WireSchema.Recording.Text
import WireSchema.Yaml.Token.Scalar
import WireSchema.Yaml.Token.Scan
import WireSchema.Yaml.Node
import WireSchema.Schema.Document
import WireSchema.Main
import WireSchema.Proofs.Results
import WireSchema.Proofs.Folds
import WireSchema.Proofs.Utf8
import WireSchema.Proofs.Schema.LengthAlgebra
import WireSchema.Proofs.Schema.Field
import WireSchema.Proofs.Schema.Sequence
import WireSchema.Proofs.Schema.Layout
import WireSchema.Proofs.Schema.Invariant
import WireSchema.Proofs.Schema.Totals
import WireSchema.Proofs.Schema.Catalogue
import WireSchema.Proofs.Schema.Building
import WireSchema.Proofs.Schema.Order
import WireSchema.Proofs.Wire.Scalar
import WireSchema.Proofs.Wire.Records
import WireSchema.Proofs.Wire.Field
import WireSchema.Proofs.Wire.Frame
import WireSchema.Proofs.Wire.RoundTrip
import WireSchema.Proofs.Wire.Acceptance
import WireSchema.Proofs.Wire.Canonical
import WireSchema.Proofs.Wire.Contiguous
import WireSchema.Proofs.Wire.Bounds
import WireSchema.Proofs.Wire.Conformance
import WireSchema.Proofs.Wire.Usable
import WireSchema.Proofs.Wire.RecordLimit
import WireSchema.Proofs.Wire.Stream
import WireSchema.Proofs.Wire.Safety
import WireSchema.Proofs.Base64
import WireSchema.Proofs.Binary64.Decimal
import WireSchema.Proofs.Text.Numeral
import WireSchema.Proofs.Text.Split
import WireSchema.Proofs.Binary64.Text
import WireSchema.Proofs.Binary64.NearestEven
import WireSchema.Proofs.Binary64.Scaling
import WireSchema.Proofs.Command.Escape
import WireSchema.Proofs.Command.Line
import WireSchema.Proofs.Command.Reading
import WireSchema.Proofs.Command.Block
import WireSchema.Proofs.Command.Addressable
import WireSchema.Proofs.Command.Flags
import WireSchema.Proofs.Command.FlagNames
import WireSchema.Proofs.Command.Number
import WireSchema.Proofs.Command.Typing
import WireSchema.Proofs.Command.Value
import WireSchema.Proofs.Command.RoundTrip
import WireSchema.Proofs.Command.Agreement
import WireSchema.Proofs.Command.WellTyped
import WireSchema.Proofs.Command.Overflow
import WireSchema.Proofs.Command.Spelling
import WireSchema.Proofs.Command.Options
import WireSchema.Proofs.Command.Alias
import WireSchema.Proofs.Json.StringMap
import WireSchema.Proofs.Json.Injective
import WireSchema.Proofs.Schema.Digest
import WireSchema.Proofs.Recording.Items
import WireSchema.Proofs.Recording.Metadata
import WireSchema.Proofs.Recording.Binary
import WireSchema.Proofs.Recording.Text
import WireSchema.Proofs.Recording.Progress
import WireSchema.Proofs.Recording.Convert
import WireSchema.Proofs.Recording.Skipping
import WireSchema.Proofs.Recording.Lines
import WireSchema.Proofs.Recording.Insertion
import WireSchema.Proofs.Recording.Header
import WireSchema.Proofs.Recording.Calls
import WireSchema.Proofs.Yaml.Reordering
import WireSchema.Proofs.Schema.Document
