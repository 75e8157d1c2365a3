import DocStream.Batch.Basic
import DocStream.Batch.Column
import DocStream.Batch.ColumnType
import DocStream.Command.Arguments
import DocStream.Command.Run
import DocStream.Config.Basic
import DocStream.Config.Reader
import DocStream.Convert.Basic
import DocStream.Convert.Flat
import DocStream.Convert.Settings
import DocStream.Document
import DocStream.Envelope.Basic
import DocStream.Envelope.Payload
import DocStream.Envelope.WireSchema
import DocStream.Error
import DocStream.Json.Basic
import DocStream.Json.Parser
import DocStream.Json.Printer
import DocStream.Json.Token
import DocStream.Main
import DocStream.Merge
import DocStream.Narrow
import DocStream.Number.Binary
import DocStream.Number.Decimal
import DocStream.Number.Digits
import DocStream.Number.Numeral
import DocStream.Number.Shortest
import DocStream.Number.Widening
import DocStream.Plain
import DocStream.Proofs.Batch.Acceptance
import DocStream.Proofs.Batch.Amounts
import DocStream.Proofs.Batch.Reading
import DocStream.Proofs.Batch.Rendering
import DocStream.Proofs.Batch.Storing
import DocStream.Proofs.Convert.Depth
import DocStream.Proofs.Convert.Failures
import DocStream.Proofs.Convert.Flattening
import DocStream.Proofs.Convert.Leaves
import DocStream.Proofs.Convert.Nesting
import DocStream.Proofs.Convert.Numbers
import DocStream.Proofs.Convert.Padding
import DocStream.Proofs.Convert.Paths
import DocStream.Proofs.Convert.Reconciling
import DocStream.Proofs.Convert.Reordering
import DocStream.Proofs.Convert.Typing
import DocStream.Proofs.Document
import DocStream.Proofs.Envelope.Acceptance
import DocStream.Proofs.Envelope.Bare
import DocStream.Proofs.Envelope.Building
import DocStream.Proofs.Envelope.Conforming
import DocStream.Proofs.Envelope.FieldOrder
import DocStream.Proofs.Envelope.Floats
import DocStream.Proofs.Envelope.Numbers
import DocStream.Proofs.Envelope.Payload
import DocStream.Proofs.Envelope.Recognition
import DocStream.Proofs.Envelope.Rereading
import DocStream.Proofs.Envelope.RoundTrip
import DocStream.Proofs.Envelope.Schemaless
import DocStream.Proofs.Envelope.Settled
import DocStream.Proofs.Envelope.Text
import DocStream.Proofs.Envelope.Wire
import DocStream.Proofs.Envelope.WireTree
import DocStream.Proofs.Induction
import DocStream.Proofs.Json.Nesting
import DocStream.Proofs.Json.Reading
import DocStream.Proofs.Json.Scanning
import DocStream.Proofs.Names
import DocStream.Proofs.Number.Closest
import DocStream.Proofs.Number.Digits
import DocStream.Proofs.Number.DoubleRounding
import DocStream.Proofs.Number.FloatSpelling
import DocStream.Proofs.Number.NearMisses
import DocStream.Proofs.Number.Nearest
import DocStream.Proofs.Number.Ranks
import DocStream.Proofs.Number.Rational
import DocStream.Proofs.Number.RoundedTwice
import DocStream.Proofs.Number.Rounding
import DocStream.Proofs.Number.Shortest
import DocStream.Proofs.Number.SinglePrecision
import DocStream.Proofs.Number.Spelling
import DocStream.Proofs.Number.Texts
import DocStream.Proofs.Number.Widening
import DocStream.Proofs.Outcome
import DocStream.Proofs.Schema.LeastMerge
import DocStream.Proofs.Schema.Merging
import DocStream.Proofs.Schema.Shape
import DocStream.Proofs.Store.Contents
import DocStream.Proofs.Store.Creating
import DocStream.Proofs.Store.Following
import DocStream.Proofs.Store.Revisions
import DocStream.Proofs.Store.Writing
import DocStream.Proofs.Task.Accounting
import DocStream.Proofs.Task.Delivery
import DocStream.Proofs.Task.Mirroring
import DocStream.Proofs.Task.Progress
import DocStream.Proofs.Task.Reading
import DocStream.Proofs.Task.Relaying
import DocStream.Proofs.Task.Sinking
import DocStream.Proofs.Text.Base64
import DocStream.Proofs.Text.Numbers
import DocStream.Proofs.Value.Access
import DocStream.Proofs.Value.Conformance
import DocStream.Proofs.Value.Describing
import DocStream.Proofs.Value.Narrowest
import DocStream.Proofs.Value.Narrowing
import DocStream.Proofs.Value.Range
import DocStream.Proofs.Value.Rebuilding
import DocStream.Proofs.Value.Records
import DocStream.Proofs.Value.Remerging
import DocStream.Schema
import DocStream.Store.Feed
import DocStream.Store.Memory
import DocStream.Task.Replay
import DocStream.Task.Sink
import DocStream.Task.Source
import DocStream.Text.Base64
import DocStream.Text.Blank
import DocStream.Text.Hex
import DocStream.Text.NameOrder
import DocStream.Value
import DocStream.Yaml.Cursor
import DocStream.Yaml.Node
import DocStream.Yaml.Scalar
import DocStream.Yaml.Tag
import DocStream.Yaml.Token
import DocStream.Proofs.Metadata
import DocStream.Proofs.Convert.Limit
import DocStream.Proofs.Value.Widening
import DocStream.Proofs.Value.Narrowed
import DocStream.Proofs.Value.Spellings
