-- SUMMARY: Schemas, logical types, encoders and stored snapshots that can be restored.
import Restorable.Avro.Datum
import Restorable.Avro.Default
import Restorable.Avro.Reader
import Restorable.Avro.Shape
import Restorable.Binary64.Basic
import Restorable.Binary64.Extended
import Restorable.Binary64.Shortest
import Restorable.CommandLine.Arguments
import Restorable.CommandLine.Report
import Restorable.Digest.Sha256
import Restorable.Encoder.Basic
import Restorable.Encoder.Compatibility
import Restorable.Encoder.Kind
import Restorable.Encoder.Table
import Restorable.Failure
import Restorable.Json.Basic
import Restorable.Json.KeyOrder
import Restorable.Json.Reader
import Restorable.Json.Sorted
import Restorable.Json.Writer
import Restorable.Logical.Basic
import Restorable.Logical.Json
import Restorable.Logical.OfSchema
import Restorable.Logical.Text
import Restorable.Main
import Restorable.Restore.Resolve
import Restorable.Restore.Verdict
import Restorable.Runtime.Descriptor
import Restorable.Runtime.Leaf
import Restorable.Schema.Basic
import Restorable.Schema.Fault
import Restorable.Schema.Name
import Restorable.Schema.NamePool
import Restorable.Schema.Nullability
import Restorable.Schema.OfLogical
import Restorable.Schema.Reader
import Restorable.Schema.Record
import Restorable.Schema.Writer
import Restorable.Settings.Basic
import Restorable.Settings.Conversion
import Restorable.Settings.Environment
import Restorable.Settings.Load
import Restorable.Settings.Value
import Restorable.Snapshot.Config
import Restorable.Snapshot.Envelope
import Restorable.Snapshot.Persisted
import Restorable.Text
import Restorable.Time.Civil
import Restorable.Time.Instant
import Restorable.Toml.Document
import Restorable.Toml.Number
import Restorable.Toml.Quoted
import Restorable.Toml.Value
import Restorable.Workspace
import Restorable.Proofs.Schema.Drawn
import Restorable.Proofs.Schema.Refusals
import Restorable.Proofs.Logical.Exported
import Restorable.Proofs.Logical.Ingested
import Restorable.Proofs.Schema.NamePool
import Restorable.Proofs.Schema.Names
import Restorable.Proofs.Schema.Legal
import Restorable.Proofs.Schema.Attributes
import Restorable.Proofs.Schema.ReadBack
import Restorable.Proofs.Schema.Published
import Restorable.Proofs.Schema.DrawnNames
import Restorable.Proofs.Restore.Traversal
import Restorable.Proofs.Snapshot.Config
import Restorable.Proofs.Encoder.Evolution
import Restorable.Proofs.Restore.Evolution
import Restorable.Proofs.Encoder.Recorded
import Restorable.Proofs.Restore.Passing
import Restorable.Proofs.Restore.Composition
import Restorable.Proofs.Json.Normal
import Restorable.Proofs.Restore.Identity
import Restorable.Proofs.Schema.Normal
import Restorable.Proofs.Schema.Checked
import Restorable.Proofs.Logical.Convertible
import Restorable.Proofs.Schema.Growth
import Restorable.Proofs.Schema.Rereading
import Restorable.Proofs.Encoder.Lengths
import Restorable.Proofs.Json.Digits
import Restorable.Proofs.Json.Literals
import Restorable.Proofs.Json.Rendering
import Restorable.Proofs.Restore.Stored
import Restorable.Proofs.Schema.References
import Restorable.Proofs.Encoder.Distinct
import Restorable.Proofs.Json.Depth
import Restorable.Proofs.Time.Reading
import Restorable.Proofs.Snapshot.Rewriting
import Restorable.Proofs.Logical.Decoded
import Restorable.Proofs.Restore.RowNames
import Restorable.Proofs.Schema.Decimals
import Restorable.Proofs.Schema.Forms
import Restorable.Proofs.Schema.Mentions
import Restorable.Proofs.Schema.Redefinitions
import Restorable.Proofs.Logical.Wrapped
import Restorable.Proofs.Schema.Unions
import Restorable.Proofs.Binary64.Shortest
import Restorable.Proofs.Json.NumberTexts
import Restorable.Proofs.Json.Unambiguous
import Restorable.Proofs.Snapshot.Verified
import Restorable.Proofs.Schema.Nullability
import Restorable.Proofs.Logical.Unambiguous
import Restorable.Proofs.Schema.Suffixes
