import ObjectStream.Buffer
import ObjectStream.Builtin
import ObjectStream.Bytes
import ObjectStream.Decoder
import ObjectStream.Decoder.Basic
import ObjectStream.Decoder.Object
import ObjectStream.Encoder
import ObjectStream.Encoder.Atom
import ObjectStream.Encoder.Basic
import ObjectStream.Encoder.Object
import ObjectStream.Environment
import ObjectStream.Equality
import ObjectStream.Error
import ObjectStream.Frame.Reader
import ObjectStream.Frame.Writer
import ObjectStream.Hashing
import ObjectStream.Host
import ObjectStream.Host.Procedure
import ObjectStream.Host.Record
import ObjectStream.Host.Vocabulary
import ObjectStream.Instruction
import ObjectStream.Keyed
import ObjectStream.LegacyName
import ObjectStream.Listing
import ObjectStream.Namespace
import ObjectStream.Number.Decimal
import ObjectStream.Number.Digits
import ObjectStream.Number.Double
import ObjectStream.Number.FloatText
import ObjectStream.Number.Literal
import ObjectStream.Number.TwosComplement
import ObjectStream.Opcode
import ObjectStream.Profile
import ObjectStream.Proofs.Accounting
import ObjectStream.Proofs.Action
import ObjectStream.Proofs.Answers
import ObjectStream.Proofs.Atoms
import ObjectStream.Proofs.Batches
import ObjectStream.Proofs.Bindings
import ObjectStream.Proofs.Blind
import ObjectStream.Proofs.Bounds
import ObjectStream.Proofs.Builtins
import ObjectStream.Proofs.ByteLiterals
import ObjectStream.Proofs.Calling
import ObjectStream.Proofs.Canonical
import ObjectStream.Proofs.Carry
import ObjectStream.Proofs.Chunks
import ObjectStream.Proofs.Comparison
import ObjectStream.Proofs.Containers
import ObjectStream.Proofs.Conveying
import ObjectStream.Proofs.Copies
import ObjectStream.Proofs.Course
import ObjectStream.Proofs.Coverage
import ObjectStream.Proofs.Creation
import ObjectStream.Proofs.Delivery
import ObjectStream.Proofs.Discipline
import ObjectStream.Proofs.DottedPaths
import ObjectStream.Proofs.Drafts
import ObjectStream.Proofs.Dumping
import ObjectStream.Proofs.Elementary
import ObjectStream.Proofs.Enactment
import ObjectStream.Proofs.Equivalence
import ObjectStream.Proofs.Execution
import ObjectStream.Proofs.Extensions
import ObjectStream.Proofs.Files
import ObjectStream.Proofs.Filling
import ObjectStream.Proofs.FloatLines
import ObjectStream.Proofs.Frames
import ObjectStream.Proofs.GlobalLines
import ObjectStream.Proofs.Graph
import ObjectStream.Proofs.Guards
import ObjectStream.Proofs.Heights
import ObjectStream.Proofs.Instances
import ObjectStream.Proofs.Instructions
import ObjectStream.Proofs.Intake
import ObjectStream.Proofs.Integers
import ObjectStream.Proofs.Keys
import ObjectStream.Proofs.Knots
import ObjectStream.Proofs.Ledger
import ObjectStream.Proofs.Link
import ObjectStream.Proofs.Listings
import ObjectStream.Proofs.Machine
import ObjectStream.Proofs.Mirrors
import ObjectStream.Proofs.Naming
import ObjectStream.Proofs.NestedNames
import ObjectStream.Proofs.Nesting
import ObjectStream.Proofs.NewObjects
import ObjectStream.Proofs.Numbering
import ObjectStream.Proofs.Numerals
import ObjectStream.Proofs.OldNames
import ObjectStream.Proofs.OneFrame
import ObjectStream.Proofs.Parallel
import ObjectStream.Proofs.PersistentIds
import ObjectStream.Proofs.Placeholders
import ObjectStream.Proofs.Prefixes
import ObjectStream.Proofs.Reading
import ObjectStream.Proofs.Reconstructors
import ObjectStream.Proofs.Recovery
import ObjectStream.Proofs.Recreation
import ObjectStream.Proofs.Reencoding
import ObjectStream.Proofs.References
import ObjectStream.Proofs.Registries
import ObjectStream.Proofs.RemoteNames
import ObjectStream.Proofs.RoundTrip
import ObjectStream.Proofs.Rounding
import ObjectStream.Proofs.Running
import ObjectStream.Proofs.Saving
import ObjectStream.Proofs.Scans
import ObjectStream.Proofs.Scopes
import ObjectStream.Proofs.Sequence
import ObjectStream.Proofs.Sessions
import ObjectStream.Proofs.Settling
import ObjectStream.Proofs.Shortest
import ObjectStream.Proofs.Signed
import ObjectStream.Proofs.Solid
import ObjectStream.Proofs.Sparse
import ObjectStream.Proofs.Spelling
import ObjectStream.Proofs.StackRoom
import ObjectStream.Proofs.Steps
import ObjectStream.Proofs.TextLines
import ObjectStream.Proofs.Tidy
import ObjectStream.Proofs.Tracing
import ObjectStream.Proofs.Trip
import ObjectStream.Proofs.Untouched
import ObjectStream.Proofs.Walk
import ObjectStream.Proofs.Window
import ObjectStream.Proofs.Writing
import ObjectStream.Protocol
import ObjectStream.Reduction
import ObjectStream.Registry
import ObjectStream.Shown
import ObjectStream.Source
import ObjectStream.Store
import ObjectStream.Text.Blank
import ObjectStream.Text.ByteLiteral
import ObjectStream.Text.Capital
import ObjectStream.Text.Encoding
import ObjectStream.Text.Hex
import ObjectStream.Text.Printable
import ObjectStream.Text.Quoted
import ObjectStream.Text.RawUnicode
import ObjectStream.Text.Utf8
import ObjectStream.Trace
import ObjectStream.Value
