import Dataflow.Buffer
import Dataflow.Channel.Exchange
import Dataflow.Channel.Fan
import Dataflow.Channel.Header
import Dataflow.Channel.Queue
import Dataflow.Channel.Receiver
import Dataflow.Composition.Basic
import Dataflow.Composition.Compose
import Dataflow.Composition.Key
import Dataflow.Decimal.Binary64
import Dataflow.Decimal.Shortest
import Dataflow.Delay
import Dataflow.Digest.Sip
import Dataflow.Environment
import Dataflow.Fault
import Dataflow.Findings
import Dataflow.FourCC
import Dataflow.Host
import Dataflow.Ident
import Dataflow.Json.Content
import Dataflow.Json.Number
import Dataflow.Json.Reader
import Dataflow.Json.Shape
import Dataflow.Json.Skip
import Dataflow.Json.Stream
import Dataflow.Json.Text
import Dataflow.Json.Writer
import Dataflow.Mesh.Basic
import Dataflow.Mesh.Config
import Dataflow.Octets
import Dataflow.Ordered
import Dataflow.Param
import Dataflow.Pool
import Dataflow.Program.Basic
import Dataflow.Program.Error
import Dataflow.Program.Printer
import Dataflow.Program.Reader
import Dataflow.Progress
import Dataflow.Proofs.Activation
import Dataflow.Proofs.Attachment
import Dataflow.Proofs.Bindings
import Dataflow.Proofs.Buffers
import Dataflow.Proofs.Calls
import Dataflow.Proofs.Cleanup
import Dataflow.Proofs.Code
import Dataflow.Proofs.Composed
import Dataflow.Proofs.Composition
import Dataflow.Proofs.Content
import Dataflow.Proofs.Copying
import Dataflow.Proofs.Cycles
import Dataflow.Proofs.Declarations
import Dataflow.Proofs.Derivation
import Dataflow.Proofs.Discipline
import Dataflow.Proofs.Drafts
import Dataflow.Proofs.Drivers
import Dataflow.Proofs.Equivariance
import Dataflow.Proofs.Evaluation
import Dataflow.Proofs.Fans
import Dataflow.Proofs.Finality
import Dataflow.Proofs.Fingerprints
import Dataflow.Proofs.Handles
import Dataflow.Proofs.Inclusion
import Dataflow.Proofs.Judgments
import Dataflow.Proofs.Keys
import Dataflow.Proofs.Leases
import Dataflow.Proofs.Matching
import Dataflow.Proofs.Mirror
import Dataflow.Proofs.Names
import Dataflow.Proofs.Needs
import Dataflow.Proofs.Nesting
import Dataflow.Proofs.Operations
import Dataflow.Proofs.Order
import Dataflow.Proofs.Outputs
import Dataflow.Proofs.Poise
import Dataflow.Proofs.Programs
import Dataflow.Proofs.Queues
import Dataflow.Proofs.Readiness
import Dataflow.Proofs.Receivers
import Dataflow.Proofs.Records
import Dataflow.Proofs.Reference
import Dataflow.Proofs.Reflection
import Dataflow.Proofs.Renaming
import Dataflow.Proofs.Reordering
import Dataflow.Proofs.Requests
import Dataflow.Proofs.Resolution
import Dataflow.Proofs.Restoration
import Dataflow.Proofs.Retention
import Dataflow.Proofs.Safety
import Dataflow.Proofs.Scopes
import Dataflow.Proofs.Sealing
import Dataflow.Proofs.Signatures
import Dataflow.Proofs.Sketch
import Dataflow.Proofs.Slots
import Dataflow.Proofs.Stops
import Dataflow.Proofs.Streams
import Dataflow.Proofs.Sufficiency
import Dataflow.Proofs.Trail
import Dataflow.Proofs.Transparency
import Dataflow.Proofs.TypeSafety
import Dataflow.Proofs.TypedStages
import Dataflow.Proofs.Typing
import Dataflow.Proofs.Uses
import Dataflow.Proofs.Vetting
import Dataflow.Proofs.Visibility
import Dataflow.Proofs.Warmup
import Dataflow.Registry
import Dataflow.Report.Fault
import Dataflow.Report.Run
import Dataflow.Report.Value
import Dataflow.Run.Lifecycle
import Dataflow.Run.Once
import Dataflow.Run.Resume
import Dataflow.ScopedBinding
import Dataflow.Script.Report
import Dataflow.Script.Unit
import Dataflow.Session.Basic
import Dataflow.Session.Channels
import Dataflow.Session.Meshes
import Dataflow.Session.Wires
import Dataflow.Stage.Basic
import Dataflow.Stage.Params
import Dataflow.Store
import Dataflow.Text.Lossy
import Dataflow.Text.Printable
import Dataflow.Text.Quoted
import Dataflow.Ty.Basic
import Dataflow.Ty.Fingerprint
import Dataflow.Ty.Matching
import Dataflow.Value.Basic
import Dataflow.Value.Fingerprint
import Dataflow.Value.Typing
import Dataflow.VarDecl
import Dataflow.Variables
import Dataflow.Wire
