import Chtholly.Ownership.Condition
import Chtholly.Ownership.Summary
import Chtholly.SemIR.Syntax
import Chtholly.SemIR.Scope
import Chtholly.SemIR.Module
import Chtholly.SemIR.Run
import Chtholly.SemIR.Exits
import Chtholly.SemIR.Triple
import Chtholly.Lowering.LoopDivergence
import Chtholly.Flow.FunctionGraph
import Chtholly.Flow.LoanCfg
import Chtholly.Flow.Edges
import Chtholly.Flow.Agreement
import Chtholly.Flow.FallThrough
import Chtholly.PlaceState.Place
import Chtholly.PlaceState.State
import Chtholly.PlaceState.Shape
import Chtholly.PlaceState.Transfer
import Chtholly.PlaceState.Analyzer
import Chtholly.PlaceState.Inversion
import Chtholly.PlaceState.Touches
import Chtholly.PlaceState.Frame
import Chtholly.PlaceState.Soundness
import Chtholly.PlaceState.Leaves
import Chtholly.Probing.Triangular
import Chtholly.Container.Table
import Chtholly.Container.Slots
import Chtholly.Container.Invariant
import Chtholly.Container.Operations
import Chtholly.Container.Refinement
import Chtholly.Container.HashTable
import Chtholly.Container.TwoTables
import Chtholly.Interleaving.Runs
import Chtholly.Lease.Tokens
import Chtholly.Lease.Transport
import Chtholly.Lease.Invariant
import Chtholly.Lease.Conservation
import Chtholly.Task.Scheduler
import Chtholly.Task.Moves
import Chtholly.Task.Scheduling
import Chtholly.Task.Cancellation
import Chtholly.Loop.Bounded
import Chtholly.Merkle.Extension
import Chtholly.Registry.Digest
import Chtholly.Registry.Transparency
import Chtholly.Registry.Consistency
import Chtholly.Registry.Fields
import Chtholly.Registry.Statement
import Chtholly.Registry.Witness
import Chtholly.Registry.NoFork
import Chtholly.Registry.Signatures
import Chtholly.Registry.ClientView
import Chtholly.Registry.SplitView
import Chtholly.Registry.ManifestToml
import Chtholly.Registry.TrustMetadata
import Chtholly.Registry.TrustState
import Chtholly.Registry.TrustVerification
import Chtholly.Registry.NoRollback
import Chtholly.Registry.Inclusion
import Chtholly.Incremental.Artifacts
import Chtholly.Incremental.ForeignSymbols
import Chtholly.Incremental.Reuse
import Chtholly.Tracing.Traversal
import Chtholly.Store.Files
import Chtholly.Store.Publish
import Chtholly.Store.Collect
import Chtholly.Registry.TrustVerification
import Chtholly.Registry.NoRollback
import Chtholly.Registry.Inclusion
import Chtholly.Store.Collect
import Chtholly.Store.World
import Chtholly.Store.Closed
import Chtholly.Merkle.Inclusion
import Chtholly.Registry.Inclusion
import Chtholly.Scalar.ConstantEvaluation
import Chtholly.Scalar.Lowering
import Chtholly.Scalar.Agreement
import Chtholly.Scalar.CheckedCast
import Chtholly.Layout.Natural
import Chtholly.Layout.TypeLayout
import Chtholly.Layout.ObjectLowering
import Chtholly.Layout.Agreement
import Chtholly.Heap.Binary
import Chtholly.Deadlines.Heap
import Chtholly.Deadlines.Operations
import Chtholly.Deadlines.System
import Chtholly.Deadlines.Invariant
import Chtholly.Deadlines.Sweep
import Chtholly.Deadlines.Selection
import Chtholly.Deadlines.Terminal
import Chtholly.Container.Borrow
import Chtholly.Countdown.Missing
import Chtholly.PackageQuery.Graph
import Chtholly.PackageQuery.Verify
import Chtholly.PackageQuery.Schedule
import Chtholly.PackageQuery.Runs
import Chtholly.Outcome.Descriptor
import Chtholly.Outcome.Linearity
import Chtholly.SemVer.Version
import Chtholly.SemVer.Precedence
import Chtholly.SemVer.Reading
import Chtholly.SemVer.Selection
import Chtholly.SemVer.Requirements
import Chtholly.NominalLayout.Consistency
import Chtholly.Codec.Words
import Chtholly.ForeignProtocol.Codec
import Chtholly.ForeignProtocol.RoundTrip
import Chtholly.ForeignProtocol.Inverse
import Chtholly.Incremental.Plan
import Chtholly.Incremental.Inspection
import Chtholly.Incremental.PlanVerifies
import Chtholly.Scanning.Cursor
import Chtholly.Lexer.Utf8
import Chtholly.Lexer.Token
import Chtholly.Lexer.Tokenize
import Chtholly.Lexer.Spans
import Chtholly.Lexer.IntegerLiteral
import Chtholly.ErrorContract.Normalize
import Chtholly.ErrorContract.Exact
import Chtholly.Archive.Paths
import Chtholly.Archive.Index
import Chtholly.Archive.Extraction
import Chtholly.Registry.ManifestArray
import Chtholly.Registry.ManifestTable
import Chtholly.Registry.ManifestDocument
import Chtholly.Registry.MetadataReadable
import Chtholly.Registry.MetadataLines
import Chtholly.Registry.MetadataRoundTrip
import Chtholly.Registry.SignedMetadata
import Chtholly.Codec.Reader
import Chtholly.ComponentAbi2.Descriptor
import Chtholly.ComponentAbi2.Encoding
import Chtholly.ComponentAbi2.Artifact
import Chtholly.ComponentAbi2.Registry
import Chtholly.CFDL.Flow
import Chtholly.CFDL.FlowNames
import Chtholly.Ownership.Contradiction
import Chtholly.TypeConcurrency.Summary
import Chtholly.TypeConcurrency.History
import Chtholly.CarrierView.Pattern
import Chtholly.NormalForm.Merge
import Chtholly.NormalForm.Minimal
import Chtholly.Ownership.CanonicalCondition
import Chtholly.PublicInterface.Summary
import Chtholly.PublicInterface.Canonicalize
import Chtholly.PublicInterface.Substitution
import Chtholly.PublicInterface.Recorded
import Chtholly.PublicInterface.Join
import Chtholly.Conversion.Types
import Chtholly.Conversion.Authority
import Chtholly.Conversion.Overload
import Chtholly.Conversion.Performed
import Chtholly.Graph.Tarjan
import Chtholly.PublicInterface.CallGraph
import Chtholly.Worklist.Dense
import Chtholly.Worklist.Stable
import Chtholly.PublicInterface.FixedPoint
import Chtholly.Graph.Backward
import Chtholly.Loans.Coverage
import Chtholly.PlaceState.Suspension
import Chtholly.PlaceState.Stacks
import Chtholly.PlaceState.OuterStack
import Chtholly.Loans.Region
import Chtholly.Loans.Storage
