import Wavefront.Ascending
import Wavefront.CommandLine.Basic
import Wavefront.CommandLine.Execution
import Wavefront.CommandLine.Options
import Wavefront.Config.Basic
import Wavefront.Config.Overlay
import Wavefront.Config.Setting
import Wavefront.Decimal.Power
import Wavefront.Decimal.Scaled
import Wavefront.Decimal.Shortest
import Wavefront.Digest
import Wavefront.Document.Basic
import Wavefront.Document.Reader
import Wavefront.Drafting.Draft
import Wavefront.Drafting.Placement
import Wavefront.Error
import Wavefront.Explain.Dot
import Wavefront.Explain.Format
import Wavefront.Explain.Listing
import Wavefront.Files.Basic
import Wavefront.Files.Path
import Wavefront.Files.Tree
import Wavefront.Graph.Basic
import Wavefront.Graph.Edge
import Wavefront.Graph.LocalOp
import Wavefront.Graph.Node
import Wavefront.Json.Decode
import Wavefront.Json.Printer
import Wavefront.Json.Reader
import Wavefront.Json.Value
import Wavefront.Label
import Wavefront.Location
import Wavefront.Main
import Wavefront.Optimization.Combine
import Wavefront.Optimization.ExternalCommand
import Wavefront.Optimization.PackageInputs
import Wavefront.Optimization.Pipeline
import Wavefront.Optimization.Revision
import Wavefront.Optimization.SchemaFlow
import Wavefront.Optimization.StreamedJoin
import Wavefront.Plan.Basic
import Wavefront.Plan.Fingerprint
import Wavefront.Plan.Operator
import Wavefront.Plan.Validity
import Wavefront.Precedence
import Wavefront.Properties
import Wavefront.Run.Cluster
import Wavefront.Run.Committer
import Wavefront.Run.Job
import Wavefront.Run.Launch
import Wavefront.Run.Materialization
import Wavefront.Run.Outcome
import Wavefront.Run.Progress
import Wavefront.Run.RunId
import Wavefront.Run.Schedule
import Wavefront.Run.Simulation
import Wavefront.Run.Stats
import Wavefront.Schema
import Wavefront.SortedSet
import Wavefront.Step
import Wavefront.Text.Blank
import Wavefront.Text.Lines
import Wavefront.Text.Numeral
import Wavefront.Yaml.Cursor
import Wavefront.Yaml.Meaning
import Wavefront.Yaml.Node
import Wavefront.Yaml.Scalar
import Wavefront.Yaml.Tag
import Wavefront.Yaml.Token
import Wavefront.Yaml.Tree
import Wavefront.Yaml.Value
import Wavefront.Yaml.Walk
import Wavefront.Proofs.Precedence.Greedy
import Wavefront.Proofs.Precedence.Sorting
import Wavefront.Proofs.Precedence.Legal
import Wavefront.Proofs.Columns
import Wavefront.Proofs.Plan.Order
import Wavefront.Proofs.Plan.Validated
import Wavefront.Proofs.Plan.Sorting
import Wavefront.Proofs.Plan.WellFormed
import Wavefront.Proofs.Dataflow.Term
import Wavefront.Proofs.Dataflow.Unfold
import Wavefront.Proofs.Dataflow.Meaning
import Wavefront.Proofs.Graph.Shape
import Wavefront.Proofs.Plan.Cut
import Wavefront.Proofs.Drafting.Invariant
import Wavefront.Proofs.Drafting.Append
import Wavefront.Proofs.Drafting.Inputs
import Wavefront.Proofs.Drafting.Visit
import Wavefront.Proofs.Drafting.Merge
import Wavefront.Proofs.Drafting.Step
import Wavefront.Proofs.Drafting.Run
import Wavefront.Proofs.Graph.Order
import Wavefront.Proofs.Graph.Building
import Wavefront.Proofs.Drafting.Nodes
import Wavefront.Proofs.Drafting.Realization
import Wavefront.Proofs.Optimization.Feeds
import Wavefront.Proofs.Optimization.Packages
import Wavefront.Proofs.Optimization.Outcome
import Wavefront.Proofs.Optimization.Schemas
import Wavefront.Proofs.Optimization.Compilation
import Wavefront.Proofs.Optimization.Erasure
import Wavefront.Proofs.Optimization.Idempotence
import Wavefront.Proofs.Optimization.Annotation
import Wavefront.Proofs.Run.History
import Wavefront.Proofs.Run.Waves
import Wavefront.Proofs.Run.Cleanup
import Wavefront.Proofs.Step
import Wavefront.Proofs.Run.Events
import Wavefront.Proofs.Run.Rounds
import Wavefront.Proofs.Run.Turns
import Wavefront.Proofs.Run.Projection
import Wavefront.Proofs.Run.Trace
import Wavefront.Proofs.Run.Accounting
import Wavefront.Proofs.Run.Sourcing
import Wavefront.Proofs.Run.Stages
import Wavefront.Proofs.Run.Temporaries
import Wavefront.Proofs.Optimization.Wiring
import Wavefront.Proofs.Run.Ledger
import Wavefront.Proofs.Run.LifeCycle
import Wavefront.Proofs.Graph.Level
import Wavefront.Proofs.Lookup
import Wavefront.Proofs.Config.Flattening
import Wavefront.Proofs.Document.Resolving
import Wavefront.Proofs.Run.Materialization
import Wavefront.Proofs.Run.Ticking
import Wavefront.Proofs.Run.Simulated
import Wavefront.Proofs.Run.Levels
import Wavefront.Proofs.Run.Foresight
import Wavefront.Proofs.Run.Requests
import Wavefront.Proofs.Json.Reading
import Wavefront.Proofs.Json.Faithful
import Wavefront.Proofs.Plan.Document
import Wavefront.Proofs.Graph.Document
import Wavefront.Proofs.Drafting.Readers
import Wavefront.Proofs.Drafting.Form
import Wavefront.Proofs.Dataflow.Inference
import Wavefront.Proofs.Optimization.Inference
import Wavefront.Proofs.Plan.Inference
import Wavefront.Proofs.Optimization.Locations
import Wavefront.Proofs.Run.Climb
import Wavefront.Proofs.Run.Progression
import Wavefront.Proofs.Files.Path
import Wavefront.Proofs.Files.Tree
import Wavefront.Proofs.Files.System
import Wavefront.Proofs.Files.Output
import Wavefront.Proofs.Files.Effect
import Wavefront.Proofs.Files.Commit
import Wavefront.Proofs.Run.Stock
import Wavefront.Proofs.Run.Staging
import Wavefront.Proofs.Files.Places
import Wavefront.Proofs.Run.Layout
import Wavefront.Proofs.Run.Rerun
import Wavefront.Proofs.Files.Scope
import Wavefront.Proofs.Explain.Drawing
import Wavefront.Proofs.Explain.Outline
import Wavefront.Proofs.Explain.Agreement
import Wavefront.Proofs.Run.Naming
import Wavefront.Proofs.Run.Snapshot
import Wavefront.Proofs.Run.Tracking
import Wavefront.Proofs.Run.Logging
import Wavefront.Proofs.Optimization.Streaming
