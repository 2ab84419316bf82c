import Stochastic.Config
import Stochastic.Decimal.Binary
import Stochastic.Decimal.Numeral
import Stochastic.Decimal.Rounding
import Stochastic.Decimal.Shortest
import Stochastic.Distribution.Basic
import Stochastic.Distribution.Build
import Stochastic.Distribution.Density
import Stochastic.Distribution.Draw
import Stochastic.Distribution.Form
import Stochastic.Distribution.Gamma
import Stochastic.Graph.Basic
import Stochastic.Graph.Builder
import Stochastic.Graph.Error
import Stochastic.Graph.Insert
import Stochastic.Graph.Order
import Stochastic.Graph.Reach
import Stochastic.Graph.Rewire
import Stochastic.Graph.Solve
import Stochastic.Graph.Store
import Stochastic.Json.Basic
import Stochastic.Json.Form
import Stochastic.Json.Parser
import Stochastic.Log
import Stochastic.Model.Expr
import Stochastic.Node.Form
import Stochastic.Node.Key
import Stochastic.Node.Kind
import Stochastic.Node.Typing
import Stochastic.OrderedSet
import Stochastic.Table
import Stochastic.Tensor.Basic
import Stochastic.Tensor.Broadcast
import Stochastic.Tensor.Form
import Stochastic.Tensor.Key
import Stochastic.Tensor.Printer
import Stochastic.Tensor.TensorSet
import Stochastic.Text.Printable
import Stochastic.Text.Quoted
import Stochastic.Total
import Stochastic.Transform
import Stochastic.ValueType.Basic
import Stochastic.ValueType.Classify
import Stochastic.ValueType.Form
import Stochastic.ValueType.Requirement
import Stochastic.World.Basic
import Stochastic.World.Cascade
import Stochastic.World.Error
import Stochastic.World.Ident
import Stochastic.World.Overlay
import Stochastic.World.Program
import Stochastic.World.Propose
import Stochastic.World.Run
import Stochastic.World.Score
import Stochastic.World.Variable
import Stochastic.World.Visit
import Stochastic.Proofs.Optional
import Stochastic.Proofs.Graph.Soundness
import Stochastic.Proofs.World.Accounting
import Stochastic.Proofs.World.Coherence
import Stochastic.Proofs.Graph.Adjustment
import Stochastic.Proofs.Graph.Meaning
import Stochastic.Proofs.Graph.Decision
import Stochastic.Proofs.World.Isolation
import Stochastic.Proofs.World.Ancestry
import Stochastic.Proofs.World.Acyclicity
import Stochastic.Proofs.Graph.Integrity
import Stochastic.Proofs.Graph.Repetition
import Stochastic.Proofs.Graph.Stages
import Stochastic.Proofs.Negation
import Stochastic.Proofs.World.Quiet
import Stochastic.Proofs.World.Reversal
import Stochastic.Proofs.World.Acceptance
import Stochastic.Proofs.World.Locality
import Stochastic.Proofs.World.Orphans
import Stochastic.Proofs.World.Construction
import Stochastic.Proofs.Json.Numeral
import Stochastic.Proofs.Json.Scan
import Stochastic.Proofs.Json.RoundTrip
import Stochastic.Proofs.Graph.Stored
import Stochastic.Proofs.Graph.Restore
import Stochastic.Proofs.Graph.Sharing
import Stochastic.Proofs.Graph.Checked
import Stochastic.Proofs.Graph.Reload
import Stochastic.Proofs.Graph.Index
import Stochastic.Proofs.Graph.Trees
import Stochastic.Proofs.Graph.Twins
import Stochastic.Proofs.Graph.Insertions
import Stochastic.Proofs.Graph.PassThrough
import Stochastic.Proofs.World.Growth
import Stochastic.Proofs.World.Protection
import Stochastic.Proofs.World.Provenance
import Stochastic.Proofs.World.Mooring
import Stochastic.Proofs.World.Failure
import Stochastic.Proofs.Tensor.Shape
import Stochastic.Proofs.Graph.Recomputation
import Stochastic.Proofs.Tensor.Elementwise
import Stochastic.Proofs.Tensor.Grouping
import Stochastic.Proofs.Graph.Reachability
import Stochastic.Proofs.Tensor.Bounds
import Stochastic.Proofs.Tensor.Sources
import Stochastic.Proofs.World.Blanket
import Stochastic.Proofs.World.Machine
import Stochastic.Proofs.World.Loopless
import Stochastic.Proofs.World.Chains
import Stochastic.Proofs.World.Discipline
import Stochastic.Proofs.Node.Promotion
import Stochastic.Proofs.Tensor.History
import Stochastic.Proofs.World.Cascade
import Stochastic.Proofs.Tensor.Nested
import Stochastic.Proofs.Tensor.Printing
