import Stochastic.Graph.Order
import Stochastic.Graph.Rewire

/-!
# Meeting requirements

A pass over a graph makes every input meet what its node asks of it.  An input that is
a constant is replaced by the same constant with the required type, any other by a
conversion to it.  The pass visits nodes in topological order and stops at the first
input that cannot be made to fit; what it changed before that stays.

## Main definitions

* `Graph.Report` — what a pass added.
* `Graph.Pass`, `Graph.Solver` — the state of a pass, and steps of it.
* `Graph.standIn`, `Graph.meet` — what takes the place of an input.
* `Graph.solve` — the whole pass.
-/

namespace Stochastic.Graph

/-- What a pass added to a graph. -/
structure Report where
  conversions : Nat := 0
  constants : Nat := 0
  deriving DecidableEq, Repr, Inhabited

/-- Whether nothing was added. -/
def Report.isEmpty (r : Report) : Bool := r.conversions == 0 && r.constants == 0

/-- The state of a pass. -/
structure Pass where
  graph : Graph
  report : Report
  log : List LogLine

/-- A step of a pass, which leaves its changes behind also when it fails. -/
abbrev Solver := EStateM Error Pass

/-- Adds a node, or finds the one to share. -/
def Solver.add (kind : NodeKind) (inputs : List NodeId) : Solver NodeId := fun p =>
  let r := p.graph.add kind inputs
  match r.result with
  | .ok n => .ok n { p with graph := r.state, log := p.log ++ r.log }
  | .error e => .error e p

/-- Replaces an input. -/
def Solver.rewire (consumer : NodeId) (slot : Nat) (replacement : NodeId) : Solver Unit := fun p =>
  match p.graph.rewire consumer slot replacement with
  | .ok g => .ok () { p with graph := g }
  | .error e => .error e p

/-- The constant with a declared type. -/
def materialize (value : Tensor Float) (target : ValueType) : Solver NodeId := do
  let before := (← get).graph.count
  let n ← Solver.add (.constant value (some target)) []
  modify fun p =>
    if before < p.graph.count then
      { p with report := { p.report with constants := p.report.constants + 1 } }
    else p
  return n

/-- The log line for a new conversion. -/
def conversionLine (c : Conversion) (input : NodeId) (slot : Nat) (consumer : NodeId) : LogLine :=
  ⟨.debug, "Inserted " ++ c.label ++ " on node " ++ toString input ++ " for input " ++
    toString slot ++ " of node " ++ toString consumer⟩

/-- The conversion of an input. -/
def convert (c : Conversion) (input : NodeId) (slot : Nat) (consumer : NodeId) : Solver NodeId := do
  let before := (← get).graph.count
  let n ← Solver.add (.conversion c) [input]
  modify fun p =>
    if before < p.graph.count then
      { p with
        report := { p.report with conversions := p.report.conversions + 1 }
        log := p.log ++ [conversionLine c input slot consumer] }
    else p
  return n

/-- A node of type `target` that stands in for an input of a smaller type. -/
def standIn (consumer : NodeId) (slot : Nat) (input : NodeId) (target : ValueType) :
    Solver NodeId := do
  match (← get).graph.kindOf input with
  | .constant value _ => materialize value target
  | _ =>
    match Conversion.reaching? target with
    | none => throw (.type (.noConversion consumer slot target))
    | some c => convert c input slot consumer

/-- The node that meets a requirement in place of an input; none if the input does. -/
def meet (consumer : NodeId) (slot : Nat) (input : NodeId) (required : Requirement) :
    Solver (Option NodeId) := do
  let g := (← get).graph
  let found := g.typeOf input
  if required.satisfied (g.carried input) found then return none
  match required with
  | .upperBound _ => throw (.type (.unsatisfiable consumer slot found required))
  | .exact target =>
    if found.le target then return some (← standIn consumer slot input target)
    else throw (.type (.unsatisfiable consumer slot found required))

/-- Makes one input of a node meet its requirement. -/
def meetSlot (n : NodeId) (edge : (NodeId × Requirement) × Nat) : Solver Unit := do
  let ((input, required), slot) := edge
  match ← meet n slot input required with
  | some replacement => Solver.rewire n slot replacement
  | none => return ()

/-- Makes all inputs of a node meet its requirements.  Inputs and requirements are those
that the node has before any of them is replaced. -/
def solveNode (n : NodeId) : Solver Unit := do
  let g := (← get).graph
  ((g.inputs n).zip (g.requirements n)).zipIdx.forM (meetSlot n)

/-- Makes all inputs of all nodes meet their requirements. -/
def solvePass : Solver Report := do
  match (← get).graph.topologicalOrder with
  | .error e => throw e
  | .ok order =>
    order.forM solveNode
    return (← get).report

/-- Makes all inputs of all nodes of a graph meet their requirements. -/
def solve (g : Graph) : Reply Graph Error Report :=
  match solvePass ⟨g, {}, []⟩ with
  | .ok report p => ⟨p.graph, .ok report, p.log⟩
  | .error e p => ⟨p.graph, .error e, p.log⟩

end Stochastic.Graph
