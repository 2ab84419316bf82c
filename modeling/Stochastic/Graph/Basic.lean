import Stochastic.Graph.Error
import Stochastic.Log
import Stochastic.Table

/-!
# Model graphs

A graph holds its nodes in columns, in order of creation.  The inputs of all nodes
stand in one column, in which every node has a span.  Besides what is stored a graph
keeps what it looks up: for every node the nodes that read it, and an index by which
shared nodes are found again.

## Main definitions

* `Columns` — what is stored of a graph.
* `Graph` — columns with consumers and index.
* `Columns.inputs`, `Columns.typeOf`, `Columns.carried`, `Columns.requirements` —
  reading a node.
-/

namespace Stochastic

/-- A range of the input column. -/
structure Span where
  start : Nat
  length : Nat
  deriving DecidableEq, Repr, Inhabited

/-- What is stored of a graph, one entry per node in each column but `cells`. -/
structure Columns where
  kinds : List NodeKind := []
  /-- The inputs of all nodes. -/
  cells : List NodeId := []
  /-- Where the inputs of each node stand. -/
  spans : List Span := []
  /-- The inferred type of each node. -/
  types : List ValueType := []
  deriving Inhabited

namespace Columns

/-- How many nodes there are. -/
def count (c : Columns) : Nat := c.kinds.length

/-- Whether there are no nodes. -/
def isEmpty (c : Columns) : Bool := c.kinds.isEmpty

/-- The inputs in a span of the input column. -/
def slice (c : Columns) (s : Span) : List NodeId := (c.cells.drop s.start).take s.length

/-- The inputs of a node, in order. -/
def inputs (c : Columns) (n : NodeId) : List NodeId :=
  match c.spans[n]? with
  | some s => c.slice s
  | none => []

/-- The inferred type of a node. -/
def typeOf (c : Columns) (n : NodeId) : ValueType := (c.types[n]?).getD .tensor

/-- The inferred types of the inputs of a node. -/
def inputTypes (c : Columns) (n : NodeId) : List ValueType := (c.inputs n).map c.typeOf

/-- The kind of a node. -/
def kindOf (c : Columns) (n : NodeId) : NodeKind := (c.kinds[n]?).getD .query

/-- The type that a node carries. -/
def carried (c : Columns) (n : NodeId) : ValueType := (c.kindOf n).carriedType (c.typeOf n)

/-- What a node asks of each input. -/
def requirements (c : Columns) (n : NodeId) : List Requirement :=
  (c.kindOf n).requirements (c.inputTypes n)

/-- The label of a node. -/
def label (c : Columns) (n : NodeId) : String := (c.kindOf n).label

/-- An input of a node, seen from the node read. -/
structure Edge where
  source : NodeId
  consumer : NodeId
  slot : Nat
  deriving DecidableEq, Repr

/-- The inputs of a node with their slots. -/
def edgesInto (c : Columns) (n : NodeId) : List Edge :=
  (c.inputs n).zipIdx.map fun i => ⟨i.1, n, i.2⟩

/-- All edges, by consumer and slot. -/
def edges (c : Columns) : List Edge := (List.range c.count).flatMap c.edgesInto

/-- All labels, in order of creation. -/
def labels (c : Columns) : List String := c.kinds.map NodeKind.label

end Columns

/-- A model graph. -/
structure Graph extends Columns where
  /-- For each node those that read it, once per input. -/
  consumers : List (List NodeId) := []
  /-- The nodes that can be shared, by their keys. -/
  index : Table NodeKey NodeId := .empty
  deriving Inhabited

namespace Graph

/-- The graph without nodes. -/
def empty : Graph := {}

/-- The nodes that read a node, once per input. -/
def consumersOf (g : Graph) (n : NodeId) : List NodeId := (g.consumers[n]?).getD []

/-- The columns as a graph that knows neither consumers nor shared nodes. -/
def ofColumns (c : Columns) : Graph := { c with }

end Graph

end Stochastic
