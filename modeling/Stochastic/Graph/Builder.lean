import Stochastic.Graph.Insert

/-!
# Building a model graph

A builder adds nodes by what they are for, and remembers observations and queries, which
are what the graph is built for.

## Main definitions

* `Builder`, `Builder.add`, `Builder.observe`, `Builder.query`.
* `NodeKind.boolean`, `NodeKind.count`, … — typed constants.
-/

namespace Stochastic

namespace NodeKind

/-- A constant whose type follows from its value. -/
def untyped (value : Tensor Float) : NodeKind := .constant value none

/-- A constant with a declared type. -/
def typed (value : Tensor Float) (t : ValueType) : NodeKind := .constant value (some t)

/-- A truth value. -/
def boolean (b : Bool) : NodeKind := typed (.scalar (if b then 1 else 0)) .bool

/-- A probability. -/
def probability (x : Float) : NodeKind := typed (.scalar x) .probability

/-- A natural number. -/
def count (n : Nat) : NodeKind := typed (.scalar (Float.ofNat n)) .natural

/-- A positive number. -/
def positiveReal (x : Float) : NodeKind := typed (.scalar x) .positiveReal

/-- A number. -/
def real (x : Float) : NodeKind := typed (.scalar x) .real

/-- A tensor. -/
def tensor (value : Tensor Float) : NodeKind := typed value .tensor

end NodeKind

/-- A graph under construction with its observations and queries. -/
structure Builder where
  graph : Graph := .empty
  observations : List NodeId := []
  queries : List NodeId := []
  deriving Inhabited

namespace Builder

/-- Adds a node. -/
def add (b : Builder) (kind : NodeKind) (inputs : List NodeId) :
    Reply Builder Graph.Error NodeId :=
  (b.graph.add kind inputs).mapState fun g => { b with graph := g }

/-- Adds the observation of a sample. -/
def observe (b : Builder) (sample : NodeId) (value : Tensor Float) :
    Reply Builder Graph.Error NodeId :=
  let r := b.add (.observation value) [sample]
  match r.result with
  | .ok n => { r with state := { r.state with observations := r.state.observations ++ [n] } }
  | .error _ => r

/-- Adds a query for a node. -/
def query (b : Builder) (operand : NodeId) : Reply Builder Graph.Error NodeId :=
  let r := b.add .query [operand]
  match r.result with
  | .ok n => { r with state := { r.state with queries := r.state.queries ++ [n] } }
  | .error _ => r

end Builder

end Stochastic
