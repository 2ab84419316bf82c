import Stochastic.Graph.Basic

/-!
# Reachability

The nodes that a set of nodes influences, and those that influence it.

## Main definitions

* `Graph.closure` — what can be reached by repeated steps.
* `Graph.dependents`, `Graph.dependencies`.
-/

namespace Stochastic.Graph

/-- What can be reached in at most `rounds` rounds of steps, beside what was seen: a
round steps from the nodes that the round before saw for the first time. -/
def closure (next : NodeId → List NodeId) :
    (rounds : Nat) → (seen round : List NodeId) → List NodeId
  | 0, seen, _ => seen
  | rounds + 1, seen, round =>
    let fresh := (round.filter fun n => !seen.contains n).eraseDups
    if fresh.isEmpty then seen else closure next rounds (seen ++ fresh) (fresh.flatMap next)

/-- The nodes of a list in order of creation. -/
def inOrder (count : Nat) (nodes : List NodeId) : List NodeId :=
  (List.range count).filter nodes.contains

/-- The given nodes and all that depend on them, in order of creation. -/
def dependents (g : Graph) (starts : List NodeId) : List NodeId :=
  inOrder g.count (closure g.consumersOf (g.count + 1) [] starts)

/-- The given nodes and all they depend on, in order of creation. -/
def dependencies (g : Graph) (starts : List NodeId) : List NodeId :=
  inOrder g.count (closure g.inputs (g.count + 1) [] starts)

end Stochastic.Graph
