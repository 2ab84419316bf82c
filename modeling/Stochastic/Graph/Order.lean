import Stochastic.Graph.Basic

/-!
# Topological order

Nodes are listed once all their inputs are listed, first come first served: a queue
holds the nodes whose inputs are all listed, beginning with those that have none, in
order of creation.

## Main definitions

* `Graph.listed` — the nodes that can be listed.
* `Graph.topologicalOrder` — all nodes in order, unless there is a cycle.
-/

namespace Stochastic.Graph

/-- One input of `consumer` has been listed: counts it off, and queues the node with its
last one. -/
def countOff (state : List Nat × List NodeId) (consumer : NodeId) : List Nat × List NodeId :=
  let (missing, freed) := state
  let left := (missing[consumer]?).getD 0
  (missing.set consumer (left - 1), if left = 1 then freed ++ [consumer] else freed)

/-- The nodes that are listed from a queue on, at most `limit` of them.  `missing` counts
for every node the inputs that are not listed yet. -/
def listed (consumersOf : NodeId → List NodeId) :
    (limit : Nat) → (missing : List Nat) → (queue : List NodeId) → List NodeId
  | 0, _, _ => []
  | _ + 1, _, [] => []
  | limit + 1, missing, n :: queue =>
    let (missing, freed) := (consumersOf n).foldl countOff (missing, [])
    n :: listed consumersOf limit missing (queue ++ freed)

/-- The nodes without inputs, in order of creation. -/
def roots (c : Columns) : List NodeId :=
  (c.spans.zipIdx.filter fun s => s.1.length == 0).map Prod.snd

/-- All nodes, each behind its inputs; fails if some are on a cycle. -/
def topologicalOrder (g : Graph) : Except Error (List NodeId) :=
  let order := listed g.consumersOf g.count (g.spans.map Span.length) (roots g.toColumns)
  if order.length = g.count then .ok order else .error .cycle

end Stochastic.Graph
