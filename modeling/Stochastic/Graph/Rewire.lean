import Stochastic.Graph.Insert

/-!
# Replacing an input

After an input of a node is replaced, the types of the node and of what depends on it
are inferred again, in rounds: a round looks at the consumers of the nodes whose type
the round before changed.

## Main definitions

* `Graph.refresh` — inferring types again.
* `Graph.rewire` — replaces an input.
-/

namespace Stochastic.Graph

/-- The type of a node as inferred from the current types of its inputs. -/
def inferred (g : Graph) (n : NodeId) : ValueType := (g.kindOf n).infer (g.inputTypes n)

/-- Infers the type of one node again.  Its consumers are put off to the next round if
the type changed; those of the node where the change began are in any case. -/
def refreshNode (start : NodeId) (state : Graph × List NodeId) (n : NodeId) :
    Graph × List NodeId :=
  let (g, next) := state
  let t := g.inferred n
  if t ≠ g.typeOf n ∨ n = start then
    ({ g with types := g.types.set n t }, next ++ g.consumersOf n)
  else (g, next)

/-- Infers types again, for at most `rounds` rounds beginning with the nodes of
`round`.  In a graph without cycles a round is empty after as many rounds as there are
nodes, since the nodes of a round are the ends of ever longer paths. -/
def refresh (start : NodeId) : (rounds : Nat) → Graph → (round : List NodeId) → Graph
  | 0, g, _ => g
  | rounds + 1, g, round =>
    if round.isEmpty then g
    else
      let (g, next) := round.foldl (refreshNode start) (g, [])
      refresh start rounds g next

/-- The index after the inputs of a node changed: its entry under the old key goes, and
it is listed under the new key unless another node is. -/
def relist (index : Table NodeKey NodeId) (old new : Option NodeKey) (n : NodeId) :
    Table NodeKey NodeId :=
  let index := match old with
    | some k => if index.get? k = some n then index.erase k else index
    | none => index
  enlist index new n

/-- The graph with one cell of the input column changed, and with the consumers of the
old and the new input of `consumer` brought up to date. -/
def setCell (g : Graph) (consumer cell replacement : NodeId) : Graph :=
  let previous := (g.cells[cell]?).getD 0
  { g with
    cells := g.cells.set cell replacement
    consumers := (g.consumers.modify previous (·.erase consumer)).modify replacement
      (· ++ [consumer]) }

/-- Makes input `slot` of `consumer` read `replacement`. -/
def rewire (g : Graph) (consumer : NodeId) (slot : Nat) (replacement : NodeId) :
    Except Error Graph :=
  if g.count ≤ consumer then .error (.unknownNode consumer)
  else if g.count ≤ replacement then .error (.unknownNode replacement)
  else
    let span := (g.spans[consumer]?).getD ⟨0, 0⟩
    let kind := g.kindOf consumer
    if span.length ≤ slot then .error (.noSlot kind span.length slot)
    else
      let old := NodeKey.of? kind (g.inputs consumer)
      let g := g.setCell consumer (span.start + slot) replacement
      let new := NodeKey.of? kind (g.inputs consumer)
      let g := { g with index := relist g.index old new consumer }
      .ok (refresh consumer g.count g [consumer])

end Stochastic.Graph
