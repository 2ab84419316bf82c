import Stochastic.Node.Kind
import Stochastic.Tensor.Key

/-!
# Identity of nodes

Nodes that must mean the same are shared.  A node means the same as another if it
is of the same kind and reads the same nodes; samples, observations and queries
are each on their own.

## Main definitions

* `NodeId` — the number of a node, in order of creation.
* `NodeKey`, `NodeKey.of?` — what nodes that are shared have in common.
-/

namespace Stochastic

/-- The number of a node, in order of creation. -/
abbrev NodeId := Nat

/-- A node number as it is written in messages. -/
def nodeText (n : NodeId) : String := "NodeId(" ++ toString n ++ ")"

/-- What nodes that are shared have in common. -/
inductive NodeKey where
  | constant (declared : Option ValueType) (value : Tensor.Key)
  | distribution (family : Family) (inputs : List NodeId)
  | operator (op : Operator) (inputs : List NodeId)
  | conversion (c : Conversion) (input : NodeId)
  deriving DecidableEq, Repr

/-- The key of a node, if nodes of its kind are shared. -/
def NodeKey.of? (kind : NodeKind) (inputs : List NodeId) : Option NodeKey :=
  match kind with
  | .constant value declared => some (.constant declared value.key)
  | .distribution f => some (.distribution f inputs)
  | .operator op => some (.operator op inputs)
  | .conversion c => inputs.head?.map (.conversion c)
  | .sample => none
  | .observation _ => none
  | .query => none

end Stochastic
