import Stochastic.Node.Kind
import Stochastic.ValueType.Requirement

/-!
# Typing of nodes

From the types of its inputs follow the type of a node and what it asks of those
inputs.  Operands are promoted to a common type, which is also the type of the
result.

## Main definitions

* `Operator.promote`, `Operator.operandType` — the type operands are promoted to.
* `NodeKind.infer` — the type of a node.
* `NodeKind.requirements` — what it asks of each input.

## Main results

* `NodeKind.length_requirements` — a node with the right number of inputs asks
  one thing of each.
-/

namespace Stochastic

namespace Operator

/-- The type of the result, from the join of the operands.  A sum of
probabilities may exceed one; a product of them may not. -/
def promote : Operator → ValueType → ValueType
  | .multiplication, .bool => .probability
  | .multiplication, .natural => .positiveReal
  | .multiplication, t => t
  | .addition, .real => .real
  | .addition, .tensor => .tensor
  | .addition, _ => .positiveReal
  | .negate, .tensor => .tensor
  | .negate, _ => .real
  | .exp, .tensor => .tensor
  | .exp, .real => .real
  | .exp, _ => .positiveReal
  | .ifThenElse, t => t

/-- The operands among the inputs: all but the condition of a choice. -/
def operands {α : Type} : Operator → List α → List α
  | .ifThenElse, inputs => inputs.drop 1
  | _, inputs => inputs

/-- The join of types, the largest type if there are none. -/
def joinAll (ts : List ValueType) : ValueType := (ValueType.supremum? ts).getD .tensor

/-- The type that operands are promoted to, from the types of the inputs. -/
def operandType (op : Operator) (inputs : List ValueType) : ValueType :=
  op.promote (joinAll (op.operands inputs))

end Operator

namespace NodeKind

/-- The smallest type of a node, from the types of its inputs. -/
def infer (kind : NodeKind) (inputs : List ValueType) : ValueType :=
  match kind with
  | .constant value _ => ValueType.classify value
  | .distribution f => f.supportType
  | .sample => inputs.headD .tensor
  | .observation _ => inputs.headD .tensor
  | .query => inputs.headD .tensor
  | .operator op => op.operandType inputs
  | .conversion c => c.target

/-- What a node asks of each input, from the types of its inputs. -/
def requirements (kind : NodeKind) (inputs : List ValueType) : List Requirement :=
  match kind with
  | .constant _ _ => []
  | .distribution f => f.parameterTypes.map .exact
  | .sample => inputs.map .exact
  | .observation _ => inputs.map .exact
  | .query => inputs.map .exact
  | .operator .ifThenElse =>
    .exact .bool :: (inputs.drop 1).map fun _ => .exact (Operator.operandType .ifThenElse inputs)
  | .operator op => inputs.map fun _ => .exact (op.operandType inputs)
  | .conversion c => inputs.map fun _ => .upperBound c.target

/-- The type that a node carries: a typed constant the declared one, any other
node the inferred one. -/
def carriedType (kind : NodeKind) (inferred : ValueType) : ValueType :=
  match kind with
  | .constant _ (some t) => t
  | _ => inferred

/-- How many inputs a node has. -/
inductive Arity where
  | exactly (n : Nat)
  | atLeast (n : Nat)
  deriving DecidableEq, Repr

/-- Whether a number of inputs is allowed. -/
def Arity.allows (n : Nat) : Arity → Bool
  | .exactly m => n == m
  | .atLeast m => m ≤ n

/-- The numbers of inputs that nodes of a kind can have. -/
def arity : NodeKind → Arity
  | .constant _ _ => .exactly 0
  | .distribution f => .exactly f.arity
  | .operator .addition => .atLeast 2
  | .operator .multiplication => .atLeast 2
  | .operator .ifThenElse => .exactly 3
  | _ => .exactly 1

/-- A node with an allowed number of inputs asks one thing of each input. -/
theorem length_requirements (kind : NodeKind) (inputs : List ValueType)
    (h : kind.arity.allows inputs.length = true) :
    (kind.requirements inputs).length = inputs.length := by
  cases kind with
  | constant value declared => simp_all [arity, Arity.allows, requirements]
  | distribution f => simp_all [arity, Arity.allows, requirements, Family.arity]
  | operator op =>
    cases op <;> simp_all [arity, Arity.allows, requirements]
  | _ => simp [requirements]

end NodeKind

end Stochastic
