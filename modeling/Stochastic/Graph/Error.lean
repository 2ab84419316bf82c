import Stochastic.Node.Key
import Stochastic.Node.Typing

/-!
# What can be wrong with a graph

## Main definitions

* `Graph.Error`, `Graph.Error.message` — causes and their texts.
-/

namespace Stochastic.Graph

/-- What a node expects to find at an input. -/
inductive SlotKind where
  | distribution
  | sample
  | value
  deriving DecidableEq, Repr

/-- An expectation as it is written in messages. -/
def SlotKind.text : SlotKind → String
  | .distribution => "a distribution"
  | .sample => "a sample"
  | .value => "a value"

/-- A type that does not fit. -/
inductive TypeError where
  /-- An input is not of a type that can be made to fit. -/
  | unsatisfiable (consumer : NodeId) (slot : Nat) (found : ValueType) (required : Requirement)
  /-- An input would fit, but no conversion leads to the required type. -/
  | noConversion (consumer : NodeId) (slot : Nat) (target : ValueType)
  /-- A conversion cannot be applied to a type. -/
  | illegalConversion (c : Conversion) (input : ValueType)
  /-- A constant does not have the type it is declared to have. -/
  | unrepresentable (value : Tensor Float) (declared : ValueType)

/-- The text of a type error. -/
def TypeError.message : TypeError → String
  | .unsatisfiable consumer slot found required =>
    "Input " ++ toString slot ++ " of node " ++ nodeText consumer ++ " has type " ++ found.text ++
      " but " ++ required.text ++ " is required"
  | .noConversion consumer slot target =>
    "No conversion produces " ++ target.text ++ " for input " ++ toString slot ++ " of node " ++
      nodeText consumer
  | .illegalConversion c input =>
    c.name ++ " cannot be applied to a " ++ input.text ++ " value"
  | .unrepresentable value declared =>
    "Constant " ++ value.text ++ " cannot be represented as " ++ declared.text

/-- What is wrong with stored columns. -/
inductive Corruption where
  /-- The columns differ in length. -/
  | lengths (kinds spans types : Nat)
  /-- The inputs of a node are not in the input column. -/
  | outside (node : NodeId)
  /-- A node reads one that does not come before it. -/
  | late (node input : NodeId)
  deriving DecidableEq, Repr

/-- The text of a corruption. -/
def Corruption.message : Corruption → String
  | .lengths kinds spans types =>
    toString kinds ++ " kinds, " ++ toString spans ++ " input ranges and " ++ toString types ++
      " types"
  | .outside node =>
    "inputs of node " ++ toString node ++ " lie outside the input column"
  | .late node input =>
    "node " ++ toString node ++ " reads node " ++ toString input ++
      ", which is not created before it"

/-- Why an operation on a graph fails. -/
inductive Error where
  | unknownNode (node : NodeId)
  /-- A node cannot have so many inputs. -/
  | arityMismatch (kind : NodeKind) (actual : Nat)
  /-- A node does not have that input. -/
  | noSlot (kind : NodeKind) (count slot : Nat)
  /-- An input is not of the kind that the node expects. -/
  | invalidInput (kind : NodeKind) (slot : Nat) (expected : SlotKind) (found : NodeKind)
  /-- An observed value is none that the sample can take. -/
  | invalidObservation (value : Tensor Float) (support : ValueType)
  | corruptStore (reason : Corruption)
  | cycle
  | type (e : TypeError)
  /-- A text is not that of a graph. -/
  | unreadable

/-- The numbers of inputs allowed by an arity, as they are written. -/
def arityText : NodeKind.Arity → String
  | .exactly n => toString n
  | .atLeast n => "at least " ++ toString n

/-- The text of an error. -/
def Error.message : Error → String
  | .unknownNode node => "Node " ++ nodeText node ++ " does not exist"
  | .arityMismatch kind actual =>
    kind.name ++ " expects " ++ arityText kind.arity ++ " inputs, got " ++ toString actual
  | .noSlot kind count slot =>
    kind.name ++ " expects a slot below " ++ toString count ++ " inputs, got " ++ toString slot
  | .invalidInput kind slot expected found =>
    "Input " ++ toString slot ++ " of " ++ kind.name ++ " must be " ++ expected.text ++
      ", found " ++ found.name
  | .invalidObservation value support =>
    "Observed value " ++ value.text ++ " is not a valid " ++ support.text
  | .corruptStore reason => "Stored graph is inconsistent: " ++ reason.message
  | .cycle => "Cycle detected in graph"
  | .type e => e.message
  | .unreadable => "Serialization error"

end Stochastic.Graph
