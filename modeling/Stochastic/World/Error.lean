import Stochastic.Distribution.Draw
import Stochastic.World.Ident

/-!
# What can go wrong in a world

## Main definitions

* `World.Error`, `World.Error.message` — causes and their texts.
-/

namespace Stochastic.World

/-- What is wrong with the score of a variable. -/
inductive Inconsistency where
  | missingChild (child : Ident)
  | undefinedScore

/-- The text of an inconsistency. -/
def Inconsistency.message : Inconsistency → String
  | .missingChild child => "child " ++ child.text ++ " is missing from the world"
  | .undefinedScore => "score is NaN"

/-- Why an operation on a world fails. -/
inductive Error where
  | notFound (node : Ident)
  | inconsistent (reason : Inconsistency)
  | markedForDelete (node : Ident)
  | observedNode (node : Ident)
  | notObserved (node : Ident)
  /-- A variable reads itself, at once or through others. -/
  | cyclic (node : Ident)
  /-- Programs are nested too deeply. -/
  | recursionLimit (node : Ident) (depth : Nat)
  /-- A program failed with a message of its own. -/
  | model (node : Ident) (message : String)
  | parameter (e : ParameterError)
  | tensor (e : Tensor.Error)

/-- The text of an error. -/
def Error.message : Error → String
  | .notFound node => "Node " ++ node.text ++ " is missing from the world"
  | .inconsistent reason => "Inconsistent variable: " ++ reason.message
  | .markedForDelete node =>
    "Node " ++ node.text ++ " is marked for delete and cannot take a new value"
  | .observedNode node => "Node " ++ node.text ++ " is observed and cannot take a new value"
  | .notObserved node => "Node " ++ node.text ++ " is not observed"
  | .cyclic node => "Node " ++ node.text ++ " depends on itself"
  | .recursionLimit node depth =>
    "Generating " ++ node.text ++ " exceeded the maximum call depth of " ++ toString depth
  | .model node message => "Model error in " ++ node.text ++ ": " ++ message
  | .parameter e => e.message
  | .tensor e => e.message

end Stochastic.World
