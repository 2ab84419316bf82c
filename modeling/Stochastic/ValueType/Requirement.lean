import Stochastic.ValueType.Basic

/-!
# Requirements on inputs

What a node of a model graph asks of one of its inputs.

## Main definitions

* `Requirement`, `Requirement.satisfied` — the two kinds of requirement and when
  they are met.
-/

namespace Stochastic

/-- What is asked of an input. -/
inductive Requirement where
  /-- The input has exactly this type. -/
  | exact (t : ValueType)
  /-- The inferred type of the input is at most this one. -/
  | upperBound (t : ValueType)
  deriving DecidableEq, Repr

namespace Requirement

/-- The type that the requirement names. -/
def target : Requirement → ValueType
  | .exact t => t
  | .upperBound t => t

/-- Whether an input meets the requirement, given the type it carries and the
type inferred for it. -/
def satisfied (carried inferred : ValueType) : Requirement → Bool
  | .exact t => carried == t
  | .upperBound t => inferred.le t

/-- The requirement as it is written. -/
def text : Requirement → String
  | .exact t => t.text
  | .upperBound t => "<=" ++ t.text

end Requirement

end Stochastic
