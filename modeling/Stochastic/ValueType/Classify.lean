import Stochastic.Decimal.Binary
import Stochastic.Tensor.Basic
import Stochastic.ValueType.Basic

/-!
# The type of a constant

## Main definitions

* `ValueType.classify` — the smallest type that holds a value.
* `ValueType.canRepresent` — whether a type holds a value.
-/

namespace Stochastic.ValueType

/-- The smallest type that holds a float.  Negative numbers and NaN are only
real. -/
def classifyFloat (x : Float) : ValueType :=
  if x == 0 || x == 1 then .bool
  else if 0 ≤ x ∧ x ≤ 1 then .probability
  else if 0 ≤ x ∧ Decimal.isIntegral x then .natural
  else if 0 ≤ x then .positiveReal
  else .real

/-- The smallest type that holds a value: whatever does not have exactly one
element is a tensor. -/
def classify (value : Tensor Float) : ValueType :=
  match value.data with
  | [x] => classifyFloat x
  | _ => .tensor

/-- Whether a constant of this type can have this value. -/
def canRepresent (t : ValueType) (value : Tensor Float) : Bool := (classify value).le t

end Stochastic.ValueType
