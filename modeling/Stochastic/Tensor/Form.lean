import Stochastic.Json.Form
import Stochastic.Tensor.Basic

/-!
# The JSON form of tensors

A tensor is a record of its shape and its elements.  The elements are taken as
they are written, whatever the shape says.

## Main definitions

* `Tensor.toJson`, `Tensor.ofJson?`.
-/

namespace Stochastic.Tensor

/-- The JSON form of a tensor. -/
def toJson (t : Tensor Float) : Json :=
  .obj [("shape", .array (t.shape.map Json.nat)), ("data", JsonForm.toJson t.data)]

/-- The tensor that a JSON value is. -/
def ofJson? (j : Json) : Option (Tensor Float) := do
  match ← j.members? ["shape", "data"] with
  | [some shape, some data] =>
    let shape ← (← shape.items?).mapM (Json.natBelow? lengthLimit)
    let data ← JsonForm.ofJson? data
    return ⟨shape, data⟩
  | _ => none

instance : JsonForm (Tensor Float) := ⟨toJson, ofJson?⟩

end Stochastic.Tensor
