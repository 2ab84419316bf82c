import Stochastic.Tensor.Basic

/-!
# Elementwise operations on tensors of different shapes

Two tensors are brought to a common shape by stretching axes of length one, where
axes are matched from the innermost outwards and missing outer axes count as axes
of length one.  Below, shapes, strides and indices are listed innermost axis first:
then matching is structural.  The elements of the common shape are visited in order,
and each operand is read at the place that its strides give for the index.

## Main definitions

* `joinAxis`, `joinShapes`, `broadcast?` — the common shape.
* `advance`, `indices` — the indices of a shape, in order.
* `strides`, `offset` — from an index to a place in the element list.
* `Tensor.zipStretched?`, `Tensor.zipWith?` — a binary operation on the elements, and
  the same with a short cut for equal shapes.
-/

namespace Stochastic

/-- The common length of two matched axes. -/
def joinAxis (m n : Nat) : Option Nat :=
  if m = n then some m else if m = 1 then some n else if n = 1 then some m else none

/-- The common shape of two shapes, all innermost axis first. -/
def joinShapes : List Nat → List Nat → Option (List Nat)
  | [], ns => some ns
  | ms, [] => some ms
  | m :: ms, n :: ns => do
    let k ← joinAxis m n
    let ks ← joinShapes ms ns
    return k :: ks

/-- The common shape of two shapes. -/
def broadcast? (ms ns : List Nat) : Option (List Nat) :=
  (joinShapes ms.reverse ns.reverse).map List.reverse

/-- The next index: the innermost axis moves first, and an axis at its end starts again
and moves the next one out. -/
def advance : (shape index : List Nat) → List Nat
  | n :: ns, i :: is => if i + 1 < n then (i + 1) :: is else 0 :: advance ns is
  | _, _ => []

/-- An index and those that follow it, `count` together. -/
def indices (shape : List Nat) : (count : Nat) → (index : List Nat) → List (List Nat)
  | 0, _ => []
  | count + 1, index => index :: indices shape count (advance shape index)

/-- How far apart the neighbours along each axis stand in the element list, where those
along the first axis are `step` apart.  Along an axis of length one, which may be
stretched, one does not move. -/
def strides : (step : Nat) → (shape : List Nat) → List Nat
  | _, [] => []
  | step, n :: ns => (if n = 1 then 0 else step) :: strides (step * n) ns

/-- The place to which an index leads.  Axes without a stride are not read. -/
def offset : (strides index : List Nat) → Nat
  | s :: ss, i :: is => s * i + offset ss is
  | _, _ => 0

namespace Tensor

variable {α β γ : Type}

/-- The element that a tensor shows at an index of the common shape. -/
def stretched? (t : Tensor α) (index : List Nat) : Option α :=
  t.data[offset (strides 1 t.shape.reverse) index]?

/-- Applies `f` to the elements that two tensors show at each index of their common
shape. -/
def zipStretched? (f : α → β → γ) (a : Tensor α) (b : Tensor β) : Except Error (Tensor γ) :=
  match broadcast? a.shape b.shape with
  | none => .error (.shapeMismatch a.shape b.shape)
  | some shape =>
    let visited := indices shape.reverse (volume shape) (List.replicate shape.length 0)
    .ok ⟨shape, visited.filterMap fun index => do
      let x ← a.stretched? index
      let y ← b.stretched? index
      return f x y⟩

/-- Applies `f` to the elements of two tensors, place by place if they have one shape and
else by stretching them. -/
def zipWith? (f : α → β → γ) (a : Tensor α) (b : Tensor β) : Except Error (Tensor γ) :=
  if a.shape = b.shape then .ok ⟨a.shape, List.zipWith f a.data b.data⟩
  else zipStretched? f a b

/-- Elementwise sum. -/
def add? (a b : Tensor Float) : Except Error (Tensor Float) := zipWith? (· + ·) a b

/-- Elementwise difference. -/
def sub? (a b : Tensor Float) : Except Error (Tensor Float) := zipWith? (· - ·) a b

/-- Elementwise product. -/
def mul? (a b : Tensor Float) : Except Error (Tensor Float) := zipWith? (· * ·) a b

/-- Elementwise quotient. -/
def div? (a b : Tensor Float) : Except Error (Tensor Float) := zipWith? (· / ·) a b

end Tensor

end Stochastic
