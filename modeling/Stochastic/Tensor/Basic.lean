import Stochastic.Total

/-!
# Tensors

A tensor is a list of elements in row-major order with the lengths of its axes.
The constructors compare the number of elements with the product of the axis
lengths, which they multiply as words; a tensor read from a store is taken as it is.
So that the two are equal is a property, `Tensor.WellFormed`, and not part of the type.

## Main definitions

* `Tensor`, `Tensor.WellFormed`.
* `Tensor.wordVolume` — the product of axis lengths that are words.
* `Tensor.ofShape?`, `Tensor.scalar`, `Tensor.vector`, `Tensor.matrix?` —
  construction.
* `Tensor.item?`, `Tensor.map`, `Tensor.sum` — reading.
-/

namespace Stochastic

/-- The number of elements of a tensor with the given axis lengths. -/
def volume (shape : List Nat) : Nat := shape.foldr (· * ·) 1

/-- A tensor: axis lengths, outermost first, and elements in row-major order. -/
structure Tensor (α : Type) where
  shape : List Nat
  data : List α
  deriving BEq, Repr, Inhabited

namespace Tensor

variable {α β : Type}

/-- Why a tensor operation fails. -/
inductive Error where
  /-- The shape does not hold that many elements. -/
  | invalidShape (shape : List Nat) (length : Nat)
  /-- The rows of a matrix differ in length. -/
  | raggedRows
  /-- The shapes cannot be brought together. -/
  | shapeMismatch (left right : List Nat)
  /-- A single element was expected. -/
  | notScalar (count : Nat)
  deriving DecidableEq, Repr

/-- Axis lengths as they are written. -/
def shapeText (shape : List Nat) : String :=
  "[" ++ ", ".intercalate (shape.map fun n => toString n) ++ "]"

/-- The text of an error. -/
def Error.message : Error → String
  | .invalidShape shape length =>
    "Shape " ++ shapeText shape ++ " does not hold " ++ toString length ++ " elements"
  | .raggedRows => "Rows of a matrix must have equal length"
  | .shapeMismatch left right =>
    "Shape mismatch: " ++ shapeText left ++ " vs " ++ shapeText right
  | .notScalar count => "Expected a single element, found " ++ toString count

/-- The shape holds exactly the elements. -/
def WellFormed (t : Tensor α) : Prop := volume t.shape = t.data.length

instance (t : Tensor α) : Decidable t.WellFormed :=
  inferInstanceAs (Decidable (volume t.shape = t.data.length))

/-! ## Construction -/

/-- Axis lengths are words: they lie below this limit. -/
def lengthLimit : Nat := Nat.pow 2 64

/-- The product of axis lengths as a word.  What goes beyond a word is lost. -/
def wordVolume (shape : List Nat) : Nat := shape.foldl (fun size n => size * n % lengthLimit) 1

/-- The tensor with the given shape and elements. -/
def ofShape? (shape : List Nat) (data : List α) : Except Error (Tensor α) :=
  if wordVolume shape = data.length then .ok ⟨shape, data⟩
  else .error (.invalidShape shape data.length)

/-- The tensor without axes. -/
def scalar (a : α) : Tensor α := ⟨[], [a]⟩

/-- The tensor with one axis. -/
def vector (as : List α) : Tensor α := ⟨[as.length], as⟩

/-- The vector without elements. -/
def empty : Tensor α := vector []

/-- The tensor with the given rows, which must be equally long. -/
def matrix? (rows : List (List α)) : Except Error (Tensor α) :=
  let columns := (rows.head?.map List.length).getD 0
  if rows.all fun r => r.length == columns then .ok ⟨[rows.length, columns], rows.flatten⟩
  else .error .raggedRows

/-! ## Reading -/

/-- How many elements a tensor has. -/
def size (t : Tensor α) : Nat := t.data.length

/-- The only element. -/
def item? (t : Tensor α) : Except Error α :=
  match t.data with
  | [a] => .ok a
  | data => .error (.notScalar data.length)

/-- Applies a function to every element. -/
def map (f : α → β) (t : Tensor α) : Tensor β := ⟨t.shape, t.data.map f⟩

/-- The sum of the elements. -/
def sum (t : Tensor Float) : Float := total t.data

/-- The Euclidean distance of two tensors of the same shape. -/
def distance? (a b : Tensor Float) : Except Error Float :=
  if a.shape = b.shape then
    .ok (total (List.zipWith (fun x y => (x - y) * (x - y)) a.data b.data)).sqrt
  else .error (.shapeMismatch a.shape b.shape)

end Tensor

end Stochastic
