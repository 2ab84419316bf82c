import Stochastic.Decimal.Rounding
import Stochastic.Tensor.Basic

/-!
# The text of a tensor

Elements stand in nested brackets, one pair per axis.  All elements are written
with equally many places and aligned to the right; the elements of every axis but
the innermost begin on a line of their own.

## Main definitions

* `Tensor.cells` — the elements as they are written.
* `Tensor.block` — the nested brackets.
* `Tensor.text` — the whole text.
-/

namespace Stochastic.Tensor

/-- The text of one element: whole numbers end in a point and others have four
places. -/
def cellText (integral : Bool) (x : Float) : String :=
  if x.isNaN then "nan"
  else if x.isInf then (if x > 0 then "inf" else "-inf")
  else if integral then Decimal.fixed 0 x ++ "."
  else Decimal.fixed 4 x

/-- Fills a text from the left with blanks. -/
def alignRight (width : Nat) (s : String) : String :=
  String.ofList (List.replicate (width - s.length) ' ') ++ s

/-- The elements as they are written: as whole numbers if every finite one is
whole, and all equally wide. -/
def cells (data : List Float) : List String :=
  let integral := data.all fun x => !x.isFinite || Decimal.isIntegral x
  let texts := data.map (cellText integral)
  let width := (texts.map String.length).foldl max 0
  texts.map (alignRight width)

/-- What stands between two elements of an axis that is not the innermost:
`lines` line ends, then blanks up to the column behind the opening brackets. -/
def separator (lines depth : Nat) : String :=
  "," ++ String.ofList (List.replicate lines '\n') ++ String.ofList (List.replicate (depth + 8) ' ')

/-- The elements of a sub-tensor in brackets.  `depth` counts the axes outside
it; as many lines as there are axes inside an axis separate its elements. -/
def block (depth : Nat) : List Nat → List String → String
  | [], cells => "[" ++ ", ".intercalate cells ++ "]"
  | [_], cells => "[" ++ ", ".intercalate cells ++ "]"
  | n :: m :: shape, cells =>
    let stride := volume (m :: shape)
    let parts := (List.range n).map fun i =>
      block (depth + 1) (m :: shape) ((cells.drop (i * stride)).take stride)
    "[" ++ (separator (shape.length + 1) depth).intercalate parts ++ "]"

/-- The text of a tensor. -/
def text (t : Tensor Float) : String :=
  let cells := cells t.data
  let body := if t.shape.isEmpty then cells.headD "" else block 0 t.shape cells
  "tensor(" ++ body ++ ")"

end Stochastic.Tensor
