import Stochastic.Tensor.Basic

/-!
# Identity of floats and tensors

Float equality is not an equivalence (a NaN differs from itself) and bit equality
is too fine (it tells the two zeros apart).  The key of a float lies between: all
NaNs have one key and both zeros have one key, and otherwise the key is the bits.
The key of a tensor is its shape with the keys of its elements.

## Main definitions

* `floatKey` — the key of a float.
* `Tensor.Key`, `Tensor.key`, `Tensor.Key.compare` — the key of a tensor, and an
  order of keys.
-/

namespace Stochastic

/-- The key of a float: its bits, except that both zeros have one key and all
NaNs have one key. -/
def floatKey (x : Float) : UInt64 :=
  if x == 0 then 0 else if x.isNaN then 0x7ff8000000000000 else x.toBits

namespace Tensor

/-- The identity of a tensor. -/
structure Key where
  shape : List Nat
  bits : List UInt64
  deriving DecidableEq, Repr

/-- The key of a tensor. -/
def key (t : Tensor Float) : Key := ⟨t.shape, t.data.map floatKey⟩

/-- Keys are ordered by shape, then by elements, both lexicographically. -/
def Key.compare (a b : Key) : Ordering :=
  (List.compareLex Ord.compare a.shape b.shape).then (List.compareLex Ord.compare a.bits b.bits)

end Tensor

end Stochastic
