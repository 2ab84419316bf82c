import Stochastic.Table
import Stochastic.Tensor.Key
import Stochastic.Tensor.Printer

/-!
# Sets of tensors

A set of tensors up to their keys, in order of insertion.  Of several tensors
with one key the first stays.

## Main definitions

* `TensorSet`, `TensorSet.insert`, `TensorSet.contains`, `TensorSet.text`.

## Main results

* `TensorSet.toList_insert` — insertion appends exactly the tensors whose key is
  new.
-/

namespace Stochastic

/-- A set of tensors, each under its key, in order of insertion. -/
structure TensorSet where
  items : Table Tensor.Key (Tensor Float)

namespace TensorSet

/-- The set without members. -/
def empty : TensorSet := ⟨.empty⟩

/-- The members, in order of insertion. -/
def toList (s : TensorSet) : List (Tensor Float) := s.items.values

/-- Whether a tensor with the same key is in the set. -/
def contains (s : TensorSet) (t : Tensor Float) : Bool := s.items.contains t.key

/-- Adds a tensor unless one with the same key is there, and says whether it was
new. -/
def insert (s : TensorSet) (t : Tensor Float) : Bool × TensorSet :=
  if s.contains t then (false, s) else (true, ⟨s.items.insert t.key t⟩)

/-- How many members there are. -/
def size (s : TensorSet) : Nat := s.items.size

/-- The set of the members of a list. -/
def ofList (ts : List (Tensor Float)) : TensorSet := ts.foldl (fun s t => (s.insert t).2) empty

/-- The texts of the members, sorted, one to a line. -/
def text (s : TensorSet) : String :=
  "\n".intercalate ((s.toList.map Tensor.text).mergeSort fun a b => decide (a ≤ b))

/-- A tensor whose key is new comes under it, behind the others. -/
theorem entries_insert {s : TensorSet} {t : Tensor Float} (h : s.contains t = false) :
    (s.insert t).2.items.entries = s.items.entries ++ [(t.key, t)] := by
  have hget : s.items.get? t.key = none := by simpa [contains, Table.contains] using h
  rw [insert, h, if_neg Bool.false_ne_true, Table.entries_insert_of_get? hget]

/-- Insertion appends exactly the tensors whose key is new. -/
theorem toList_insert (s : TensorSet) (t : Tensor Float) :
    (s.insert t).2.toList = if s.contains t then s.toList else s.toList ++ [t] := by
  cases h : s.contains t with
  | true => rw [insert, h, if_pos rfl, if_pos rfl]
  | false =>
    rw [if_neg Bool.false_ne_true, toList, Table.values, entries_insert h, List.map_append]
    rfl

end TensorSet

end Stochastic
