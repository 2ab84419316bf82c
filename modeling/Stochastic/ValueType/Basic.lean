/-!
# Value types

The types of the values that flow through a model graph, ordered by inclusion:

```text
              tensor
                |
               real
                |
          positive real
            /       \
    probability   natural
            \       /
               bool
```

## Main definitions

* `ValueType`, `ValueType.le` — the types and their order.
* `ValueType.join`, `ValueType.supremum?` — least upper bounds.

## Main results

* `ValueType.join_le_iff` — the join is the least upper bound.
-/

namespace Stochastic

/-- The type of a value. -/
inductive ValueType where
  | bool
  | probability
  | natural
  | positiveReal
  | real
  | tensor
  deriving DecidableEq, Repr, Inhabited

namespace ValueType

/-- All types, none before a smaller one. -/
def all : List ValueType := [.bool, .probability, .natural, .positiveReal, .real, .tensor]

/-- Whether every value of the first type is one of the second.  Probabilities
and naturals are not comparable. -/
def le : ValueType → ValueType → Bool
  | _, .tensor => true
  | .tensor, _ => false
  | _, .real => true
  | .real, _ => false
  | _, .positiveReal => true
  | .positiveReal, _ => false
  | .bool, _ => true
  | .probability, .probability => true
  | .natural, .natural => true
  | _, _ => false

instance : LE ValueType := ⟨fun s t => s.le t = true⟩

instance (s t : ValueType) : Decidable (s ≤ t) := inferInstanceAs (Decidable (s.le t = true))

theorem le_refl (s : ValueType) : s ≤ s := by
  cases s <;> decide

theorem le_trans {r s t : ValueType} (h₁ : r ≤ s) (h₂ : s ≤ t) : r ≤ t := by
  revert h₁ h₂
  cases r <;> cases s <;> cases t <;> decide

theorem le_antisymm {s t : ValueType} (h₁ : s ≤ t) (h₂ : t ≤ s) : s = t := by
  revert h₁ h₂
  cases s <;> cases t <;> decide

/-- How two types compare, if they do. -/
def compare? (s t : ValueType) : Option Ordering :=
  match s.le t, t.le s with
  | true, true => some .eq
  | true, false => some .lt
  | false, true => some .gt
  | false, false => none

/-- The least type above both: the first upper bound in the list of all types,
where smaller types come first. -/
def join (s t : ValueType) : ValueType :=
  (all.find? fun u => s.le u && t.le u).getD .tensor

/-- A type is above the join of two types exactly if it is above both. -/
theorem join_le_iff (s t u : ValueType) : s.join t ≤ u ↔ s ≤ u ∧ t ≤ u := by
  cases s <;> cases t <;> cases u <;> decide

/-- The least type above all in a list; none if the list is empty. -/
def supremum? : List ValueType → Option ValueType
  | [] => none
  | t :: ts => some (ts.foldl join t)

/-! ## Names -/

/-- The name in stored form. -/
def name : ValueType → String
  | .bool => "Bool"
  | .probability => "Probability"
  | .natural => "Natural"
  | .positiveReal => "PositiveReal"
  | .real => "Real"
  | .tensor => "Tensor"

/-- The short name behind a typed constant. -/
def shortName : ValueType → String
  | .bool => "B"
  | .probability => "P"
  | .natural => "N"
  | .positiveReal => "R+"
  | .real => "R"
  | .tensor => "T"

/-- The name in messages. -/
def text : ValueType → String
  | .bool => "bool"
  | .probability => "probability"
  | .natural => "natural"
  | .positiveReal => "positive real"
  | .real => "real"
  | .tensor => "tensor"

end ValueType

end Stochastic
