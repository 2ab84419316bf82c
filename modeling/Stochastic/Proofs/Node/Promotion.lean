import Mathlib.Data.List.Forall2
import Stochastic.Proofs.Node.Widening

/-!
# Promotion of operands

The operands of an operator are promoted to one type: the least upper bound of their types is
found by a fold over the list, and a table that each operator has widens it.  The table is a
closure: it keeps the order, it never narrows, and it has no effect on what it has widened.

Hence the promoted type does not depend on how far the operands have been promoted already.  Any
of them may be widened any part of the way, in any order, and the type that they are promoted to
stays where it is.

## Main definitions

* `ValueType.IsSupremum` — the least upper bound of a list of types, stated by the order alone.

## Main results

* `Operator.joinAll_isSupremum` — the fold finds the least upper bound.
* `Operator.promote_eq_of_between` — the table does not tell a type from those between it and what
  it is widened to.
* `Operator.operandType_stable` — promotion is above the operands, keeps the order, ignores the
  order of the operands, and is not moved by partial promotion.
-/

namespace Stochastic

/-- A type is above `s` exactly if it is above all types of the list. -/
def ValueType.IsSupremum (ts : List ValueType) (s : ValueType) : Prop :=
  ∀ u, s ≤ u ↔ ∀ t ∈ ts, t ≤ u

namespace Operator

variable {op : Operator} {s t : ValueType} {ts us inputs inputs' : List ValueType}

/-! ## Least upper bounds -/

theorem joinAll_isSupremum (h : ts ≠ []) : ValueType.IsSupremum ts (joinAll ts) :=
  joinAll_le_iff h

theorem exists_of_mem_left {R : ValueType → ValueType → Prop} (h : List.Forall₂ R ts us)
    (ht : t ∈ ts) : ∃ u ∈ us, R t u := by
  induction h with
  | nil => cases ht
  | @cons s u ts us hsu _ ih =>
    rcases List.mem_cons.1 ht with rfl | ht
    · exact ⟨u, List.mem_cons_self, hsu⟩
    · obtain ⟨w, hw, htw⟩ := ih ht
      exact ⟨w, List.mem_cons_of_mem u hw, htw⟩

/-- Larger types have a larger least upper bound. -/
theorem joinAll_mono (h : List.Forall₂ (· ≤ ·) ts us) : joinAll ts ≤ joinAll us := by
  by_cases hts : ts = []
  · subst hts
    rw [List.forall₂_nil_left_iff.1 h]
    exact ValueType.le_refl _
  · rw [joinAll_le_iff hts]
    intro t ht
    obtain ⟨u, hu, htu⟩ := exists_of_mem_left h ht
    exact ValueType.le_trans htu (le_joinAll hu)

/-- The order of the types does not matter. -/
theorem joinAll_perm (h : ts.Perm us) : joinAll ts = joinAll us := by
  by_cases hts : ts = []
  · subst hts
    rw [h.nil_eq]
  · have hus : us ≠ [] := fun hus => hts (List.Perm.eq_nil (hus ▸ h))
    apply ValueType.le_antisymm
    · exact (joinAll_le_iff hts _).2 fun t ht => le_joinAll (h.mem_iff.1 ht)
    · exact (joinAll_le_iff hus _).2 fun t ht => le_joinAll (h.mem_iff.2 ht)

/-! ## The tables -/

/-- The table of an operator keeps the order. -/
theorem promote_mono (op : Operator) (h : s ≤ t) : op.promote s ≤ op.promote t := by
  revert h
  cases op <;> cases s <;> cases t <;> decide

/-- Types between a type and what it is widened to are widened to the same. -/
theorem promote_eq_of_between (hst : s ≤ t) (hts : t ≤ op.promote s) :
    op.promote t = op.promote s := by
  apply ValueType.le_antisymm
  · have h := op.promote_mono hts
    rwa [promote_promote] at h
  · exact op.promote_mono hst

/-! ## Operands -/

/-- With an allowed number of inputs there is something to promote. -/
theorem operands_ne_nil (h : (NodeKind.operator op).arity.allows inputs.length = true) :
    op.operands inputs ≠ [] := by
  apply List.ne_nil_of_length_pos
  cases op <;> simp_all [operands, NodeKind.arity, NodeKind.Arity.allows] <;> omega

theorem le_operandType (ht : t ∈ op.operands inputs) : t ≤ op.operandType inputs :=
  ValueType.le_trans (le_joinAll ht) (op.le_promote _)

/-- Partial promotion of the operands moves their least upper bound at most to the type that they
are promoted to. -/
theorem joinAll_between
    (h : List.Forall₂ (fun t t' => t ≤ t' ∧ t' ≤ op.operandType inputs)
      (op.operands inputs) (op.operands inputs')) :
    joinAll (op.operands inputs) ≤ joinAll (op.operands inputs') ∧
      joinAll (op.operands inputs') ≤ op.operandType inputs := by
  refine ⟨joinAll_mono (h.imp fun _ _ hle => hle.1), ?_⟩
  by_cases hnil : op.operands inputs' = []
  · -- there are no operands on either side
    rw [hnil] at h
    rw [operandType, List.forall₂_nil_right_iff.1 h, hnil]
    exact op.le_promote _
  · rw [joinAll_le_iff hnil]
    intro u hu
    obtain ⟨t, -, -, hle⟩ := exists_of_mem_left h.flip hu
    exact hle

/-- **Promotion is stable.**  For any number of operands the type that they are promoted to is above
each of them, it grows with them, and it does not depend on their order.  It stays the same when
operands are replaced by types between their own and it.  If there are operands, as there are
whenever the number of inputs is allowed, it is what the table of the operator makes of their least
upper bound.  The condition of a choice has no part in any of this. -/
theorem operandType_stable (op : Operator) (inputs : List ValueType) :
    (∀ t ∈ op.operands inputs, t ≤ op.operandType inputs) ∧
    (∀ inputs', List.Forall₂ (· ≤ ·) (op.operands inputs) (op.operands inputs') →
      op.operandType inputs ≤ op.operandType inputs') ∧
    (∀ inputs', (op.operands inputs).Perm (op.operands inputs') →
      op.operandType inputs' = op.operandType inputs) ∧
    (∀ inputs', List.Forall₂ (fun t t' => t ≤ t' ∧ t' ≤ op.operandType inputs)
        (op.operands inputs) (op.operands inputs') →
      op.operandType inputs' = op.operandType inputs) ∧
    (op.operands inputs ≠ [] →
      ∃ s, ValueType.IsSupremum (op.operands inputs) s ∧ op.operandType inputs = op.promote s) ∧
    ((NodeKind.operator op).arity.allows inputs.length = true → op.operands inputs ≠ []) := by
  refine ⟨fun t ht => le_operandType ht, ?_, ?_, ?_, ?_, operands_ne_nil⟩
  · intro inputs' hle
    exact op.promote_mono (joinAll_mono hle)
  · intro inputs' hperm
    exact congrArg op.promote (joinAll_perm hperm).symm
  · intro inputs' hbetween
    obtain ⟨hlower, hupper⟩ := joinAll_between hbetween
    exact promote_eq_of_between hlower hupper
  · intro hne
    exact ⟨_, joinAll_isSupremum hne, rfl⟩

/-- A sum of a truth value and a probability is a positive real, which is more than either asks for.
It stays one if the addends change places, and if one or both are widened on the way. -/
theorem operandType_stable_addends :
    joinAll [.bool, .probability] = .probability ∧
      operandType .addition [.bool, .probability] = .positiveReal ∧
      operandType .addition [.probability, .bool] = .positiveReal ∧
      operandType .addition [.natural, .probability] = .positiveReal ∧
      operandType .addition [.natural, .positiveReal] = .positiveReal := by
  obtain ⟨-, -, hperm, hbetween, -, -⟩ := operandType_stable .addition [.bool, .probability]
  refine ⟨rfl, rfl, hperm _ (.swap ..), hbetween _ (.cons ?_ (.cons ?_ .nil)),
    hbetween _ (.cons ?_ (.cons ?_ .nil))⟩
  all_goals decide

end Operator

end Stochastic
