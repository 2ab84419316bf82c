import Mathlib.Tactic.ByContra
import Stochastic.Node.Key
import Stochastic.Node.Typing

/-!
# Widening an input

A node asks its inputs to be of a type that depends on the types of the inputs.  If one
input is widened to what is asked of it, then the node asks the same as before and is of
the same type: the types that operands are promoted to are fixed points of promotion.

The other way to change an input is to put a constant in place of one with the same key.
Such constants are of the same type.

## Main results

* `NodeKind.requirements_infer_set` — what a node asks for and its type stay when an input is
  widened to what is asked of it.
* `ValueType.classify_eq_of_key_eq` — constants with one key are of one type.
-/

namespace Stochastic

/-! ## Constants with one key -/

namespace ValueType

theorem eq_of_toBits_eq {x y : Float} (h : x.toBits = y.toBits) : x = y := by
  obtain ⟨⟨xbits, hx⟩⟩ := x
  obtain ⟨⟨ybits, hy⟩⟩ := y
  cases h
  rfl

theorem unpack_of_isNaN {x : Float} (h : x.isNaN = true) : x.toModel.unpack = .notANumber := by
  revert h
  unfold Float.isNaN Float.Model.isNaN
  cases x.toModel.unpack with
  | notANumber => exact fun _ => rfl
  | _ => nofun

theorem not_le_of_isNaN {x : Float} (h : x.isNaN = true) (y : Float) : ¬ y ≤ x := by
  have hcompare : y.toModel.unpack.compare .notANumber = none := by
    cases y.toModel.unpack <;> rfl
  change ¬ decide (y.toModel.unpack.le x.toModel.unpack = true) = true
  rw [unpack_of_isNaN h, Float.Model.UnpackedFloat.le, hcompare]
  decide

theorem beq_of_isNaN {x : Float} (h : x.isNaN = true) (y : Float) : (x == y) = false := by
  change x.toModel.unpack.beq y.toModel.unpack = false
  rw [unpack_of_isNaN h]
  rfl

/-- A NaN compares with nothing, so it is only real. -/
theorem classifyFloat_of_isNaN {x : Float} (h : x.isNaN = true) : classifyFloat x = .real := by
  have hle : ¬ (0 : Float) ≤ x := not_le_of_isNaN h 0
  simp [classifyFloat, hle, beq_of_isNaN h]

theorem floatKey_of_beq_zero {x : Float} (h : (x == 0) = true) : floatKey x = 0 := by
  rw [floatKey, if_pos h]

theorem floatKey_of_isNaN {x : Float} (h : x.isNaN = true) :
    floatKey x = 0x7ff8000000000000 := by
  rw [floatKey, beq_of_isNaN h, if_neg Bool.false_ne_true, if_pos h]

theorem floatKey_eq_toBits {x : Float} (hzero : ¬ (x == 0) = true) (hnan : ¬ x.isNaN = true) :
    floatKey x = x.toBits := by
  rw [floatKey, if_neg hzero, if_neg hnan]

theorem beq_zero_of_floatKey {x : Float} (h : floatKey x = 0) : (x == 0) = true := by
  by_contra hzero
  by_cases hnan : x.isNaN = true
  · simp [floatKey_of_isNaN hnan] at h
  · -- the only float with these bits is the zero without a sign
    have hx : x = 0 := eq_of_toBits_eq ((floatKey_eq_toBits hzero hnan).symm.trans h)
    exact hzero (by rw [hx]; decide)

theorem isNaN_of_floatKey {x : Float} (h : floatKey x = 0x7ff8000000000000) :
    x.isNaN = true := by
  by_contra hnan
  by_cases hzero : (x == 0) = true
  · simp [floatKey_of_beq_zero hzero] at h
  · have hx : x = .ofBits 0x7ff8000000000000 :=
      eq_of_toBits_eq ((floatKey_eq_toBits hzero hnan).symm.trans h)
    exact hnan (by rw [hx]; decide)

/-- Floats have one key exactly if they are the same, or both are zeros, or both are NaNs. -/
theorem floatKey_eq_iff {x y : Float} :
    floatKey x = floatKey y ↔ x.toBits = y.toBits ∨ ((x == 0) = true ∧ (y == 0) = true) ∨
      (x.isNaN = true ∧ y.isNaN = true) := by
  constructor
  · intro h
    by_cases hzero : (x == 0) = true
    · exact .inr (.inl ⟨hzero, beq_zero_of_floatKey (h ▸ floatKey_of_beq_zero hzero)⟩)
    by_cases hnan : x.isNaN = true
    · exact .inr (.inr ⟨hnan, isNaN_of_floatKey (h ▸ floatKey_of_isNaN hnan)⟩)
    -- the key of the first float is neither that of the zeros nor that of the NaNs
    have hzero' : ¬ (y == 0) = true := fun hy =>
      hzero (beq_zero_of_floatKey (h.trans (floatKey_of_beq_zero hy)))
    have hnan' : ¬ y.isNaN = true := fun hy =>
      hnan (isNaN_of_floatKey (h.trans (floatKey_of_isNaN hy)))
    rw [floatKey_eq_toBits hzero hnan, floatKey_eq_toBits hzero' hnan'] at h
    exact .inl h
  · rintro (h | ⟨hx, hy⟩ | ⟨hx, hy⟩)
    · rw [eq_of_toBits_eq h]
    · rw [floatKey_of_beq_zero hx, floatKey_of_beq_zero hy]
    · rw [floatKey_of_isNaN hx, floatKey_of_isNaN hy]

/-- Floats with one key are of one type. -/
theorem classifyFloat_eq_of_floatKey_eq {x y : Float} (h : floatKey x = floatKey y) :
    classifyFloat x = classifyFloat y := by
  rcases floatKey_eq_iff.1 h with h | ⟨hx, hy⟩ | ⟨hx, hy⟩
  · rw [eq_of_toBits_eq h]
  · simp [classifyFloat, hx, hy]
  · rw [classifyFloat_of_isNaN hx, classifyFloat_of_isNaN hy]

/-- Constants with one key are of one type. -/
theorem classify_eq_of_key_eq {v w : Tensor Float} (h : v.key = w.key) :
    classify v = classify w := by
  have hdata : v.data.map floatKey = w.data.map floatKey := congrArg Tensor.Key.bits h
  unfold classify
  generalize v.data = xs at hdata
  generalize w.data = ys at hdata
  -- only the type of a value with exactly one element depends on the element
  match xs, ys with
  | [], [] => rfl
  | [x], [y] => exact classifyFloat_eq_of_floatKey_eq (by simpa using hdata)
  | _ :: _ :: _, _ :: _ :: _ => rfl
  | [], _ :: _ | _ :: _, [] | [_], _ :: _ :: _ | _ :: _ :: _, [_] => simp at hdata

end ValueType

/-! ## Promotion -/

namespace Operator

theorem foldl_join_le_iff (t : ValueType) (ts : List ValueType) (u : ValueType) :
    ts.foldl ValueType.join t ≤ u ↔ ∀ s ∈ t :: ts, s ≤ u := by
  induction ts generalizing t with
  | nil => simp
  | cons s ts ih =>
    rw [List.foldl_cons, ih]
    simp only [List.forall_mem_cons, ValueType.join_le_iff, and_assoc]

theorem joinAll_le_iff {ts : List ValueType} (h : ts ≠ []) (u : ValueType) :
    joinAll ts ≤ u ↔ ∀ t ∈ ts, t ≤ u := by
  cases ts with
  | nil => exact absurd rfl h
  | cons t ts => exact foldl_join_le_iff t ts u

theorem le_joinAll {ts : List ValueType} {t : ValueType} (h : t ∈ ts) : t ≤ joinAll ts :=
  (joinAll_le_iff (List.ne_nil_of_mem h) _).1 (ValueType.le_refl _) t h

theorem le_promote (op : Operator) (t : ValueType) : t ≤ op.promote t := by
  cases op <;> cases t <;> decide

theorem promote_promote (op : Operator) (t : ValueType) :
    op.promote (op.promote t) = op.promote t := by
  cases op <;> cases t <;> rfl

/-- Operands are promoted to the same type after one of them has been widened to it. -/
theorem promote_joinAll_set (op : Operator) (ts : List ValueType) (k : Nat) :
    op.promote (joinAll (ts.set k (op.promote (joinAll ts)))) = op.promote (joinAll ts) := by
  by_cases hk : k < ts.length
  · have hjoin : joinAll (ts.set k (op.promote (joinAll ts))) = op.promote (joinAll ts) := by
      apply ValueType.le_antisymm
      · rw [joinAll_le_iff (by simpa using List.ne_nil_of_length_pos (by omega))]
        intro t ht
        rcases List.mem_or_eq_of_mem_set ht with ht | rfl
        · exact ValueType.le_trans (le_joinAll ht) (op.le_promote _)
        · exact ValueType.le_refl _
      · exact le_joinAll (List.mem_set hk _)
    rw [hjoin, promote_promote]
  · rw [List.set_eq_of_length_le (by omega)]

theorem operandType_set {op : Operator} (h : op ≠ .ifThenElse) (ts : List ValueType) (k : Nat) :
    op.operandType (ts.set k (op.operandType ts)) = op.operandType ts := by
  have hoperands : ∀ ts : List ValueType, op.operands ts = ts := by
    cases op <;> first | exact absurd rfl h | exact fun _ => rfl
  simp only [operandType, hoperands]
  exact op.promote_joinAll_set ts k

/-- The condition of a choice is not an operand. -/
theorem operandType_ifThenElse_set (ts : List ValueType) (k : Nat) :
    operandType .ifThenElse (ts.set (k + 1) (operandType .ifThenElse ts)) =
      operandType .ifThenElse ts := by
  simpa [operandType, operands, List.drop_set] using
    promote_joinAll_set .ifThenElse (ts.drop 1) k

end Operator

namespace NodeKind

variable {kind : NodeKind} {ts : List ValueType} {k : Nat} {t : ValueType}

theorem set_of_map_exact (h : (ts.map Requirement.exact)[k]? = some (.exact t)) :
    ts.set k t = ts := by
  have hk : ts[k]? = some t := by simpa using h
  obtain ⟨hlt, rfl⟩ := List.getElem?_eq_some_iff.1 hk
  exact List.set_getElem_self hlt

theorem eq_of_map_const {ts : List ValueType} {u : ValueType}
    (h : (ts.map fun _ => Requirement.exact u)[k]? = some (.exact t)) : u = t := by
  rw [List.getElem?_map] at h
  cases hk : ts[k]? <;> simp_all

/-- What is asked of the inputs and the type of the node stay when an input is widened to
what is asked of it. -/
theorem requirements_infer_set (h : (kind.requirements ts)[k]? = some (.exact t)) :
    kind.requirements (ts.set k t) = kind.requirements ts ∧
      kind.infer (ts.set k t) = kind.infer ts := by
  cases kind with
  | constant value declared => simp [requirements] at h
  | distribution f => exact ⟨rfl, rfl⟩
  | sample | observation _ | query =>
    -- what passes a value on asks for the type that its input has
    rw [set_of_map_exact h]
    exact ⟨rfl, rfl⟩
  | conversion c =>
    rw [requirements, List.getElem?_map] at h
    cases hk : ts[k]? <;> simp [hk] at h
  | operator op =>
    -- the type that operands are promoted to is asked of each operand
    cases op with
    | ifThenElse =>
      cases k with
      | zero => cases ts <;> exact ⟨rfl, rfl⟩
      | succ k =>
        have ht : Operator.operandType .ifThenElse ts = t := eq_of_map_const h
        subst ht
        simp only [requirements, infer, Operator.operandType_ifThenElse_set, List.map_const',
          List.length_drop, List.length_set, and_self]
    | _ =>
      cases eq_of_map_const h
      simp only [requirements, infer, List.map_const', List.length_set]
      rw [Operator.operandType_set (by decide)]
      exact ⟨rfl, rfl⟩

end NodeKind

end Stochastic
