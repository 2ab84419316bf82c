import Mathlib.Data.List.Basic
import Stochastic.Tensor.Broadcast

/-!
# Common shapes

Two shapes are laid over each other so that their innermost axes meet, and the shorter one is
continued outwards by axes of length one.  They have a common shape unless two different
lengths meet of which neither is one.  An axis of length one takes on any length, zero
included, so that having a common shape is not a matter of which length is larger.

Combining shapes is commutative and associative, the shape without axes is neutral, and a shape
combined with itself is that shape.  All of this holds axis by axis.

## Main definitions

* `aligned` — the lengths that meet, outermost axis first.
* `Clash`, `commonShape` — whether two shapes have no common shape, and the one they have.
* `Stretches` — a shape can be stretched to another.

## Main results

* `broadcast?_eq` — the common shape, read off the aligned lengths.
* `broadcast?_comm`, `broadcast?_self`, `broadcast?_nil`, `broadcast?_assoc` — the laws of
  combining shapes.
* `stretches_of_joinShapes` — both shapes can be stretched to their common shape.
-/

namespace Stochastic

variable {k m n : Nat} {ks ls ms ns : List Nat}

/-! ## Lengths that meet -/

/-- The lengths of the axes that meet, outermost first: the shapes end together, and missing
outer axes count as axes of length one. -/
def aligned (ms ns : List Nat) : List (Nat × Nat) :=
  (ms.leftpad (max ms.length ns.length) 1).zip (ns.leftpad (max ms.length ns.length) 1)

/-- Two different lengths of which neither is one. -/
def Incompatible (p : Nat × Nat) : Prop := p.1 ≠ p.2 ∧ p.1 ≠ 1 ∧ p.2 ≠ 1

instance (p : Nat × Nat) : Decidable (Incompatible p) :=
  inferInstanceAs (Decidable (_ ∧ _ ∧ _))

/-- Two different lengths meet of which neither is one. -/
def Clash (ms ns : List Nat) : Prop := ∃ p ∈ aligned ms ns, Incompatible p

instance (ms ns : List Nat) : Decidable (Clash ms ns) :=
  inferInstanceAs (Decidable (∃ p ∈ aligned ms ns, Incompatible p))

/-- The length that is not one, or the common length. -/
def jointLength (p : Nat × Nat) : Nat := if p.1 = 1 then p.2 else p.1

/-- The common shape of shapes that do not clash. -/
def commonShape (ms ns : List Nat) : List Nat := (aligned ms ns).map jointLength

theorem joinAxis_eq (m n : Nat) :
    joinAxis m n = if Incompatible (m, n) then none else some (jointLength (m, n)) := by
  unfold joinAxis Incompatible jointLength
  dsimp only
  by_cases hmn : m = n
  · by_cases hm : m = 1 <;> simp [hmn]
  · by_cases hm : m = 1
    · simp [hm]
    · by_cases hn : n = 1 <;> simp [hmn, hm, hn]

/-- The lengths that meet, innermost axis first. -/
def matched : List Nat → List Nat → List (Nat × Nat)
  | [], ns => ns.map (1, ·)
  | ms, [] => ms.map (·, 1)
  | m :: ms, n :: ns => (m, n) :: matched ms ns

theorem matched_nil (ms : List Nat) : matched ms [] = ms.map (·, 1) := by
  cases ms <;> rfl

theorem matched_eq_zip (ms ns : List Nat) :
    matched ms ns = (ms.rightpad (max ms.length ns.length) 1).zip
      (ns.rightpad (max ms.length ns.length) 1) := by
  have hones : ∀ ks : List Nat, (List.replicate ks.length 1).zip ks = ks.map (1, ·) := by
    intro ks
    induction ks with
    | nil => rfl
    | cons k ks ih => simp [List.replicate_succ, ih]
  have hones' : ∀ ks : List Nat, ks.zip (List.replicate ks.length 1) = ks.map (·, 1) := by
    intro ks
    induction ks with
    | nil => rfl
    | cons k ks ih => simp [List.replicate_succ, ih]
  induction ms generalizing ns with
  | nil => simpa [matched, List.rightpad] using (hones ns).symm
  | cons m ms ih =>
    cases ns with
    | nil => simpa [matched, List.rightpad] using (hones' (m :: ms)).symm
    | cons n ns => simp [matched, List.rightpad, ih]

theorem aligned_eq_reverse (ms ns : List Nat) :
    aligned ms ns = (matched ms.reverse ns.reverse).reverse := by
  have hlength : ∀ (r : Nat) (ks : List Nat), ks.length ≤ r → (ks.rightpad r 1).length = r := by
    intro r ks hks
    simp [List.rightpad]
    omega
  have hreverse : ∀ (r : Nat) (ks : List Nat),
      (ks.reverse.rightpad r 1).reverse = ks.leftpad r 1 := by
    intro r ks
    simp [List.rightpad, List.leftpad]
  rw [matched_eq_zip, List.zip_eq_zipWith, List.reverse_zipWith, hreverse, hreverse, aligned,
    List.length_reverse, List.length_reverse, List.zip_eq_zipWith]
  rw [hlength _ _ (by rw [List.length_reverse]; exact Nat.le_max_left _ _),
    hlength _ _ (by rw [List.length_reverse]; exact Nat.le_max_right _ _)]

theorem joinShapes_cons (m n : Nat) (ms ns : List Nat) :
    joinShapes (m :: ms) (n :: ns) =
      (joinAxis m n).bind fun k => (joinShapes ms ns).map (k :: ·) := by
  rw [joinShapes]
  cases joinAxis m n with
  | none => rfl
  | some k => cases joinShapes ms ns <;> rfl

@[simp] theorem joinShapes_nil (ms : List Nat) : joinShapes ms [] = some ms := by
  cases ms <;> rfl

@[simp] theorem nil_joinShapes (ns : List Nat) : joinShapes [] ns = some ns := rfl

theorem joinShapes_eq (ms ns : List Nat) :
    joinShapes ms ns =
      if ∃ p ∈ matched ms ns, Incompatible p then none
      else some ((matched ms ns).map jointLength) := by
  induction ms generalizing ns with
  | nil => simp [matched, Incompatible, jointLength, Function.comp_def]
  | cons m ms ih =>
    cases ns with
    | nil =>
      have hjoint : jointLength ∘ (·, 1) = id := by
        funext k
        by_cases hk : k = 1 <;> simp [jointLength, hk]
      have hmap : ((m :: ms).map (·, 1)).map jointLength = m :: ms := by
        rw [List.map_map, hjoint, List.map_id]
      rw [joinShapes_nil, matched_nil, hmap, if_neg]
      simp [Incompatible]
    | cons n ns =>
      rw [joinShapes_cons, joinAxis_eq, ih, matched, List.map_cons]
      by_cases hmn : Incompatible (m, n)
      · simp [hmn]
      · by_cases hrest : ∃ p ∈ matched ms ns, Incompatible p
        · simp [hmn, hrest]
        · simp [hmn, hrest]

/-- **The common shape.**  There is one unless two different lengths meet of which neither is
one, and then each axis has the length that is not one. -/
theorem broadcast?_eq (ms ns : List Nat) :
    broadcast? ms ns = if Clash ms ns then none else some (commonShape ms ns) := by
  have hclash : Clash ms ns ↔ ∃ p ∈ matched ms.reverse ns.reverse, Incompatible p := by
    simp [Clash, aligned_eq_reverse]
  rw [broadcast?, joinShapes_eq, commonShape, aligned_eq_reverse, List.map_reverse]
  by_cases h : Clash ms ns
  · rw [if_pos h, if_pos (hclash.1 h), Option.map_none]
  · rw [if_neg h, if_neg (mt hclash.2 h), Option.map_some]

/-! ## Laws -/

theorem joinAxis_comm (m n : Nat) : joinAxis m n = joinAxis n m := by
  unfold joinAxis
  grind

@[simp] theorem joinAxis_self (n : Nat) : joinAxis n n = some n := by
  simp [joinAxis]

@[simp] theorem one_joinAxis (n : Nat) : joinAxis 1 n = some n := by
  by_cases hn : 1 = n <;> simp [joinAxis, hn]

@[simp] theorem joinAxis_one (n : Nat) : joinAxis n 1 = some n := by
  rw [joinAxis_comm, one_joinAxis]

theorem joinAxis_of_ne_one (hm : m ≠ 1) (hn : n ≠ 1) :
    joinAxis m n = if m = n then some m else none := by
  rw [joinAxis, if_neg hm, if_neg hn]

theorem joinAxis_assoc (k m n : Nat) :
    (joinAxis k m).bind (joinAxis · n) = (joinAxis m n).bind (joinAxis k) := by
  by_cases hk : k = 1
  · subst hk
    cases h : joinAxis m n <;> simp [h]
  by_cases hm : m = 1
  · simp [hm]
  by_cases hn : n = 1
  · simp [hn]
  -- lengths other than one can only be combined with themselves
  rw [joinAxis_of_ne_one hk hm, joinAxis_of_ne_one hm hn]
  by_cases hkm : k = m
  · subst hkm
    by_cases hkn : k = n <;> simp [hkn, joinAxis_of_ne_one hk hn]
  · by_cases hmn : m = n
    · simp [hmn, joinAxis_of_ne_one hk hn, show k ≠ n from hmn ▸ hkm]
    · simp [hkm, hmn]

theorem joinShapes_comm (ms ns : List Nat) : joinShapes ms ns = joinShapes ns ms := by
  induction ms generalizing ns with
  | nil => simp
  | cons m ms ih =>
    cases ns with
    | nil => simp
    | cons n ns => rw [joinShapes_cons, joinShapes_cons, joinAxis_comm, ih]

theorem joinShapes_self (ns : List Nat) : joinShapes ns ns = some ns := by
  induction ns with
  | nil => rfl
  | cons n ns ih => simp [joinShapes_cons, ih]

/-- The axes of three shapes are combined independently of each other. -/
theorem joinShapes_assoc (ks ms ns : List Nat) :
    (joinShapes ks ms).bind (joinShapes · ns) = (joinShapes ms ns).bind (joinShapes ks) := by
  induction ks generalizing ms ns with
  | nil => cases h : joinShapes ms ns <;> simp [h]
  | cons k ks ih =>
    cases ms with
    | nil => simp
    | cons m ms =>
      cases ns with
      | nil => simp
      | cons n ns =>
        -- both sides first combine the innermost axes and then the others
        have hleft : (joinShapes (k :: ks) (m :: ms)).bind (joinShapes · (n :: ns)) =
            ((joinAxis k m).bind (joinAxis · n)).bind fun l =>
              ((joinShapes ks ms).bind (joinShapes · ns)).map (l :: ·) := by
          rw [joinShapes_cons]
          cases joinAxis k m <;> cases joinShapes ks ms <;> simp [joinShapes_cons]
        have hright : (joinShapes (m :: ms) (n :: ns)).bind (joinShapes (k :: ks)) =
            ((joinAxis m n).bind (joinAxis k)).bind fun l =>
              ((joinShapes ms ns).bind (joinShapes ks)).map (l :: ·) := by
          rw [joinShapes_cons]
          cases joinAxis m n <;> cases joinShapes ms ns <;> simp [joinShapes_cons]
        rw [hleft, hright, joinAxis_assoc, ih]

theorem broadcast?_comm (ms ns : List Nat) : broadcast? ms ns = broadcast? ns ms := by
  rw [broadcast?, broadcast?, joinShapes_comm]

theorem broadcast?_self (ns : List Nat) : broadcast? ns ns = some ns := by
  simp [broadcast?, joinShapes_self]

theorem broadcast?_nil (ns : List Nat) : broadcast? [] ns = some ns := by
  simp [broadcast?]

theorem broadcast?_assoc (ks ms ns : List Nat) :
    (broadcast? ks ms).bind (broadcast? · ns) = (broadcast? ms ns).bind (broadcast? ks) := by
  have h := congrArg (Option.map List.reverse)
    (joinShapes_assoc ks.reverse ms.reverse ns.reverse)
  rw [Option.map_bind, Option.map_bind] at h
  unfold broadcast?
  rw [Option.bind_map, Option.bind_map]
  simpa only [Function.comp_def, List.reverse_reverse] using h

/-! ## Stretching -/

/-- A shape can be stretched to another: each of its axes has length one or the same length as
the axis that it meets.  Both are listed innermost axis first. -/
def Stretches : List Nat → List Nat → Prop
  | [], _ => True
  | _ :: _, [] => False
  | m :: ms, k :: ks => (m = 1 ∨ m = k) ∧ Stretches ms ks

theorem Stretches.refl (ns : List Nat) : Stretches ns ns := by
  induction ns with
  | nil => trivial
  | cons n ns ih => exact ⟨.inr rfl, ih⟩

/-- A shape can be stretched to what it has in common with another. -/
theorem stretches_of_joinShapes (h : joinShapes ms ns = some ks) : Stretches ms ks := by
  induction ms generalizing ns ks with
  | nil => trivial
  | cons m ms ih =>
    cases ns with
    | nil =>
      cases h
      exact .refl _
    | cons n ns =>
      rw [joinShapes_cons, Option.bind_eq_some_iff] at h
      obtain ⟨k, hk, hrest⟩ := h
      obtain ⟨ks, hks, rfl⟩ := Option.map_eq_some_iff.1 hrest
      refine ⟨?_, ih hks⟩
      unfold joinAxis at hk
      grind

theorem stretches_of_broadcast (h : broadcast? ms ns = some ks) :
    Stretches ms.reverse ks.reverse ∧ Stretches ns.reverse ks.reverse := by
  obtain ⟨ls, hls, rfl⟩ := Option.map_eq_some_iff.1 h
  rw [List.reverse_reverse]
  exact ⟨stretches_of_joinShapes hls, stretches_of_joinShapes (joinShapes_comm _ _ ▸ hls)⟩

end Stochastic
