import Mathlib.Data.List.Forall2
import Mathlib.Tactic.Ring
import Stochastic.Proofs.Tensor.Shape

/-!
# Indices and places

An index has one number for each axis of a shape, below the length of the axis.  In row-major
order each index has a place, and the places of the indices of a shape are the numbers below
its volume.  Advancing an index moves it to the next place, so the indices that follow the
first one are all indices of the shape, each once and in order.

A tensor that is stretched to a shape is read at what an index of that shape comes to in the
tensor's own shape: outer axes that the tensor does not have are dropped, and an axis of
length one is read at its only number.  The strides of a shape lead to the place of just this
index.

## Main definitions

* `position` — the place of an index, outermost axis first.
* `narrowed` — what an index of the common shape comes to in a shape, outermost axis first.
* `place`, `clamped` — the same for shapes and indices listed innermost axis first.

## Main results

* `place_advance`, `getElem?_indices_from` — one step to the next index, and all steps.
* `offset_strides` — where the strides lead.
* `place_clamped_lt` — reading a stretched tensor stays within its elements.
* `narrowed_narrowed` — stretching in two steps is stretching in one.
-/

namespace Stochastic

variable {k : Nat} {is js ks ls ms ns : List Nat}

/-! ## Places -/

/-- The place of an index in row-major order: a step along an axis passes all elements of the
axes further in. -/
def position : (shape index : List Nat) → Nat
  | _ :: ns, i :: is => i * volume ns + position ns is
  | _, _ => 0

/-- The place of an index, where shape and index are listed innermost axis first. -/
def place : (shape index : List Nat) → Nat
  | n :: ns, i :: is => i + n * place ns is
  | _, _ => 0

theorem volume_cons (n : Nat) (ns : List Nat) : volume (n :: ns) = n * volume ns := rfl

theorem volume_append (ms ns : List Nat) : volume (ms ++ ns) = volume ms * volume ns :=
  List.prod_append

@[simp] theorem volume_reverse (ns : List Nat) : volume ns.reverse = volume ns :=
  List.prod_reverse ns

/-- An axis further in multiplies the place. -/
theorem position_concat (h : is.length = ns.length) (n i : Nat) :
    position (ns ++ [n]) (is ++ [i]) = position ns is * n + i := by
  induction ns generalizing is with
  | nil =>
    obtain rfl := List.length_eq_zero_iff.1 h
    simp [position, volume]
  | cons m ns ih =>
    cases is with
    | nil => cases h
    | cons j is =>
      have hvolume : volume [n] = n := Nat.mul_one n
      simp only [List.cons_append, position]
      rw [ih (Nat.succ.inj h), volume_append, hvolume]
      ring

theorem position_reverse (h : is.length = ns.length) :
    position ns.reverse is.reverse = place ns is := by
  induction ns generalizing is with
  | nil =>
    obtain rfl := List.length_eq_zero_iff.1 h
    rfl
  | cons n ns ih =>
    cases is with
    | nil => cases h
    | cons i is =>
      have hlength : is.length = ns.length := Nat.succ.inj h
      rw [List.reverse_cons, List.reverse_cons, position_concat (by simpa using hlength),
        ih hlength, place]
      ring

theorem position_lt (h : List.Forall₂ (· < ·) is ns) : position ns is < volume ns := by
  induction h with
  | nil => exact Nat.one_pos
  | @cons i n is ns hi _ ih =>
    calc i * volume ns + position ns is
      _ < i * volume ns + volume ns := Nat.add_lt_add_left ih _
      _ = (i + 1) * volume ns := (Nat.succ_mul i _).symm
      _ ≤ n * volume ns := Nat.mul_le_mul_right _ hi

theorem place_lt (h : List.Forall₂ (· < ·) is ns) : place ns is < volume ns := by
  induction h with
  | nil => exact Nat.one_pos
  | @cons i n is ns hi _ ih =>
    rw [place, volume_cons]
    have hle : n * (place ns is + 1) ≤ n * volume ns := Nat.mul_le_mul_left n ih
    rw [Nat.mul_add_one] at hle
    omega

/-- Different indices of a shape have different places. -/
theorem place_inj (hi : List.Forall₂ (· < ·) is ns) (hj : List.Forall₂ (· < ·) js ns)
    (h : place ns is = place ns js) : is = js := by
  induction hi generalizing js with
  | nil =>
    cases hj
    rfl
  | @cons i n is ns hi _ ih =>
    cases hj with
    | @cons j _ js _ hj hjs =>
      simp only [place] at h
      have hpos : 0 < n := Nat.zero_lt_of_lt hi
      have hfirst : i = j := by
        have := congrArg (· % n) h
        simpa [Nat.mod_eq_of_lt hi, Nat.mod_eq_of_lt hj] using this
      have hrest : place ns is = place ns js := by
        have := congrArg (· / n) h
        simpa [Nat.add_mul_div_left, hpos, Nat.div_eq_of_lt hi, Nat.div_eq_of_lt hj] using this
      rw [hfirst, ih hjs hrest]

/-! ## Going through a shape -/

/-- Advancing an index that is not the last moves it to the next place. -/
theorem place_advance (h : List.Forall₂ (· < ·) is ns) (hlast : place ns is + 1 < volume ns) :
    List.Forall₂ (· < ·) (advance ns is) ns ∧ place ns (advance ns is) = place ns is + 1 := by
  induction h with
  | nil => exact absurd hlast (Nat.lt_irrefl 1)
  | @cons i n is ns hi his ih =>
    rw [place, volume_cons] at hlast
    rw [advance]
    by_cases hend : i + 1 < n
    · rw [if_pos hend]
      refine ⟨.cons hend his, ?_⟩
      rw [place, place]
      omega
    · -- the axis starts again, and the next one out moves instead
      obtain rfl : i + 1 = n := by omega
      have hnext : place ns is + 1 < volume ns := by
        apply Nat.lt_of_mul_lt_mul_left (a := i + 1)
        rw [Nat.mul_add_one]
        omega
      obtain ⟨hwithin, hplace⟩ := ih hnext
      rw [if_neg hend]
      refine ⟨.cons (Nat.succ_pos i) hwithin, ?_⟩
      rw [place, place, hplace, Nat.mul_add_one]
      omega

/-- The indices that follow an index stand at the places that follow its place. -/
theorem getElem?_indices_from (count : Nat) (h : List.Forall₂ (· < ·) is ns)
    (hcount : place ns is + count ≤ volume ns) (hk : k < count) :
    ∃ js, (indices ns count is)[k]? = some js ∧ List.Forall₂ (· < ·) js ns ∧
      place ns js = place ns is + k := by
  induction count generalizing is k with
  | zero => exact absurd hk (Nat.not_lt_zero k)
  | succ count ih =>
    cases k with
    | zero => exact ⟨is, rfl, h, rfl⟩
    | succ k =>
      obtain ⟨hwithin, hplace⟩ := place_advance h (by omega)
      obtain ⟨js, hjs, hjw, hjp⟩ := ih hwithin (by omega) (Nat.lt_of_succ_lt_succ hk)
      refine ⟨js, hjs, hjw, ?_⟩
      omega

theorem length_indices (ns : List Nat) (count : Nat) (is : List Nat) :
    (indices ns count is).length = count := by
  induction count generalizing is with
  | zero => rfl
  | succ count ih => rw [indices, List.length_cons, ih]

/-- All indices of a shape, in order. -/
def visited (ns : List Nat) : List (List Nat) :=
  indices ns (volume ns) (List.replicate ns.length 0)

theorem place_zeros (ns : List Nat) : place ns (List.replicate ns.length 0) = 0 := by
  induction ns with
  | nil => rfl
  | cons n ns ih => simp [List.replicate_succ, place, ih]

theorem forall₂_zeros (h : 0 < volume ns) :
    List.Forall₂ (· < ·) (List.replicate ns.length 0) ns := by
  induction ns with
  | nil => exact .nil
  | cons n ns ih =>
    rw [volume_cons] at h
    exact .cons (Nat.pos_of_mul_pos_right h) (ih (Nat.pos_of_mul_pos_left h))

/-- At each number below the volume stands the index that has it as its place. -/
theorem getElem?_visited (hk : k < volume ns) :
    ∃ js, (visited ns)[k]? = some js ∧ List.Forall₂ (· < ·) js ns ∧ place ns js = k := by
  have hzeros := forall₂_zeros (Nat.zero_lt_of_lt hk)
  have hplace := place_zeros ns
  obtain ⟨js, hjs, hjw, hjp⟩ := getElem?_indices_from (volume ns) hzeros (by omega) hk
  exact ⟨js, hjs, hjw, by omega⟩

theorem getElem?_visited_place (h : List.Forall₂ (· < ·) is ns) :
    (visited ns)[place ns is]? = some is := by
  obtain ⟨js, hjs, hjw, hjp⟩ := getElem?_visited (place_lt h)
  rw [hjs, place_inj hjw h hjp]

theorem forall₂_of_mem_visited (h : is ∈ visited ns) : List.Forall₂ (· < ·) is ns := by
  obtain ⟨k, hk⟩ := List.getElem?_of_mem h
  obtain ⟨hlt, -⟩ := List.getElem?_eq_some_iff.1 hk
  rw [visited, length_indices] at hlt
  obtain ⟨js, hjs, hjw, -⟩ := getElem?_visited hlt
  rw [hjs] at hk
  cases hk
  exact hjw

/-! ## Reading a stretched tensor -/

/-- Where an axis is read: one of length one, which may be stretched, at zero. -/
def pinned (length i : Nat) : Nat := if length = 1 then 0 else i

/-- An index of the common shape as an index of a shape that is stretched to it: outer axes that
the shape does not have are dropped, and axes of length one are read at zero. -/
def narrowed (shape index : List Nat) : List Nat :=
  List.zipWith pinned shape (index.drop (index.length - shape.length))

/-- The same, where shapes and indices are listed innermost axis first. -/
def clamped (shape index : List Nat) : List Nat := List.zipWith pinned shape index

@[simp] theorem clamped_cons (n i : Nat) (ns is : List Nat) :
    clamped (n :: ns) (i :: is) = pinned n i :: clamped ns is := rfl

/-- Strides lead to the place of the index that is read. -/
theorem offset_strides (step : Nat) (ns is : List Nat) :
    offset (strides step ns) is = step * place ns (clamped ns is) := by
  induction ns generalizing step is with
  | nil => simp [strides, offset, place]
  | cons n ns ih =>
    cases is with
    | nil => simp [strides, offset, clamped, place]
    | cons i is =>
      rw [strides, offset, ih, clamped_cons, place, pinned]
      by_cases hn : n = 1
      · simp [hn]
      · rw [if_neg hn, if_neg hn]
        ring

/-- The index that is read belongs to the shape that is stretched. -/
theorem forall₂_clamped (h : Stretches ms ks) (hi : List.Forall₂ (· < ·) is ks) :
    List.Forall₂ (· < ·) (clamped ms is) ms := by
  induction ms generalizing ks is with
  | nil => exact .nil
  | cons m ms ih =>
    cases hi with
    | nil => cases h
    | @cons i k is ks hik his =>
      refine .cons ?_ (ih h.2 his)
      rw [pinned]
      rcases h.1 with hm | hm
      · simp [hm]
      · by_cases hm1 : m = 1
        · simp [hm1]
        · rw [if_neg hm1, hm]
          exact hik

/-- Reading a stretched tensor stays within its elements. -/
theorem place_clamped_lt (h : Stretches ms ks) (hi : List.Forall₂ (· < ·) is ks) :
    place ms (clamped ms is) < volume ms :=
  place_lt (forall₂_clamped h hi)

/-- A tensor that is not stretched is read at the index itself. -/
theorem clamped_self (h : List.Forall₂ (· < ·) is ns) : clamped ns is = is := by
  induction h with
  | nil => rfl
  | @cons i n is ns hi _ ih =>
    rw [clamped_cons, ih, pinned]
    by_cases hn : n = 1
    · have hzero : i = 0 := by omega
      rw [if_pos hn, hzero]
    · rw [if_neg hn]

/-- Stretching in two steps reads the same element as stretching in one. -/
theorem clamped_clamped (h : Stretches ls ms) (is : List Nat) :
    clamped ls (clamped ms is) = clamped ls is := by
  induction ls generalizing ms is with
  | nil => rfl
  | cons l ls ih =>
    cases ms with
    | nil => cases h
    | cons m ms =>
      cases is with
      | nil => rfl
      | cons i is =>
        -- an axis of the middle shape has length one only if this one has
        have haxis : pinned l (pinned m i) = pinned l i := by
          rcases h.1 with hl | hl
          · simp [pinned, hl]
          · by_cases hm : m = 1 <;> simp [pinned, hl, hm]
        simp only [clamped_cons, haxis, ih h.2 is]

/-- Narrowing an index is clamping it, seen from the other end. -/
theorem reverse_narrowed (h : ms.length ≤ is.length) :
    (narrowed ms is).reverse = clamped ms.reverse is.reverse := by
  have hlength : ms.length = (is.drop (is.length - ms.length)).length := by
    rw [List.length_drop]
    omega
  rw [narrowed, List.reverse_zipWith hlength, clamped, ← List.take_reverse]
  conv_rhs => rw [List.zipWith_eq_zipWith_take_min]
  conv_lhs => rw [List.zipWith_eq_zipWith_take_min]
  simp [List.take_take, h]

theorem Stretches.length_le (h : Stretches ms ks) : ms.length ≤ ks.length := by
  induction ms generalizing ks with
  | nil => exact Nat.zero_le _
  | cons m ms ih =>
    cases ks with
    | nil => cases h
    | cons k ks => exact Nat.succ_le_succ (ih h.2)

theorem Stretches.reverse_narrowed (h : Stretches ms.reverse ks.reverse)
    (hi : List.Forall₂ (· < ·) is ks) :
    (narrowed ms is).reverse = clamped ms.reverse is.reverse := by
  apply Stochastic.reverse_narrowed
  rw [hi.length_eq]
  simpa using h.length_le

/-- The narrowed index belongs to the shape that is stretched. -/
theorem Stretches.forall₂_narrowed (h : Stretches ms.reverse ks.reverse)
    (hi : List.Forall₂ (· < ·) is ks) : List.Forall₂ (· < ·) (narrowed ms is) ms := by
  rw [← List.forall₂_reverse_iff, h.reverse_narrowed hi]
  exact forall₂_clamped h (List.forall₂_reverse_iff.2 hi)

theorem narrowed_self (h : List.Forall₂ (· < ·) is ns) : narrowed ns is = is := by
  apply List.reverse_injective
  rw [(Stretches.refl ns.reverse).reverse_narrowed h]
  exact clamped_self (List.forall₂_reverse_iff.2 h)

theorem narrowed_narrowed (hls : Stretches ls.reverse ms.reverse)
    (hms : Stretches ms.reverse ks.reverse) (hi : List.Forall₂ (· < ·) is ks) :
    narrowed ls (narrowed ms is) = narrowed ls is := by
  have hlength : ls.length ≤ is.length := by
    have hle := hls.length_le.trans hms.length_le
    rw [List.length_reverse, List.length_reverse] at hle
    rwa [hi.length_eq]
  apply List.reverse_injective
  rw [hls.reverse_narrowed (hms.forall₂_narrowed hi), hms.reverse_narrowed hi,
    clamped_clamped hls, reverse_narrowed hlength]

end Stochastic
