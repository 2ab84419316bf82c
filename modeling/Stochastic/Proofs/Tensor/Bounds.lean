import Stochastic.Tensor.Printer
import Stochastic.Proofs.Tensor.Elementwise

/-!
# Reading within the elements

Printing a tensor cuts its elements into slices, and combining two tensors reads their elements at
computed places.  Here the same is done with slices and places that have to be there: a slice that
reaches beyond the elements, or a place behind them, makes the whole fail.  For a tensor that has
as many elements as its shape says nothing fails, so all that is read is there.

A tensor with fewer elements than its shape says cannot be printed this way once it has more than
one axis.

## Main definitions

* `slice?` — a slice of a list that must be there.
* `Tensor.block?`, `Tensor.text?` — printing with such slices.
* `Tensor.zipWithin?` — an operation on the elements of two tensors, all of which must be there.

## Main results

* `Tensor.block?_eq`, `Tensor.text?_eq` — when the slices are there, and that then the text is the
  same.
* `Tensor.zipWithin?_eq` — the elements of well formed tensors are there.
-/

namespace Stochastic

variable {α β γ : Type}

/-- The members of a list from `start` to before `stop`, if it has them. -/
def slice? (as : List α) (start stop : Nat) : Option (List α) :=
  if start ≤ stop ∧ stop ≤ as.length then some ((as.drop start).take (stop - start)) else none

namespace Tensor

variable {n stride i : Nat} {texts : List String}

/-! ## Printing -/

/-- The elements of a sub-tensor in brackets, where each slice must be there. -/
def block? (depth : Nat) : List Nat → List String → Option String
  | [], _ => none
  | [n], texts => some (block depth [n] texts)
  | n :: m :: shape, texts => do
    let stride := volume (m :: shape)
    let parts ← (List.range n).mapM fun i => do
      let part ← slice? texts (i * stride) ((i + 1) * stride)
      block? (depth + 1) (m :: shape) part
    return "[" ++ (separator (shape.length + 1) depth).intercalate parts ++ "]"

/-- The text of a tensor, where each slice of its elements must be there. -/
def text? (t : Tensor Float) : Option String :=
  if t.shape.isEmpty then some t.text
  else (block? 0 t.shape (cells t.data)).map fun body => "tensor(" ++ body ++ ")"

theorem length_cells (data : List Float) : (cells data).length = data.length := by
  simp [cells]

theorem succ_mul_le (hi : i < n) (h : n * stride ≤ texts.length) :
    i * stride + stride ≤ texts.length := by
  have hstop := Nat.le_trans (Nat.mul_le_mul_right stride hi) h
  rwa [Nat.succ_mul] at hstop

/-- A slice along the outermost axis, if there is room for all of them. -/
theorem slice?_stride (hi : i < n) (h : n * stride ≤ texts.length) :
    slice? texts (i * stride) ((i + 1) * stride) =
      some ((texts.drop (i * stride)).take stride) := by
  rw [slice?, Nat.succ_mul, if_pos ⟨Nat.le_add_right _ _, succ_mul_le hi h⟩,
    Nat.add_sub_cancel_left]

theorem length_slice (hi : i < n) (h : n * stride ≤ texts.length) :
    ((texts.drop (i * stride)).take stride).length = stride := by
  have hstop := succ_mul_le hi h
  rw [List.length_take, List.length_drop]
  omega

/-- **The slices are there exactly if there are enough elements**, or only one axis.  Then the
text is the one that is printed. -/
theorem block?_eq (depth n : Nat) (shape : List Nat) (texts : List String) :
    block? depth (n :: shape) texts =
      if shape = [] ∨ volume (n :: shape) ≤ texts.length then some (block depth (n :: shape) texts)
      else none := by
  induction shape generalizing depth n texts with
  | nil => simp [block?]
  | cons m shape ih =>
    let stride := volume (m :: shape)
    let part? : Nat → Option String := fun i => do
      let part ← slice? texts (i * stride) ((i + 1) * stride)
      block? (depth + 1) (m :: shape) part
    have hblock : block? depth (n :: m :: shape) texts = ((List.range n).mapM part?).map
        fun parts => "[" ++ (separator (shape.length + 1) depth).intercalate parts ++ "]" := by
      rw [block?, Option.map_eq_bind]
      rfl
    rw [hblock, volume_cons n (m :: shape)]
    by_cases h : n * stride ≤ texts.length
    · -- each slice has just the elements of its sub-tensor
      have hpart : ∀ i ∈ List.range n, part? i =
          some (block (depth + 1) (m :: shape) ((texts.drop (i * stride)).take stride)) := by
        intro i hi
        rw [List.mem_range] at hi
        simp only [part?, slice?_stride hi h, bind, Option.bind_some]
        rw [ih, length_slice hi h, if_pos (.inr le_rfl)]
      rw [if_pos (.inr h), mapM_eq_some_map hpart]
      rfl
    · -- the last slice reaches beyond the elements
      have hn : n ≠ 0 := by
        rintro rfl
        simp at h
      have hlast : part? (n - 1) = none := by
        have hslice : slice? texts ((n - 1) * stride) ((n - 1 + 1) * stride) = none :=
          if_neg fun hwithin => h (by simpa [Nat.sub_add_cancel (Nat.pos_of_ne_zero hn)]
            using hwithin.2)
        simp only [part?, hslice, bind, Option.bind_none]
      rw [if_neg (by simpa using h)]
      cases hparts : (List.range n).mapM part? with
      | none => rfl
      | some parts =>
        have hsome := isSome_of_mapM hparts (List.mem_range.2 (Nat.sub_one_lt hn))
        rw [hlast] at hsome
        cases hsome

theorem text?_eq (t : Tensor Float) :
    t.text? =
      if t.shape.length ≤ 1 ∨ volume t.shape ≤ t.data.length then some t.text else none := by
  obtain ⟨shape, data⟩ := t
  cases shape with
  | nil => simp [text?]
  | cons n shape =>
    have hone : (n :: shape).length ≤ 1 ↔ shape = [] := by simp
    rw [text?, if_neg (by simp), block?_eq, length_cells]
    simp only [hone, text]
    exact apply_ite (Option.map _) _ _ _

/-- A well formed tensor is printed from slices that are there. -/
theorem WellFormed.text? {t : Tensor Float} (h : t.WellFormed) : t.text? = some t.text := by
  rw [text?_eq, if_pos (.inr (Nat.le_of_eq h))]

/-! ## Combining elements -/

variable {a : Tensor α} {b : Tensor β}

/-- An operation on the elements of two tensors, where each element that is read must be there. -/
def zipWithin? (f : α → β → γ) (a : Tensor α) (b : Tensor β) : Option (Except Error (Tensor γ)) :=
  if a.shape = b.shape then some (zipWith? f a b)
  else
    match broadcast? a.shape b.shape with
    | none => some (.error (.shapeMismatch a.shape b.shape))
    | some shape => do
      let visited := indices shape.reverse (volume shape) (List.replicate shape.length 0)
      let data ← visited.mapM fun index => do
        let x ← a.stretched? index
        let y ← b.stretched? index
        return f x y
      return .ok ⟨shape, data⟩

/-- A well formed tensor shows an element at each index of a shape to which it is stretched. -/
theorem exists_stretched? {ks is : List Nat} (ha : a.WellFormed)
    (hs : Stretches a.shape.reverse ks) (hi : List.Forall₂ (· < ·) is ks) :
    ∃ x, a.stretched? is = some x :=
  ⟨_, List.getElem?_eq_getElem (offset_lt ha hs hi)⟩

/-- The elements that are read of two well formed tensors are there. -/
theorem zipWithin?_eq (f : α → β → γ) (ha : a.WellFormed) (hb : b.WellFormed) :
    zipWithin? f a b = some (zipWith? f a b) := by
  rw [zipWithin?]
  by_cases hshape : a.shape = b.shape
  · rw [if_pos hshape]
  · rw [if_neg hshape, zipWith?, if_neg hshape, zipStretched?]
    cases hcommon : broadcast? a.shape b.shape with
    | none => rfl
    | some shape =>
      obtain ⟨hsa, hsb⟩ := stretches_of_broadcast hcommon
      let pair : List Nat → Option γ := fun index => do
        let x ← a.stretched? index
        let y ← b.stretched? index
        return f x y
      have hpair : ∀ is ∈ visited shape.reverse, ∃ z, pair is = some z := by
        intro is his
        have hwithin := forall₂_of_mem_visited his
        obtain ⟨x, hx⟩ := exists_stretched? ha hsa hwithin
        obtain ⟨y, hy⟩ := exists_stretched? hb hsb hwithin
        exact ⟨f x y, by simp [pair, hx, hy]⟩
      obtain ⟨zs, hzs⟩ := exists_forall₂ hpair
      rw [← mapM_eq_some, visited, volume_reverse, List.length_reverse] at hzs
      have hfiltered := filterMap_of_mapM hzs
      simp only [pair] at hzs hfiltered
      simp only [hzs, hfiltered]
      rfl

end Tensor

end Stochastic
