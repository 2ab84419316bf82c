import Stochastic.Proofs.Optional
import Stochastic.Proofs.Tensor.Index

/-!
# Elementwise operations, element by element

What an operation on two tensors of different shapes comes to is said here without strides and
without an order in which elements are visited: there is a result unless the shapes clash, it
has the common shape, and its element at an index is made of the elements that the operands
have at the narrowed index.  In particular every place that is read is there, so no element is
left out; and the short cut for equal shapes does not show.

## Main definitions

* `Tensor.at?` — the element at an index, outermost axis first.
* `Tensor.Elementwise` — what the result of an operation is.

## Main results

* `Tensor.exists_zipStretched` — tensors with a common shape have a result.
* `Tensor.zipWith?_eq_zipStretched?` — the short cut.
* `Tensor.zipWith?_elementwise` — the whole of it.
-/

namespace Stochastic

namespace Tensor

variable {α β γ : Type} {a : Tensor α} {b : Tensor β} {shape index : List Nat}

/-- The element of a tensor at an index, in row-major order. -/
def at? (t : Tensor α) (index : List Nat) : Option α :=
  if List.Forall₂ (· < ·) index t.shape then t.data[position t.shape index]? else none

theorem at?_of_forall₂ {t : Tensor α} (h : List.Forall₂ (· < ·) index t.shape) :
    t.at? index = t.data[place t.shape.reverse index.reverse]? := by
  have hplace : position t.shape.reverse.reverse index.reverse.reverse =
      place t.shape.reverse index.reverse :=
    position_reverse (by simpa using h.length_eq)
  rw [List.reverse_reverse, List.reverse_reverse] at hplace
  rw [at?, if_pos h, hplace]

/-- Tensors of one shape are equal if they have the same elements. -/
theorem ext_at? {t u : Tensor α} (ht : t.WellFormed) (hu : u.WellFormed)
    (hshape : t.shape = u.shape)
    (h : ∀ index, List.Forall₂ (· < ·) index t.shape → t.at? index = u.at? index) : t = u := by
  have hdata : t.data = u.data := by
    apply List.ext_getElem?
    intro k
    by_cases hk : k < volume t.shape
    · -- each place is the place of an index
      rw [← volume_reverse] at hk
      obtain ⟨js, -, hjs, rfl⟩ := getElem?_visited hk
      have hindex : List.Forall₂ (· < ·) js.reverse t.shape := by
        rwa [← List.forall₂_reverse_iff, List.reverse_reverse]
      have heq := h js.reverse hindex
      rw [at?_of_forall₂ hindex, at?_of_forall₂ (hshape ▸ hindex), List.reverse_reverse] at heq
      rw [heq, hshape]
    · unfold WellFormed at ht hu
      rw [List.getElem?_eq_none (by omega), List.getElem?_eq_none (by rw [← hu, ← hshape]; omega)]
  cases t
  cases u
  cases hshape
  cases hdata
  rfl

/-- The strides of a tensor that can be stretched to a shape lead from each index of the shape to
one of its elements. -/
theorem offset_lt {t : Tensor α} {ks is : List Nat} (ht : t.WellFormed)
    (hs : Stretches t.shape.reverse ks) (hi : List.Forall₂ (· < ·) is ks) :
    offset (strides 1 t.shape.reverse) is < t.data.length := by
  have hlt := place_clamped_lt hs hi
  rw [volume_reverse, ht] at hlt
  rwa [offset_strides, Nat.one_mul]

/-- What a tensor shows at an index of the common shape is the element that it has at the
narrowed index. -/
theorem stretched?_eq_at? {t : Tensor α} (hs : Stretches t.shape.reverse shape.reverse)
    (hi : List.Forall₂ (· < ·) index shape) :
    t.stretched? index.reverse = t.at? (narrowed t.shape index) := by
  rw [at?_of_forall₂ (hs.forall₂_narrowed hi), hs.reverse_narrowed hi, stretched?, offset_strides,
    Nat.one_mul]

/-- A tensor is made of two others element by element: it has the common shape, and its element at
an index is made of those that the two have at the narrowed index. -/
structure Elementwise (f : α → β → γ) (a : Tensor α) (b : Tensor β) (t : Tensor γ) : Prop where
  shape : broadcast? a.shape b.shape = some t.shape
  wellFormed : t.WellFormed
  elements : ∀ index, List.Forall₂ (· < ·) index t.shape →
    ∃ x y, a.at? (narrowed a.shape index) = some x ∧ b.at? (narrowed b.shape index) = some y ∧
      t.at? index = some (f x y)

/-- Tensors with a common shape can be put together element by element. -/
theorem exists_zipStretched (f : α → β → γ) (ha : a.WellFormed) (hb : b.WellFormed)
    (h : broadcast? a.shape b.shape = some shape) :
    ∃ t, zipStretched? f a b = .ok t ∧ t.shape = shape ∧ Elementwise f a b t := by
  obtain ⟨hsa, hsb⟩ := stretches_of_broadcast h
  let pair : List Nat → Option γ := fun index => do
    let x ← a.stretched? index
    let y ← b.stretched? index
    return f x y
  have hresult : zipStretched? f a b = .ok ⟨shape, (visited shape.reverse).filterMap pair⟩ := by
    rw [zipStretched?, h, visited, volume_reverse, List.length_reverse]
  have hpair : ∀ is, List.Forall₂ (· < ·) is shape.reverse → ∃ x y, a.stretched? is = some x ∧
      b.stretched? is = some y ∧ pair is = some (f x y) := by
    intro is his
    have hx := List.getElem?_eq_getElem (offset_lt ha hsa his)
    have hy := List.getElem?_eq_getElem (offset_lt hb hsb his)
    exact ⟨_, _, hx, hy, by simp [pair, stretched?, hx, hy]⟩
  -- both operands show an element at each index, so none is left out
  have hsome : ∀ is ∈ visited shape.reverse, (pair is).isSome := by
    intro is his
    obtain ⟨x, y, -, -, hxy⟩ := hpair is (forall₂_of_mem_visited his)
    exact Option.isSome_of_eq_some hxy
  refine ⟨_, hresult, rfl, h, ?_, ?_⟩
  · rw [WellFormed, List.length_filterMap_eq_countP, List.countP_eq_length.2 hsome, visited,
      length_indices, volume_reverse]
  · intro index hindex
    have hreverse := List.forall₂_reverse_iff.2 hindex
    obtain ⟨x, y, hx, hy, hxy⟩ := hpair _ hreverse
    rw [stretched?_eq_at? hsa hindex] at hx
    rw [stretched?_eq_at? hsb hindex] at hy
    refine ⟨x, y, hx, hy, ?_⟩
    rw [at?_of_forall₂ hindex, getElem?_filterMap_of_isSome hsome,
      getElem?_visited_place hreverse, Option.bind_some, hxy]

/-- The short cut for tensors of one shape does not show. -/
theorem zipWith?_eq_zipStretched? (f : α → β → γ) (ha : a.WellFormed) (hb : b.WellFormed) :
    zipWith? f a b = zipStretched? f a b := by
  by_cases hshape : a.shape = b.shape
  · have hself : broadcast? a.shape b.shape = some a.shape := hshape ▸ broadcast?_self a.shape
    obtain ⟨t, ht, hts, hzip⟩ := exists_zipStretched f ha hb hself
    rw [zipWith?, if_pos hshape, ht]
    congr 1
    symm
    apply ext_at? hzip.wellFormed ?_ hts
    · intro index hindex
      obtain ⟨x, y, hx, hy, hxy⟩ := hzip.elements index hindex
      rw [hts] at hindex
      rw [narrowed_self hindex, at?_of_forall₂ hindex] at hx
      rw [narrowed_self (hshape ▸ hindex), at?_of_forall₂ (hshape ▸ hindex), ← hshape] at hy
      have hfast : (⟨a.shape, List.zipWith f a.data b.data⟩ : Tensor γ).at? index =
          (List.zipWith f a.data b.data)[place a.shape.reverse index.reverse]? :=
        at?_of_forall₂ hindex
      rw [hxy, hfast, List.getElem?_zipWith, hx, hy]
    · unfold WellFormed at ha hb ⊢
      rw [List.length_zipWith, ← ha, ← hb, ← hshape, Nat.min_self]
  · rw [zipWith?, if_neg hshape]

/-- **Elementwise operations stretch both operands to the common shape.**  They fail exactly if,
with the shapes aligned at the innermost axis and continued by ones, two different lengths meet
of which neither is one.  Otherwise each axis of the result has the length that is not one, or
the common one; the number of elements is the product of the lengths; and the element at each
index is made of the elements that the operands have there, without the axes that they lack and
at zero on axes of length one.  All elements that are read are there, and the short cut for
equal shapes gives what stretching gives. -/
theorem zipWith?_elementwise (f : α → β → γ) (ha : a.WellFormed) (hb : b.WellFormed) :
    (zipWith? f a b = .error (.shapeMismatch a.shape b.shape) ↔ Clash a.shape b.shape) ∧
    (¬ Clash a.shape b.shape → ∃ t, zipWith? f a b = .ok t ∧
      t.shape = commonShape a.shape b.shape ∧ t.data.length = volume t.shape ∧
      (∀ index, List.Forall₂ (· < ·) index t.shape →
        ∃ x y, a.at? (narrowed a.shape index) = some x ∧ b.at? (narrowed b.shape index) = some y ∧
          t.at? index = some (f x y)) ∧
      ∀ is ∈ indices t.shape.reverse (volume t.shape) (List.replicate t.shape.length 0),
        offset (strides 1 a.shape.reverse) is < a.data.length ∧
          offset (strides 1 b.shape.reverse) is < b.data.length) ∧
    zipWith? f a b = zipStretched? f a b := by
  have hcommon := broadcast?_eq a.shape b.shape
  rw [zipWith?_eq_zipStretched? f ha hb]
  by_cases hclash : Clash a.shape b.shape
  · rw [if_pos hclash] at hcommon
    have hfails : zipStretched? f a b = .error (.shapeMismatch a.shape b.shape) := by
      rw [zipStretched?, hcommon]
    exact ⟨⟨fun _ => hclash, fun _ => hfails⟩, fun h => absurd hclash h, rfl⟩
  · rw [if_neg hclash] at hcommon
    obtain ⟨t, ht, hts, hzip⟩ := exists_zipStretched f ha hb hcommon
    refine ⟨⟨fun h => ?_, fun h => absurd h hclash⟩,
      fun _ => ⟨t, ht, hts, hzip.wellFormed.symm, hzip.elements, ?_⟩, rfl⟩
    · rw [ht] at h
      cases h
    · intro is his
      obtain ⟨hsa, hsb⟩ := stretches_of_broadcast hcommon
      have hwithin : List.Forall₂ (· < ·) is (commonShape a.shape b.shape).reverse := by
        apply forall₂_of_mem_visited
        rwa [visited, volume_reverse, List.length_reverse, ← hts]
      exact ⟨offset_lt ha hsa hwithin, offset_lt hb hsb hwithin⟩

/-- A column of two and a row of three: the row has an axis less, and each is stretched along the
axis of the other. -/
theorem zipWith?_elementwise_crossed :
    (⟨[2, 1], [1, 2]⟩ : Tensor Nat).WellFormed ∧ (⟨[3], [10, 20, 30]⟩ : Tensor Nat).WellFormed ∧
      ¬ Clash [2, 1] [3] ∧
      ∃ t, zipWith? (· + ·) (⟨[2, 1], [1, 2]⟩ : Tensor Nat) ⟨[3], [10, 20, 30]⟩ = .ok t ∧
        t.shape = commonShape [2, 1] [3] ∧ t.data.length = volume t.shape ∧
        ∀ index, List.Forall₂ (· < ·) index t.shape →
          ∃ x y, (⟨[2, 1], [1, 2]⟩ : Tensor Nat).at? (narrowed [2, 1] index) = some x ∧
            (⟨[3], [10, 20, 30]⟩ : Tensor Nat).at? (narrowed [3] index) = some y ∧
            t.at? index = some (x + y) := by
  have ha : (⟨[2, 1], [1, 2]⟩ : Tensor Nat).WellFormed := by decide
  have hb : (⟨[3], [10, 20, 30]⟩ : Tensor Nat).WellFormed := by decide
  have hclash : ¬ Clash [2, 1] [3] := by decide
  obtain ⟨t, ht, hshape, hlength, hat, -⟩ := (zipWith?_elementwise (· + ·) ha hb).2.1 hclash
  exact ⟨ha, hb, hclash, t, ht, hshape, hlength, hat⟩

/-- An axis of length one shrinks to length zero, and other axes do not. -/
example : commonShape [2, 1] [0] = [2, 0] ∧ Clash [2, 3] [0] := by decide

end Tensor

end Stochastic
