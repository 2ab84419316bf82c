import Stochastic.Proofs.Tensor.Elementwise

/-!
# Operations on three tensors

An operation on tensors inherits what holds of common shapes and of the operation on elements.
If the operation on elements is associative then three tensors can be grouped either way: one
grouping has a result exactly if the other has, although the results in between have different
shapes, and then it is the same.  An element of the result is in both cases made of what the
three tensors show at its index, since stretching a tensor in two steps is stretching it in one.

Changing sides changes nothing in a result.  An error names the two shapes in the order of the
operands, so there it does.

## Main results

* `Tensor.zipWith?_eq_ok`, `Tensor.zipWith?_eq_error` — when there is which result.
* `Tensor.Elementwise.regroup` — from one grouping to the other.
* `Tensor.broadcast_monoid` — the laws for shapes and for tensors.
-/

namespace Stochastic.Tensor

variable {α β γ : Type}

/-! ## Results and errors -/

theorem Elementwise.unique {f : α → β → γ} {a : Tensor α} {b : Tensor β} {t u : Tensor γ}
    (ht : Elementwise f a b t) (hu : Elementwise f a b u) : t = u := by
  have hshape : t.shape = u.shape := Option.some.inj (ht.shape.symm.trans hu.shape)
  apply ext_at? ht.wellFormed hu.wellFormed hshape
  intro index hindex
  obtain ⟨x, y, hx, hy, hxy⟩ := ht.elements index hindex
  obtain ⟨x', y', hx', hy', hxy'⟩ := hu.elements index (hshape ▸ hindex)
  obtain rfl : x = x' := Option.some.inj (hx.symm.trans hx')
  obtain rfl : y = y' := Option.some.inj (hy.symm.trans hy')
  rw [hxy, hxy']

theorem zipWith?_eq_error {f : α → β → γ} {a : Tensor α} {b : Tensor β} {e : Error}
    (ha : a.WellFormed) (hb : b.WellFormed) :
    zipWith? f a b = .error e ↔
      broadcast? a.shape b.shape = none ∧ e = .shapeMismatch a.shape b.shape := by
  rw [zipWith?_eq_zipStretched? f ha hb]
  cases h : broadcast? a.shape b.shape with
  | none =>
    rw [zipStretched?, h]
    constructor
    · rintro ⟨⟩
      exact ⟨rfl, rfl⟩
    · rintro ⟨-, rfl⟩
      rfl
  | some shape =>
    obtain ⟨t, ht, -⟩ := exists_zipStretched f ha hb h
    rw [ht]
    constructor
    · intro herror
      cases herror
    · rintro ⟨hnone, -⟩
      cases hnone

theorem zipWith?_eq_ok {f : α → β → γ} {a : Tensor α} {b : Tensor β} {t : Tensor γ}
    (ha : a.WellFormed) (hb : b.WellFormed) :
    zipWith? f a b = .ok t ↔ Elementwise f a b t := by
  rw [zipWith?_eq_zipStretched? f ha hb]
  cases h : broadcast? a.shape b.shape with
  | none =>
    rw [zipStretched?, h]
    constructor
    · intro hok
      cases hok
    · intro ht
      rw [ht.shape] at h
      cases h
  | some shape =>
    obtain ⟨u, hu, -, hzip⟩ := exists_zipStretched f ha hb h
    rw [hu]
    constructor
    · rintro ⟨⟩
      exact hzip
    · intro ht
      rw [hzip.unique ht]

/-! ## Changing sides and grouping -/

theorem Elementwise.swap {f : α → β → γ} {a : Tensor α} {b : Tensor β} {t : Tensor γ}
    (h : Elementwise f a b t) : Elementwise (fun y x => f x y) b a t where
  shape := by rw [broadcast?_comm, h.shape]
  wellFormed := h.wellFormed
  elements index hindex := by
    obtain ⟨x, y, hx, hy, hxy⟩ := h.elements index hindex
    exact ⟨y, x, hy, hx, hxy⟩

/-- From grouping to the left to grouping to the right. -/
theorem Elementwise.regroup {f : α → α → α} {x y z t u : Tensor α}
    (hf : ∀ a b c, f (f a b) c = f a (f b c)) (hy : y.WellFormed) (hz : z.WellFormed)
    (ht : Elementwise f x y t) (hu : Elementwise f t z u) :
    ∃ v, Elementwise f y z v ∧ Elementwise f x v u := by
  have hassoc := broadcast?_assoc x.shape y.shape z.shape
  rw [ht.shape, Option.bind_some, hu.shape] at hassoc
  obtain ⟨shape, hyz, hxu⟩ := Option.bind_eq_some_iff.1 hassoc.symm
  obtain ⟨v, -, rfl, hv⟩ := exists_zipStretched f hy hz hyz
  refine ⟨v, hv, hxu, hu.wellFormed, ?_⟩
  intro index hindex
  obtain ⟨hxt, hyt⟩ := stretches_of_broadcast ht.shape
  obtain ⟨htu, -⟩ := stretches_of_broadcast hu.shape
  obtain ⟨hyv, hzv⟩ := stretches_of_broadcast hv.shape
  obtain ⟨-, hvu⟩ := stretches_of_broadcast hxu
  -- both results in between show at the index what their operands show there
  obtain ⟨p, c, hp, hc, hpc⟩ := hu.elements index hindex
  obtain ⟨a, b, ha, hb, hab⟩ := ht.elements _ (htu.forall₂_narrowed hindex)
  obtain ⟨b', c', hb', hc', hbc⟩ := hv.elements _ (hvu.forall₂_narrowed hindex)
  rw [narrowed_narrowed hxt htu hindex] at ha
  rw [narrowed_narrowed hyt htu hindex] at hb
  rw [narrowed_narrowed hyv hvu hindex] at hb'
  rw [narrowed_narrowed hzv hvu hindex] at hc'
  obtain rfl : p = f a b := Option.some.inj (hp.symm.trans hab)
  obtain rfl : b = b' := Option.some.inj (hb.symm.trans hb')
  obtain rfl : c = c' := Option.some.inj (hc.symm.trans hc')
  exact ⟨a, f b c, ha, hbc, by rw [hpc, hf]⟩

/-- A result of grouping to the left is a result of grouping to the right, and conversely: the
converse is the same for the operation with its sides changed. -/
theorem exists_elementwise_assoc {f : α → α → α} {x y z u : Tensor α}
    (hf : ∀ a b c, f (f a b) c = f a (f b c)) (hx : x.WellFormed) (hy : y.WellFormed)
    (hz : z.WellFormed) :
    (∃ t, Elementwise f x y t ∧ Elementwise f t z u) ↔
      ∃ v, Elementwise f y z v ∧ Elementwise f x v u := by
  constructor
  · rintro ⟨t, ht, hu⟩
    exact ht.regroup hf hy hz hu
  · rintro ⟨v, hv, hu⟩
    obtain ⟨t, ht, hu⟩ := hv.swap.regroup (fun a b c => (hf c b a).symm) hy hx hu.swap
    exact ⟨t, ht.swap, hu.swap⟩

theorem bind_zipWith?_eq_ok {f : α → α → α} {x y u : Tensor α}
    {k : Tensor α → Except Error (Tensor α)} (hx : x.WellFormed) (hy : y.WellFormed) :
    (zipWith? f x y).bind k = .ok u ↔ ∃ t, Elementwise f x y t ∧ k t = .ok u := by
  constructor
  · intro h
    cases ht : zipWith? f x y with
    | error e =>
      rw [ht] at h
      cases h
    | ok t =>
      rw [ht] at h
      exact ⟨t, (zipWith?_eq_ok hx hy).1 ht, h⟩
  · rintro ⟨t, ht, hk⟩
    rw [(zipWith?_eq_ok hx hy).2 ht]
    exact hk

/-- **Tensors can be grouped either way** under an associative operation. -/
theorem zipWith?_assoc {f : α → α → α} (hf : ∀ a b c, f (f a b) c = f a (f b c))
    {x y z : Tensor α} (hx : x.WellFormed) (hy : y.WellFormed) (hz : z.WellFormed)
    (u : Tensor α) :
    (zipWith? f x y).bind (zipWith? f · z) = .ok u ↔
      (zipWith? f y z).bind (zipWith? f x) = .ok u := by
  rw [bind_zipWith?_eq_ok hx hy, bind_zipWith?_eq_ok hy hz]
  have hleft : (∃ t, Elementwise f x y t ∧ zipWith? f t z = .ok u) ↔
      ∃ t, Elementwise f x y t ∧ Elementwise f t z u :=
    exists_congr fun t => and_congr_right fun ht => zipWith?_eq_ok ht.wellFormed hz
  have hright : (∃ v, Elementwise f y z v ∧ zipWith? f x v = .ok u) ↔
      ∃ v, Elementwise f y z v ∧ Elementwise f x v u :=
    exists_congr fun v => and_congr_right fun hv => zipWith?_eq_ok hx hv.wellFormed
  rw [hleft, hright, exists_elementwise_assoc hf hx hy hz]

/-- Changing sides keeps a result, and turns an error around. -/
theorem zipWith?_swap (f : α → β → γ) {x : Tensor α} {y : Tensor β} (hx : x.WellFormed)
    (hy : y.WellFormed) :
    (∃ t, zipWith? f x y = .ok t ∧ zipWith? (fun b a => f a b) y x = .ok t) ∨
      (zipWith? f x y = .error (.shapeMismatch x.shape y.shape) ∧
        zipWith? (fun b a => f a b) y x = .error (.shapeMismatch y.shape x.shape)) := by
  cases h : zipWith? f x y with
  | ok t =>
    have ht : Elementwise f x y t := (zipWith?_eq_ok hx hy).1 h
    exact .inl ⟨t, rfl, (zipWith?_eq_ok hy hx).2 ht.swap⟩
  | error e =>
    obtain ⟨hnone, rfl⟩ := (zipWith?_eq_error hx hy).1 h
    rw [broadcast?_comm] at hnone
    exact .inr ⟨rfl, (zipWith?_eq_error hy hx).2 ⟨hnone, rfl⟩⟩

/-- The error for two vectors of different lengths names the left one first, so that it is another
one with the sides changed. -/
theorem zipWith?_ne_swapped :
    (vector [1, 2] : Tensor Float).WellFormed ∧ (vector [1, 2, 3] : Tensor Float).WellFormed ∧
      zipWith? (· + ·) (vector [1, 2] : Tensor Float) (vector [1, 2, 3] : Tensor Float) ≠
        zipWith? (fun b a => a + b) (vector [1, 2, 3] : Tensor Float)
          (vector [1, 2] : Tensor Float) := by
  have hleft : zipWith? (· + ·) (vector [1, 2] : Tensor Float) (vector [1, 2, 3] : Tensor Float) =
      .error (.shapeMismatch [2] [3]) := rfl
  have hright : zipWith? (fun b a => a + b) (vector [1, 2, 3] : Tensor Float)
      (vector [1, 2] : Tensor Float) = .error (.shapeMismatch [3] [2]) := rfl
  refine ⟨rfl, rfl, ?_⟩
  rw [hleft, hright]
  intro h
  cases h

/-- **Shapes are a partial commutative idempotent monoid, and elementwise operations inherit it.**
Combining shapes is commutative, idempotent and associative where one side is defined, and the
shape without axes is neutral.  An associative operation gives the same result of three tensors
grouped either way, or none for both; and changing sides keeps the result, and turns the error
around. -/
theorem broadcast_monoid :
    (∀ a b, broadcast? a b = broadcast? b a) ∧ (∀ a, broadcast? a a = some a) ∧
    (∀ a, broadcast? [] a = some a ∧ broadcast? a [] = some a) ∧
    (∀ a b c, (broadcast? a b).bind (broadcast? · c) = (broadcast? b c).bind (broadcast? · a)) ∧
    (∀ (α : Type) (f : α → α → α), (∀ a b c, f (f a b) c = f a (f b c)) →
      ∀ x y z : Tensor α, x.WellFormed → y.WellFormed → z.WellFormed → ∀ u,
        (zipWith? f x y).bind (zipWith? f · z) = .ok u ↔
          (zipWith? f y z).bind (zipWith? f x) = .ok u) ∧
    ∀ (α β γ : Type) (f : α → β → γ) (x : Tensor α) (y : Tensor β), x.WellFormed →
      y.WellFormed →
        (∃ t, zipWith? f x y = .ok t ∧ zipWith? (fun b a => f a b) y x = .ok t) ∨
        (zipWith? f x y = .error (.shapeMismatch x.shape y.shape) ∧
          zipWith? (fun b a => f a b) y x = .error (.shapeMismatch y.shape x.shape)) := by
  refine ⟨broadcast?_comm, broadcast?_self, ?_, ?_, ?_, ?_⟩
  · intro a
    exact ⟨broadcast?_nil a, broadcast?_comm a [] ▸ broadcast?_nil a⟩
  · intro a b c
    rw [broadcast?_assoc]
    exact congrArg _ (funext fun s => broadcast?_comm a s)
  · intro α f hf x y z hx hy hz u
    exact zipWith?_assoc hf hx hy hz u
  · intro α β γ f x y hx hy
    exact zipWith?_swap f hx hy

/-- A column, a row and a stack of two: the results in between have the shapes `[2, 3]` and
`[2, 1, 3]`.  The difference of the row and the column is there from both sides. -/
theorem broadcast_monoid_stacked :
    ((zipWith? (· + ·) (⟨[2, 1], [1, 2]⟩ : Tensor Nat) ⟨[3], [10, 20, 30]⟩).bind
          (zipWith? (· + ·) · ⟨[2, 1, 1], [100, 200]⟩) =
        .ok ⟨[2, 2, 3], [111, 121, 131, 112, 122, 132, 211, 221, 231, 212, 222, 232]⟩ ∧
      (zipWith? (· + ·) (⟨[3], [10, 20, 30]⟩ : Tensor Nat) ⟨[2, 1, 1], [100, 200]⟩).bind
          (zipWith? (· + ·) ⟨[2, 1], [1, 2]⟩) =
        .ok ⟨[2, 2, 3], [111, 121, 131, 112, 122, 132, 211, 221, 231, 212, 222, 232]⟩) ∧
      ∃ t, zipWith? (· - ·) (⟨[3], [10, 20, 30]⟩ : Tensor Nat) ⟨[2, 1], [1, 2]⟩ = .ok t ∧
        zipWith? (fun b a => a - b) ⟨[2, 1], [1, 2]⟩ (⟨[3], [10, 20, 30]⟩ : Tensor Nat) = .ok t := by
  have hleft : (zipWith? (· + ·) (⟨[2, 1], [1, 2]⟩ : Tensor Nat) ⟨[3], [10, 20, 30]⟩).bind
        (zipWith? (· + ·) · ⟨[2, 1, 1], [100, 200]⟩) =
      .ok ⟨[2, 2, 3], [111, 121, 131, 112, 122, 132, 211, 221, 231, 212, 222, 232]⟩ := by
    rfl
  have hgroup := broadcast_monoid.2.2.2.2.1 Nat (· + ·) Nat.add_assoc ⟨[2, 1], [1, 2]⟩
    ⟨[3], [10, 20, 30]⟩ ⟨[2, 1, 1], [100, 200]⟩ rfl rfl rfl
  have hswap := broadcast_monoid.2.2.2.2.2 Nat Nat Nat (· - ·) ⟨[3], [10, 20, 30]⟩
    ⟨[2, 1], [1, 2]⟩ rfl rfl
  refine ⟨⟨hleft, (hgroup _).1 hleft⟩, hswap.resolve_right ?_⟩
  rintro ⟨herror, -⟩
  cases herror

end Stochastic.Tensor
