import Mathlib.Data.List.Forall2

/-!
# Lists of results that may be missing

A function that may have no result is applied to every member of a list.  Either there is a list
with one result for each member, in order, or some member has none.

## Main results

* `mapM_eq_some` — the results correspond to the members one by one.
* `getElem?_filterMap_of_isSome`, `filterMap_of_mapM` — if none is missing, none is left out.
-/

namespace Stochastic

variable {α β : Type} {f : α → Option β} {xs : List α} {ys : List β}

theorem mapM_eq_some : xs.mapM f = some ys ↔ List.Forall₂ (fun x y => f x = some y) xs ys := by
  induction xs generalizing ys with
  | nil => cases ys <;> simp
  | cons x xs ih =>
    rw [List.mapM_cons]
    cases hx : f x with
    | none => cases ys <;> simp [hx]
    | some y => cases ys <;> simp [hx, ← ih, Option.bind_eq_some_iff, and_comm]

theorem isSome_of_mapM {x : α} (h : xs.mapM f = some ys) (hx : x ∈ xs) : (f x).isSome := by
  rw [mapM_eq_some] at h
  induction h with
  | nil => cases hx
  | cons hxy _ ih =>
    obtain rfl | hx := List.mem_cons.1 hx
    · exact Option.isSome_of_eq_some hxy
    · exact ih hx

theorem exists_getElem?_of_mapM {y : β} {k : Nat} (h : xs.mapM f = some ys)
    (hy : ys[k]? = some y) : ∃ x, xs[k]? = some x ∧ f x = some y := by
  rw [mapM_eq_some] at h
  induction h generalizing k with
  | nil => cases hy
  | cons hxy _ ih =>
    cases k with
    | zero =>
      cases hy
      exact ⟨_, rfl, hxy⟩
    | succ k => exact ih hy

theorem exists_forall₂ {R : α → β → Prop} (h : ∀ x ∈ xs, ∃ y, R x y) :
    ∃ ys, List.Forall₂ R xs ys := by
  induction xs with
  | nil => exact ⟨[], .nil⟩
  | cons x xs ih =>
    obtain ⟨⟨y, hy⟩, hxs⟩ := List.forall_mem_cons.1 h
    obtain ⟨ys, hys⟩ := ih hxs
    exact ⟨y :: ys, .cons hy hys⟩

theorem mapM_eq_some_map {g : α → β} (h : ∀ x ∈ xs, f x = some (g x)) :
    xs.mapM f = some (xs.map g) := by
  rw [mapM_eq_some, List.forall₂_map_right_iff]
  exact List.forall₂_same.2 h

/-- Reading inverts writing for each value of a list, so it does for the list. -/
theorem mapM_map_eq_some {write : α → β} {read : β → Option α}
    (h : ∀ x ∈ xs, read (write x) = some x) : (xs.map write).mapM read = some xs := by
  rw [mapM_eq_some, List.forall₂_map_left_iff]
  exact List.forall₂_same.2 h

/-- If every member of a list is mapped to something, then nothing moves. -/
theorem getElem?_filterMap_of_isSome (h : ∀ x ∈ xs, (f x).isSome) (k : Nat) :
    (xs.filterMap f)[k]? = xs[k]?.bind f := by
  induction xs generalizing k with
  | nil => simp
  | cons x xs ih =>
    obtain ⟨hx, hxs⟩ := List.forall_mem_cons.1 h
    obtain ⟨y, hy⟩ := Option.isSome_iff_exists.1 hx
    rw [List.filterMap_cons_some hy]
    cases k with
    | zero => simp [hy]
    | succ k => simpa using ih hxs k

theorem filterMap_of_mapM (h : xs.mapM f = some ys) : xs.filterMap f = ys := by
  rw [mapM_eq_some] at h
  induction h with
  | nil => rfl
  | cons hxy _ ih => rw [List.filterMap_cons_some hxy, ih]

theorem toOption_eq_some {ε : Type} {x : Except ε α} {a : α} :
    x.toOption = some a ↔ x = .ok a := by
  cases x <;> simp [Except.toOption]

end Stochastic
