import Stochastic.Proofs.World.Step

/-!
# The live view of a world, and its edges

Everything a step does to the variables of a world is putting a copy of a variable among the
staged ones, marking one, or taking a mark away.  This module says what each of the three does
to the variable found under an identifier, to the marks, and to the edges of the live view.

An edge is recorded twice: the reader has the variable it reads among its parents, and the
variable read has the reader among its children.  `World.Reads` and `World.Lists` are the two
records.

## Main definitions

* `World.put`, `World.marking`, `World.unmarking` — the three changes.
* `World.Reads`, `World.Lists`, `World.Symmetric` — the two records of an edge, and that they
  agree.
* `Variable.core`, `World.SameCores` — all of a variable but who reads it.

## Main results

* `World.lookup?_put`, `World.reads_put`, `World.lists_put` — what a staged copy changes.
-/

namespace Stochastic

/-- All of a variable but who reads it. -/
def Variable.core (v : Variable) : Variable := { v with children := .empty }

namespace World

variable {w w' w'' : World} {n k c p : Ident} {v : Variable}

/-- The world with a variable staged. -/
def put (w : World) (n : Ident) (v : Variable) : World := { w with overlay := w.overlay.put n v }

/-- The world with a variable marked. -/
def marking (w : World) (n : Ident) : World := { w with overlay := w.overlay.mark n }

/-- The world with a mark taken away. -/
def unmarking (w : World) (n : Ident) : World := { w with overlay := w.overlay.unmark n }

/-! ## Looking up a variable -/

theorem lookup?_congr (w : World) (h : (n == k) = true) : w.lookup? n = w.lookup? k := by
  rw [lookup?, lookup?, Table.get?_congr _ h, Table.get?_congr _ h]

theorem isMarked_congr (w : World) (h : (n == k) = true) :
    w.overlay.isMarked n = w.overlay.isMarked k :=
  OrderedSet.contains_congr _ h

theorem live?_congr (w : World) (h : (n == k) = true) : w.live? n = w.live? k := by
  rw [live?, live?, isMarked_congr w h, lookup?_congr w h]

theorem live?_eq_some :
    w.live? n = some v ↔ w.overlay.isMarked n = false ∧ w.lookup? n = some v := by
  unfold live?
  cases w.overlay.isMarked n <;> simp

/-- A variable that is staged is found under its identifier; nothing else changes. -/
theorem lookup?_put (w : World) (n k : Ident) (v : Variable) :
    (w.put n v).lookup? k = if n == k then some v else w.lookup? k := by
  unfold lookup?
  simp only [put, Overlay.put, Table.get?_insert]
  by_cases h : (n == k) = true <;> simp [h]

theorem lookup?_put_self (w : World) (n : Ident) (v : Variable) :
    (w.put n v).lookup? n = some v := by
  rw [lookup?_put, if_pos (BEq.refl n)]

@[simp] theorem isMarked_put (w : World) (n k : Ident) (v : Variable) :
    (w.put n v).overlay.isMarked k = w.overlay.isMarked k := rfl

@[simp] theorem lookup?_marking (w : World) (n k : Ident) :
    (w.marking n).lookup? k = w.lookup? k := rfl

theorem isMarked_marking (w : World) (n k : Ident) :
    (w.marking n).overlay.isMarked k = (w.overlay.isMarked k || k == n) :=
  OrderedSet.contains_insert _ n k

@[simp] theorem lookup?_unmarking (w : World) (n k : Ident) :
    (w.unmarking n).lookup? k = w.lookup? k := rfl

theorem isMarked_unmarking (w : World) (n k : Ident) :
    (w.unmarking n).overlay.isMarked k = (w.overlay.isMarked k && !(k == n)) :=
  OrderedSet.contains_erase _ n k

/-! ## Edges -/

/-- The live variable `c` reads `p`. -/
def Reads (w : World) (c p : Ident) : Prop :=
  ∃ v, w.live? c = some v ∧ v.parents.contains p = true

/-- The live variable `p` lists `c` among its readers. -/
def Lists (w : World) (p c : Ident) : Prop :=
  ∃ v, w.live? p = some v ∧ v.children.contains c = true

/-- Both records of every edge of the live view agree: a live variable reads another exactly
if that one is live and lists it as a reader. -/
def Symmetric (w : World) : Prop := ∀ c p, w.Reads c p ↔ w.Lists p c

instance (w : World) (c p : Ident) : Decidable (w.Reads c p) :=
  decidable_of_iff ((w.live? c).any fun v => v.parents.contains p) (Option.any_eq_true ..)

instance (w : World) (p c : Ident) : Decidable (w.Lists p c) :=
  decidable_of_iff ((w.live? p).any fun v => v.children.contains c) (Option.any_eq_true ..)

theorem reads_iff : w.Reads c p ↔ w.overlay.isMarked c = false ∧
    ∃ v, w.lookup? c = some v ∧ v.parents.contains p = true := by
  simp only [Reads, live?_eq_some]
  constructor
  · rintro ⟨v, ⟨hm, hv⟩, hp⟩
    exact ⟨hm, v, hv, hp⟩
  · rintro ⟨hm, v, hv, hp⟩
    exact ⟨v, ⟨hm, hv⟩, hp⟩

theorem lists_iff : w.Lists p c ↔ w.overlay.isMarked p = false ∧
    ∃ v, w.lookup? p = some v ∧ v.children.contains c = true := by
  simp only [Lists, live?_eq_some]
  constructor
  · rintro ⟨v, ⟨hm, hv⟩, hp⟩
    exact ⟨hm, v, hv, hp⟩
  · rintro ⟨hm, v, hv, hp⟩
    exact ⟨v, ⟨hm, hv⟩, hp⟩

theorem reads_congr {c' p' : Ident} (w : World) (hc : (c == c') = true) (hp : (p == p') = true) :
    w.Reads c p ↔ w.Reads c' p' := by
  simp only [Reads, live?_congr w hc, OrderedSet.contains_congr _ hp]

theorem lists_congr {c' p' : Ident} (w : World) (hp : (p == p') = true) (hc : (c == c') = true) :
    w.Lists p c ↔ w.Lists p' c' := by
  simp only [Lists, live?_congr w hp, OrderedSet.contains_congr _ hc]

/-- What a live variable reads, as found under its identifier. -/
theorem reads_of_lookup? (hm : w.overlay.isMarked c = false) (hv : w.lookup? c = some v) :
    w.Reads c p ↔ v.parents.contains p = true := by
  rw [reads_iff]
  constructor
  · rintro ⟨-, v', hv', hp⟩
    obtain rfl : v = v' := Option.some.inj (hv.symm.trans hv')
    exact hp
  · intro hp
    exact ⟨hm, v, hv, hp⟩

theorem lists_of_lookup? (hm : w.overlay.isMarked p = false) (hv : w.lookup? p = some v) :
    w.Lists p c ↔ v.children.contains c = true := by
  rw [lists_iff]
  constructor
  · rintro ⟨-, v', hv', hp⟩
    obtain rfl : v = v' := Option.some.inj (hv.symm.trans hv')
    exact hp
  · intro hp
    exact ⟨hm, v, hv, hp⟩

theorem reads_put (w : World) (n : Ident) (v : Variable) (c p : Ident) :
    (w.put n v).Reads c p ↔
      if n == c then w.overlay.isMarked c = false ∧ v.parents.contains p = true
      else w.Reads c p := by
  rw [reads_iff, reads_iff, isMarked_put, lookup?_put]
  by_cases h : (n == c) = true <;> simp [h]

theorem lists_put (w : World) (n : Ident) (v : Variable) (p c : Ident) :
    (w.put n v).Lists p c ↔
      if n == p then w.overlay.isMarked p = false ∧ v.children.contains c = true
      else w.Lists p c := by
  rw [lists_iff, lists_iff, isMarked_put, lookup?_put]
  by_cases h : (n == p) = true <;> simp [h]

theorem reads_marking (w : World) (n c p : Ident) :
    (w.marking n).Reads c p ↔ w.Reads c p ∧ (c == n) = false := by
  rw [reads_iff, reads_iff, isMarked_marking, Bool.or_eq_false_iff]
  exact ⟨fun ⟨⟨hm, hn⟩, hv⟩ => ⟨⟨hm, hv⟩, hn⟩, fun ⟨⟨hm, hv⟩, hn⟩ => ⟨⟨hm, hn⟩, hv⟩⟩

theorem lists_marking (w : World) (n p c : Ident) :
    (w.marking n).Lists p c ↔ w.Lists p c ∧ (p == n) = false := by
  rw [lists_iff, lists_iff, isMarked_marking, Bool.or_eq_false_iff]
  exact ⟨fun ⟨⟨hm, hn⟩, hv⟩ => ⟨⟨hm, hv⟩, hn⟩, fun ⟨⟨hm, hv⟩, hn⟩ => ⟨⟨hm, hn⟩, hv⟩⟩

/-- Taking a mark away brings back what the variable reads. -/
theorem reads_unmarking (hv : w.lookup? n = some v) (c p : Ident) :
    (w.unmarking n).Reads c p ↔ w.Reads c p ∨ (c == n) = true ∧ v.parents.contains p = true := by
  rw [reads_iff, reads_iff, isMarked_unmarking, lookup?_unmarking]
  by_cases h : (c == n) = true
  · simp only [h, Bool.not_true, Bool.and_false, lookup?_congr w h, hv, Option.some.injEq,
      exists_eq_left', true_and]
    exact ⟨Or.inr, Or.rec And.right id⟩
  · simp [h]

theorem lists_unmarking (hv : w.lookup? n = some v) (p c : Ident) :
    (w.unmarking n).Lists p c ↔ w.Lists p c ∨ (p == n) = true ∧ v.children.contains c = true := by
  rw [lists_iff, lists_iff, isMarked_unmarking, lookup?_unmarking]
  by_cases h : (p == n) = true
  · simp only [h, Bool.not_true, Bool.and_false, lookup?_congr w h, hv, Option.some.injEq,
      exists_eq_left', true_and]
    exact ⟨Or.inr, Or.rec And.right id⟩
  · simp [h]

/-! ## All of a variable but who reads it -/

/-- Both worlds have the same variables, up to who reads them. -/
def SameCores (w w' : World) : Prop :=
  ∀ n, (w'.lookup? n).map Variable.core = (w.lookup? n).map Variable.core

theorem SameCores.refl (w : World) : w.SameCores w := fun _ => rfl

theorem SameCores.trans (h : w.SameCores w') (h' : w'.SameCores w'') : w.SameCores w'' :=
  fun n => (h' n).trans (h n)

theorem SameCores.exists_core (h : w.SameCores w') (hv : w.lookup? n = some v) :
    ∃ v', w'.lookup? n = some v' ∧ v'.core = v.core := by
  have hn := h n
  rw [hv, Option.map_some, Option.map_eq_some_iff] at hn
  exact hn

theorem SameCores.symm (h : w.SameCores w') : w'.SameCores w := fun n => (h n).symm

theorem parents_of_core {v v' : Variable} (h : v'.core = v.core) : v'.parents = v.parents := by
  have hp := congrArg Variable.parents h
  exact hp

/-- What is read in a world with the same variables and more marks was read before. -/
theorem SameCores.reads_of_reads (h : w.SameCores w')
    (hm : ∀ n, w.overlay.isMarked n = true → w'.overlay.isMarked n = true)
    (hr : w'.Reads c p) : w.Reads c p := by
  obtain ⟨hc, v', hv', hp⟩ := reads_iff.1 hr
  obtain ⟨v, hv, hcore⟩ := h.symm.exists_core hv'
  refine reads_iff.2 ⟨?_, v, hv, ?_⟩
  · refine Bool.eq_false_iff.2 fun hw => ?_
    rw [hm c hw] at hc
    cases hc
  · rw [parents_of_core hcore]
    exact hp

end World

end Stochastic
