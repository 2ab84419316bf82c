import Stochastic.Proofs.Graph.Decision
import Stochastic.Proofs.Graph.Stored

/-!
# Checks that go on holding

A node is checked once, when it is added.  In a graph that is only added to, it passes the same
checks at any later time, since the nodes it reads keep their kinds and types.  It also does
after a pass of the solver: an input is replaced only where values are expected and the node
itself is not checked against the types of its inputs, and what takes its place is a value.
A pass brings no values into a graph that were not there before.

## Main definitions

* `Graph.Checked` — every node passes the checks, against the graph as it is.
* `Graph.Ordered` — every node reads nodes before it.
* `Graph.Carries` — some node of the graph carries a value with it.

## Main results

* `Graph.checked_ordered_of_added` — graphs made by adding nodes are checked and ordered.
* `Graph.checked_adjusts`, `Graph.carries_adjusts` — one adjustment.
-/

namespace Stochastic.Graph

variable {g g' g₁ : Graph} {kind : NodeKind} {xs : List NodeId} {n m x slot : Nat}
variable {t : ValueType}

/-- Every node passes the checks of an addition, against the graph as it is. -/
def Checked (g : Graph) : Prop :=
  ∀ n < g.count, check g.toColumns (g.kindOf n) (g.inputs n) = .ok ()

/-- Every node reads nodes before it. -/
def Ordered (g : Graph) : Prop := ∀ n < g.count, ∀ x ∈ g.inputs n, x < n

/-- Some node carries a value with it. -/
def Carries (g : Graph) (v : Tensor Float) : Prop := ∃ kind ∈ g.kinds, v ∈ kind.value?

theorem forall_carries {P : Tensor Float → Prop} :
    (∀ v, g.Carries v → P v) ↔ ∀ kind ∈ g.kinds, ∀ v ∈ kind.value?, P v :=
  ⟨fun h kind hkind v hv => h v ⟨kind, hkind, hv⟩, fun h v ⟨kind, hkind, hv⟩ => h kind hkind v hv⟩

theorem kindOf_mem_kinds (hn : n < g.count) : g.kindOf n ∈ g.kinds := by
  have hget : g.kinds[n]? = some g.kinds[n] := List.getElem?_eq_getElem hn
  rw [Columns.kindOf, hget]
  exact List.getElem_mem hn

theorem Checked.admitted (h : Checked g) (hg : Consistent g) : Admitted g := by
  intro n x hx
  exact (check_eq_ok.1 (h n (hg.lt_of_mem_inputs hx))).2.1 x hx

/-! ## Adding nodes -/

theorem checked_append (h : WellFormed g) (hc : Checked g) (hxs : ∀ x ∈ xs, x < g.count)
    (hcheck : check g.toColumns kind xs = .ok ()) : Checked (g.append kind xs) := by
  -- nodes that were there look the same as before
  have hold : ∀ {k ys}, (∀ y ∈ ys, y < g.count) →
      check (g.append kind xs).toColumns k ys = check g.toColumns k ys := by
    intro k ys hys
    apply check_congr
    · intro y hy
      rw [kindOf_append, if_neg (Nat.ne_of_lt (hys y hy))]
    · intro y hy
      rw [typeOf_append h, if_neg (Nat.ne_of_lt (hys y hy))]
  intro n hn
  rw [kindOf_append, inputs_append h]
  by_cases hcount : n = g.count
  · rw [if_pos hcount, if_pos hcount, hold hxs]
    exact hcheck
  · rw [count_append] at hn
    rw [if_neg hcount, if_neg hcount, hold fun y hy => h.input_lt hy]
    exact hc n (by omega)

theorem ordered_append (h : WellFormed g) (ho : Ordered g) (hxs : ∀ x ∈ xs, x < g.count) :
    Ordered (g.append kind xs) := by
  intro n hn x hx
  rw [count_append] at hn
  rw [inputs_append h] at hx
  by_cases hcount : n = g.count
  · rw [if_pos hcount] at hx
    exact hcount ▸ hxs x hx
  · rw [if_neg hcount] at hx
    exact ho n (by omega) x hx

theorem checked_ordered_of_added (h : Added g) : Checked g ∧ Ordered g := by
  induction h with
  | empty =>
    exact ⟨fun n hn => absurd hn (Nat.not_lt_zero n), fun n hn => absurd hn (Nat.not_lt_zero n)⟩
  | @add g kind xs hg ih =>
    obtain ⟨hw, -⟩ := wellFormed_typed_of_built hg.built
    rcases state_add g kind xs with hstate | ⟨hcheck, hxs, -, hstate⟩
    · rwa [hstate]
    · rw [hstate]
      exact ⟨checked_append hw ih.1 hxs hcheck, ordered_append hw ih.2 hxs⟩

theorem checked_insert (h : WellFormed g) (hc : Checked g)
    (hi : g.insert kind xs = .ok (g', m)) : Checked g' := by
  have hcheck := check_of_insert hi
  obtain ⟨hxs, -, ⟨-, rfl⟩ | ⟨-, rfl⟩⟩ := insert_eq_ok hi
  · exact hc
  · exact checked_append h hc hxs hcheck

theorem carries_insert {v : Tensor Float} (hi : g.insert kind xs = .ok (g', m))
    (hv : g'.Carries v) : g.Carries v ∨ v ∈ kind.value? := by
  obtain ⟨-, -, ⟨-, rfl⟩ | ⟨-, rfl⟩⟩ := insert_eq_ok hi
  · exact .inl hv
  · obtain ⟨k, hk, hkv⟩ := hv
    rcases List.mem_append.1 hk with hk | hk
    · exact .inl ⟨k, hk, hkv⟩
    · rw [List.mem_singleton.1 hk] at hkv
      exact .inr hkv

/-! ## Adjustments -/

theorem Represents.isValue (h : Represents g x m) : (g.kindOf m).isValue = true := by
  cases h with
  | constant _ hm => rw [hm]; rfl
  | conversion hm => rw [hm]; rfl

/-- A node that asks for types of values is not checked against the types of its inputs. -/
theorem checkValue_eq {ts us : List ValueType} (hslot : slotKind kind = .value)
    (hrequired : (kind.requirements ts)[slot]? = some (.exact t)) :
    checkValue kind us = checkValue kind ts := by
  cases kind with
  | observation value => cases hslot
  | conversion c =>
    -- conversions only bound their inputs
    rw [NodeKind.requirements, List.getElem?_map] at hrequired
    cases hk : ts[slot]? <;> simp [hk] at hrequired
  | constant value declared => cases declared <;> rfl
  | distribution f => rfl
  | sample => rfl
  | operator op => rfl
  | query => rfl

/-- A node that asks for types of values passes its checks also with another value as an input. -/
theorem check_set {c c' : Columns} {ts : List ValueType} (hcheck : check c kind xs = .ok ())
    (hslot : slotKind kind = .value) (hrequired : (kind.requirements ts)[slot]? = some (.exact t))
    (hkinds : ∀ y ∈ xs, c'.kindOf y = c.kindOf y) (hvalue : (c'.kindOf m).isValue = true) :
    check c' kind (xs.set slot m) = .ok () := by
  obtain ⟨harity, hslots, hvalues⟩ := check_eq_ok.1 hcheck
  refine check_eq_ok.2 ⟨by rwa [List.length_set], fun y hy => ?_, ?_⟩
  · rcases List.mem_or_eq_of_mem_set hy with hy | rfl
    · rw [hkinds y hy]
      exact hslots y hy
    · rw [hslot]
      exact hvalue
  · rw [checkValue_eq hslot hrequired] at hvalues ⊢
    exact hvalues

/-- After an adjustment all nodes pass the checks if they did before. -/
theorem checked_adjusts (h : WellFormed g) (ht : Typed g) (hc : Checked g) (ha : Adjusts g g') :
    Checked g' := by
  obtain ⟨hx, hrequired, hunmet, hle, hs, hr⟩ := ha
  rename_i g₁ n slot x m t
  have hn := h.lt_of_mem_inputs (List.mem_of_getElem? hx)
  have hxlt := h.input_lt (List.mem_of_getElem? hx)
  have hslot := slotKind_of_not_satisfied (hc.admitted h.toConsistent) hx hrequired hunmet
  have hrep := hs.replaced h ht hx hrequired hle hr
  obtain ⟨hmlt, -, -⟩ := hs.types h ht hxlt
  obtain ⟨kind, xs, hi⟩ := hs.exists_insert
  have hw₁ := hrep.first.wellFormed
  have hc₁ := checked_insert h hc hi
  intro a ha
  rw [hrep.count] at ha
  rw [hrep.second.kindOf a ha]
  by_cases han : a = n
  · subst han
    rw [hrep.first.kindOf a hn, hrep.inputs]
    refine check_set (hc a hn) hslot hrequired (fun y hy => ?_) ?_
    · have hy := h.input_lt hy
      rw [hrep.second.kindOf y (Nat.lt_of_lt_of_le hy hrep.first.count_le), hrep.first.kindOf y hy]
    · rw [hrep.second.kindOf m hmlt]
      exact (hs.represents h hxlt).isValue
  · rw [hrep.second.inputs a ha han, ← hc₁ a ha]
    apply check_congr
    · exact fun y hy => hrep.second.kindOf y (hw₁.input_lt hy)
    · exact fun y hy => hrep.second.typeOf y (hw₁.input_lt hy)

/-- An adjustment brings no new values: a constant that stands in has the value of the one whose
place it takes. -/
theorem carries_adjusts {v : Tensor Float} (h : WellFormed g) (ht : Typed g) (ha : Adjusts g g')
    (hv : g'.Carries v) : g.Carries v := by
  obtain ⟨hx, hrequired, -, hle, hs, hr⟩ := ha
  rename_i g₁ n slot x m t
  have hxlt := h.input_lt (List.mem_of_getElem? hx)
  have hkinds := (hs.replaced h ht hx hrequired hle hr).kinds
  have hv₁ : g₁.Carries v := by rwa [Carries, hkinds] at hv
  cases hs with
  | constant hkind hi =>
    rcases carries_insert hi hv₁ with hv | hv
    · exact hv
    · refine ⟨_, kindOf_mem_kinds hxlt, ?_⟩
      rw [hkind]
      exact hv
  | conversion _ hi =>
    rcases carries_insert hi hv₁ with hv | hv
    · exact hv
    · cases hv

end Stochastic.Graph
