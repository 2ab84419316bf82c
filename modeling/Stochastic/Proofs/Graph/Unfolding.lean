import Stochastic.Proofs.Graph.Types
import Stochastic.Proofs.Optional

/-!
# Unfolding a graph

What a node comes to may depend on what its inputs come to, and so on down the graph.  Unfolding
goes down to a given depth.  In a graph without cycles it comes to an end, and then going deeper
makes no difference.

## Main definitions

* `Columns.fold?` — what a node comes to, unfolded to a depth.

## Main results

* `Graph.fold?_le`, `Graph.fold?_unique` — the depth makes no difference once it suffices.
* `Graph.exists_fold?` — in a graph without cycles the number of ancestors suffices.
* `Graph.fold?_congr` — only what lies below a node counts.
-/

namespace Stochastic

/-- What a node comes to, if `node` says what it comes to from what its inputs come to, and if
unfolding to the depth comes to an end. -/
def Columns.fold? {α : Type} (node : NodeId → NodeKind → List α → Option α) (c : Columns) :
    (depth : Nat) → NodeId → Option α
  | 0, _ => none
  | depth + 1, n => ((c.inputs n).mapM (fold? node c depth)).bind (node n (c.kindOf n))

namespace Graph

variable {α : Type} {node : NodeId → NodeKind → List α → Option α}
variable {g g' : Graph} {n k l : Nat} {t t' : α}

/-! ## How deep to unfold -/

/-- A node is unfolded if its inputs are, and comes to what follows from them. -/
theorem fold?_succ : g.fold? node (k + 1) n = some t ↔
    ∃ ts, List.Forall₂ (fun x t => g.fold? node k x = some t) (g.inputs n) ts ∧
      node n (g.kindOf n) ts = some t := by
  rw [Columns.fold?, Option.bind_eq_some_iff]
  simp only [mapM_eq_some]

/-- Unfolding deeper changes nothing once it has come to an end. -/
theorem fold?_le (hkl : k ≤ l) (h : g.fold? node k n = some t) :
    g.fold? node l n = some t := by
  induction k generalizing n l t with
  | zero => cases h
  | succ k ih =>
    obtain ⟨l, rfl⟩ : ∃ l', l = l' + 1 := ⟨l - 1, by omega⟩
    obtain ⟨ts, hts, ht⟩ := fold?_succ.1 h
    exact fold?_succ.2 ⟨ts, hts.imp fun _ _ hx => ih (by omega) hx, ht⟩

/-- What comes out does not depend on the depth. -/
theorem fold?_unique (h : g.fold? node k n = some t) (h' : g.fold? node l n = some t') :
    t = t' :=
  Option.some.inj ((fold?_le (Nat.le_max_left k l) h).symm.trans
    (fold?_le (Nat.le_max_right k l) h'))

/-- Unfolding comes to an end, at the latest one step below the last ancestor. -/
theorem exists_fold? (h : WellFormed g) (hac : Acyclic g)
    (hnode : ∀ n < g.count, ∀ ts : List α, ts.length = (g.inputs n).length →
      ∃ t, node n (g.kindOf n) ts = some t) (hn : n < g.count) :
    ∃ t, g.fold? node ((g.ancestors n).card + 1) n = some t := by
  induction hk : (g.ancestors n).card using Nat.strong_induction_on generalizing n with
  | _ k ih =>
    -- inputs have fewer ancestors, so they have been unfolded
    have hinputs : ∀ x ∈ g.inputs n, ∃ t, g.fold? node k x = some t := by
      intro x hx
      have hlt := card_ancestors_lt hac (h.input_lt hx) hx
      obtain ⟨t, ht⟩ := ih _ (hk ▸ hlt) (h.input_lt hx) rfl
      exact ⟨t, fold?_le (by omega) ht⟩
    obtain ⟨ts, hts⟩ := exists_forall₂ hinputs
    obtain ⟨t, ht⟩ := hnode n hn ts hts.length_eq.symm
    exact ⟨t, fold?_succ.2 ⟨ts, hts, ht⟩⟩

/-! ## What counts -/

/-- What a node comes to depends on the kinds and the inputs of the nodes below it. -/
theorem fold?_congr (h : WellFormed g) (hkind : ∀ a < g.count, g'.kindOf a = g.kindOf a)
    (hinputs : ∀ a < g.count, g'.inputs a = g.inputs a) (hn : n < g.count)
    (hu : g.fold? node k n = some t) : g'.fold? node k n = some t := by
  induction k generalizing n t with
  | zero => cases hu
  | succ k ih =>
    obtain ⟨ts, hts, ht⟩ := fold?_succ.1 hu
    refine fold?_succ.2 ⟨ts, ?_, by rw [hkind n hn, ht]⟩
    rw [hinputs n hn]
    -- all inputs are among the nodes that are the same in both graphs
    have hlt : ∀ x ∈ g.inputs n, x < g.count := fun x hx => h.input_lt hx
    exact ((List.forall₂_and_left _ _).2 ⟨hlt, hts⟩).imp fun x t hx => ih hx.1 hx.2

end Graph

end Stochastic
