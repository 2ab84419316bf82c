import Stochastic.Proofs.Graph.Decision
import Stochastic.Proofs.Graph.Integrity

/-!
# Finding nodes again

An addition looks its key up in the index, and adds a node only if there is nothing under the
key.  So nodes that are shared have different keys, and each is found under its own, as long as
inputs are not replaced.  A replacement takes the node from its old key and puts it under the new
one unless that is taken; all other nodes are found where they were.

## Main definitions

* `NodeKind.isDeterministic` — nodes of this kind are shared.
* `Columns.keyOf?` — the key of a node.
* `Graph.Passes` — a node with such inputs can be added.
* `Graph.Found` — a node is what the index has under its key.

## Main results

* `Graph.add_of_shared?_eq_some`, `Graph.add_of_shared?_eq_none` — what an addition comes to.
* `Graph.get?_index_rewire` — the index after a replacement.
* `Graph.found_of_added` — nodes that are only added are found.
-/

namespace Stochastic

/-- Whether a node of this kind is determined by its inputs, so that it is shared. -/
def NodeKind.isDeterministic : NodeKind → Bool
  | .sample => false
  | .observation _ => false
  | .query => false
  | _ => true

/-- The key of a node, if it is shared. -/
def Columns.keyOf? (c : Columns) (n : NodeId) : Option NodeKey :=
  NodeKey.of? (c.kindOf n) (c.inputs n)

/-- Nodes that are determined by their inputs have a key. -/
theorem NodeKey.exists_of? {kind : NodeKind} {xs : List NodeId}
    (hdet : kind.isDeterministic = true) (harity : kind.arity.allows xs.length = true) :
    ∃ k, NodeKey.of? kind xs = some k := by
  cases kind with
  | conversion c =>
    obtain ⟨x, rfl⟩ := List.length_eq_one_iff.1 (by
      simpa [NodeKind.arity, NodeKind.Arity.allows] using harity)
    exact ⟨_, rfl⟩
  | constant | distribution | operator => exact ⟨_, rfl⟩
  | sample | observation | query => cases hdet

namespace Graph

variable {g g' : Graph} {kind : NodeKind} {xs : List NodeId} {k : NodeKey}
variable {n m c slot r : Nat}

/-! ## Additions -/

/-- A node of a kind with some inputs can be added: the inputs are there, and it passes the
checks. -/
structure Passes (c : Columns) (kind : NodeKind) (xs : List NodeId) : Prop where
  known : ∀ x ∈ xs, x < c.count
  checked : check c kind xs = .ok ()

theorem Passes.arity (h : Passes g.toColumns kind xs) : kind.arity.allows xs.length = true :=
  (check_eq_ok.1 h.checked).1

theorem Passes.find?_eq_none (h : Passes g.toColumns kind xs) :
    xs.find? (fun x => decide (g.count ≤ x)) = none := by
  rw [List.find?_eq_none]
  intro x hx
  simpa using h.known x hx

/-- A node that is there already is found, and nothing changes. -/
theorem add_of_shared?_eq_some (h : Passes g.toColumns kind xs) (hs : g.shared? kind xs = some n) :
    g.add kind xs = ⟨g, .ok n, []⟩ := by
  rw [add, insert, h.find?_eq_none, h.checked, hs]
  simp

theorem add_of_shared?_eq_none (h : Passes g.toColumns kind xs) (hs : g.shared? kind xs = none) :
    g.add kind xs = ⟨g.append kind xs, .ok g.count, [additionLine g.count kind xs]⟩ := by
  rw [add, insert, h.find?_eq_none, h.checked, hs]
  simp

theorem shared?_eq (hk : NodeKey.of? kind xs = some k) : g.shared? kind xs = g.index.get? k := by
  rw [shared?, hk, Option.bind_some]

theorem keyOf?_append (h : WellFormed g) (n : Nat) :
    (g.append kind xs).keyOf? n = if n = g.count then NodeKey.of? kind xs else g.keyOf? n := by
  unfold Columns.keyOf?
  rw [kindOf_append, inputs_append h]
  by_cases hn : n = g.count
  · rw [if_pos hn, if_pos hn, if_pos hn]
  · rw [if_neg hn, if_neg hn, if_neg hn]

theorem get?_index_append (k : NodeKey) : (g.append kind xs).index.get? k =
    (g.index.get? k).or (if NodeKey.of? kind xs = some k then some g.count else none) :=
  get?_enlist_eq g.index (NodeKey.of? kind xs) g.count k

/-! ## Replacements -/

theorem keyOf?_rewire (h : WellFormed g) (hr : g.rewire c slot r = .ok g') (hn : n ≠ c) :
    g'.keyOf? n = g.keyOf? n := by
  obtain ⟨hslot, -, rfl⟩ := (rewire_eq_ok h.toConsistent).1 hr
  have hre := retyped_refresh c g.count (g.rewired c slot r) [c]
  unfold Columns.keyOf?
  rw [hre.kindOf, hre.inputs, kindOf_rewired, inputs_rewired_ne h hslot hn]

/-- Under the old key of the consumer nothing stands if the consumer did; under its new key it
stands if nothing did; under all other keys stands what did. -/
theorem get?_index_rewire (h : WellFormed g) (hr : g.rewire c slot r = .ok g') (k : NodeKey) :
    g'.index.get? k =
      (if g.keyOf? c = some k ∧ g.index.get? k = some c then none else g.index.get? k).or
        (if g'.keyOf? c = some k then some c else none) := by
  obtain ⟨-, -, rfl⟩ := (rewire_eq_ok h.toConsistent).1 hr
  obtain ⟨ts, -, heq⟩ := retyped_refresh c g.count (g.rewired c slot r) [c]
  rw [heq]
  exact get?_relist_eq g.index (g.keyOf? c) ((g.rewired c slot r).keyOf? c) c k

/-! ## Nodes that are found -/

/-- A node is what the index has under its key. -/
def Found (g : Graph) (n : NodeId) : Prop := ∀ k, g.keyOf? n = some k → g.index.get? k = some n

/-- Two nodes that are found have different keys. -/
theorem Found.eq (hn : Found g n) (hm : Found g m) (hk : g.keyOf? n = some k)
    (hkey : g.keyOf? m = g.keyOf? n) : n = m :=
  Option.some.inj ((hn k hk).symm.trans (hm k (hkey.trans hk)))

/-- The index has a node under a key exactly if the node has the key, where all are found. -/
theorem get?_index_iff (h : WellFormed g) (hfound : ∀ n < g.count, Found g n) :
    g.index.get? k = some n ↔ n < g.count ∧ g.keyOf? n = some k :=
  ⟨fun hget => h.indexed hget, fun hn => hfound n hn.1 k hn.2⟩

theorem found_append (h : WellFormed g) (hfresh : g.shared? kind xs = none)
    (hfound : n < g.count → Found g n) (hn : n < g.count + 1) : Found (g.append kind xs) n := by
  intro k hk
  rw [keyOf?_append h] at hk
  rw [get?_index_append]
  by_cases hcount : n = g.count
  · rw [if_pos hcount] at hk
    rw [← shared?_eq hk, hfresh, if_pos hk, hcount]
    rfl
  · rw [if_neg hcount] at hk
    rw [hfound (by omega) k hk]
    rfl

theorem found_insert (h : WellFormed g) (hi : g.insert kind xs = .ok (g', m))
    (hfound : n < g.count → Found g n) (hn : n < g'.count) : Found g' n := by
  unfold insert at hi
  split at hi
  · cases hi
  split at hi
  · cases hi
  cases hs : g.shared? kind xs with
  | some m =>
    rw [hs] at hi
    cases hi
    exact hfound hn
  | none =>
    rw [hs] at hi
    cases hi
    rw [count_append] at hn
    exact found_append h hs hfound hn

/-- A replacement does not concern the other nodes. -/
theorem found_rewire (h : WellFormed g) (hr : g.rewire c slot r = .ok g') (hn : n ≠ c)
    (hfound : Found g n) : Found g' n := by
  intro k hk
  rw [keyOf?_rewire h hr hn] at hk
  have hget := hfound k hk
  rw [get?_index_rewire h hr, if_neg (fun hc => hn (Option.some.inj (hget.symm.trans hc.2))), hget]
  rfl

/-- **Nodes that are only added are found.** -/
theorem found_of_added (h : Added g) : ∀ n < g.count, Found g n := by
  induction h with
  | empty => exact fun n hn => absurd hn (Nat.not_lt_zero n)
  | @add g kind xs hg ih =>
    obtain ⟨hw, -⟩ := wellFormed_typed_of_built hg.built
    intro n hn
    rcases state_add g kind xs with hstate | ⟨-, -, hfresh, hstate⟩
    · rw [hstate] at hn ⊢
      exact ih n hn
    · rw [hstate] at hn ⊢
      rw [count_append] at hn
      exact found_append hw hfresh (ih n) hn

end Graph

end Stochastic
