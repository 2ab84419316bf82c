import Stochastic.Proofs.Graph.Adjustment
import Stochastic.Proofs.Graph.Unfolding

/-!
# The meaning of a graph

A node means the term that comes from unfolding its inputs.  A conversion means its input, and
a constant means its value whatever type it is declared to have.  Two samples of one
distribution are different variables, so a sample, an observation and a query are kept apart by
their numbers.

Graphs share nodes, so one input that is replaced shows in the terms of all nodes above it.  It
is replaced by a node with the same term, and the terms of all nodes stay.  As a pass does
nothing else, it keeps the meaning of a graph, also if it stops half way.

## Main definitions

* `Term` — terms.
* `Columns.expand?`, `Columns.term?` — the term of a node, unfolded to a depth and to the end.

## Main results

* `Graph.exists_term?` — in a graph that is built every node has a term.
* `Graph.expand?_rewired` — replacing an input by a node that represents it.
* `Graph.same_adjusts` — an adjustment keeps all nodes, their kinds and their terms.
* `Graph.same_meaning_solve` — so does a pass.
-/

namespace Stochastic

/-- What a node of a graph means. -/
inductive Term where
  /-- A constant is its value; declared types do not count. -/
  | constant (value : Tensor.Key)
  | distribution (family : Family) (parameters : List Term)
  | operator (op : Operator) (operands : List Term)
  /-- Samples, observations and queries are each on their own. -/
  | own (n : NodeId) (inputs : List Term)

/-- The term of node `n` of a kind, from the terms of its inputs. -/
def Term.ofNode? (n : NodeId) (kind : NodeKind) (inputs : List Term) : Option Term :=
  match kind with
  | .constant value _ => some (.constant value.key)
  | .distribution f => some (.distribution f inputs)
  | .operator op => some (.operator op inputs)
  | .conversion _ => inputs.head?
  | .sample => some (.own n inputs)
  | .observation _ => some (.own n inputs)
  | .query => some (.own n inputs)

namespace Columns

/-- The term of a node, if unfolding it to a depth comes to an end. -/
def expand? (c : Columns) : (depth : Nat) → NodeId → Option Term := c.fold? Term.ofNode?

/-- The term of a node.  Without cycles no path is longer than there are nodes. -/
def term? (c : Columns) (n : NodeId) : Option Term := c.expand? c.count n

end Columns

namespace Graph

variable {g g' : Graph} {n m x a slot k l : Nat} {t : Term}

/-- Replacing a member by one that is related to all that it was related to. -/
theorem forall₂_set {α β : Type} {R S : α → β → Prop} {xs : List α} {ys : List β} {x y : α}
    (h : List.Forall₂ R xs ys) (hRS : ∀ a b, R a b → S a b) (hx : xs[slot]? = some x)
    (hxy : ∀ b, R x b → S y b) : List.Forall₂ S (xs.set slot y) ys := by
  induction h generalizing slot with
  | nil => exact .nil
  | cons hhead htail ih =>
    cases slot with
    | zero =>
      cases hx
      exact .cons (hxy _ hhead) (htail.imp hRS)
    | succ slot => exact .cons (hRS _ _ hhead) (ih hx)

/-! ## How deep to unfold -/

/-- A node is unfolded if its inputs are, and has the term that comes from theirs. -/
theorem expand?_succ : g.expand? (k + 1) n = some t ↔
    ∃ ts, List.Forall₂ (fun x t => g.expand? k x = some t) (g.inputs n) ts ∧
      Term.ofNode? n (g.kindOf n) ts = some t :=
  fold?_succ

theorem expand?_le (hkl : k ≤ l) (h : g.expand? k n = some t) : g.expand? l n = some t :=
  fold?_le hkl h

/-- A node with an allowed number of inputs has a term if its inputs have. -/
theorem exists_ofNode? {kind : NodeKind} {ts : List Term}
    (h : kind.arity.allows ts.length = true) : ∃ t, Term.ofNode? n kind ts = some t := by
  cases kind with
  | conversion c =>
    obtain ⟨t, rfl⟩ := List.length_eq_one_iff.1 (by
      simpa [NodeKind.arity, NodeKind.Arity.allows] using h)
    exact ⟨t, rfl⟩
  | _ => exact ⟨_, rfl⟩

theorem exists_expand? (h : WellFormed g) (hac : Acyclic g) (hn : n < g.count) :
    ∃ t, g.expand? ((g.ancestors n).card + 1) n = some t := by
  refine exists_fold? h hac (fun n hn ts hlength => ?_) hn
  have harity := h.arities n hn
  rw [← hlength] at harity
  exact exists_ofNode? harity

theorem exists_term? (hg : Built g) (hn : n < g.count) : ∃ t, g.term? n = some t := by
  obtain ⟨h, -⟩ := wellFormed_typed_of_built hg
  have hac := acyclic_of_built hg
  obtain ⟨t, ht⟩ := exists_expand? h hac hn
  exact ⟨t, expand?_le (card_ancestors_lt_count hac hn) ht⟩

/-- To whatever depth a node is unfolded, what comes out is its term. -/
theorem term?_of_expand? (hg : Built g) (hn : n < g.count) (h : g.expand? k n = some t) :
    g.term? n = some t := by
  obtain ⟨t', ht'⟩ := exists_term? hg hn
  rw [ht', fold?_unique h ht']

/-! ## What keeps terms -/

theorem expand?_congr (h : WellFormed g) (hkind : ∀ a < g.count, g'.kindOf a = g.kindOf a)
    (hinputs : ∀ a < g.count, g'.inputs a = g.inputs a) (hn : n < g.count)
    (hu : g.expand? k n = some t) : g'.expand? k n = some t :=
  fold?_congr h hkind hinputs hn hu

/-- A node that represents another one has the same term, one step deeper. -/
theorem Represents.expand? (hrep : Represents g x m) (h : g.expand? k x = some t) :
    g.expand? (k + 1) m = some t := by
  cases hrep with
  | constant hx hm hkey hinputs =>
    obtain ⟨k, rfl⟩ : ∃ k', k = k' + 1 := by
      cases k with
      | zero => cases h
      | succ k => exact ⟨k, rfl⟩
    obtain ⟨_, -, ht⟩ := expand?_succ.1 h
    rw [hx] at ht
    cases ht
    refine expand?_succ.2 ⟨[], by rw [hinputs]; exact .nil, ?_⟩
    rw [hm, Term.ofNode?, hkey]
  | conversion hm hinputs =>
    refine expand?_succ.2 ⟨[t], by rw [hinputs]; exact .cons h .nil, ?_⟩
    rw [hm]
    rfl

/-- Replacing an input by a node that represents it keeps the terms of all nodes.  Every step
down a path may now lead through such a node. -/
theorem expand?_rewired (h : WellFormed g) (hx : (g.inputs n)[slot]? = some x) (hmn : m ≠ n)
    (hrep : Represents g x m) (hu : g.expand? k a = some t) :
    (g.rewired n slot m).expand? (2 * k) a = some t := by
  obtain ⟨hslot, -⟩ := List.getElem?_eq_some_iff.1 hx
  have hsame : ∀ b ≠ n, (g.rewired n slot m).inputs b = g.inputs b := by
    intro b hb
    rw [inputs_rewired h hslot, if_neg hb]
  -- the node that takes the place represents the input in the new graph too
  have hrep' : Represents (g.rewired n slot m) x m := by
    cases hrep with
    | constant hx hm hkey hinputs => exact .constant hx hm hkey ((hsame m hmn).trans hinputs)
    | conversion hm hinputs => exact .conversion hm ((hsame m hmn).trans hinputs)
  induction k generalizing a t with
  | zero => cases hu
  | succ k ih =>
    obtain ⟨ts, hts, ht⟩ := expand?_succ.1 hu
    have hold : List.Forall₂ (fun y t => (g.rewired n slot m).expand? (2 * k) y = some t)
        (g.inputs a) ts := hts.imp fun _ _ hy => ih hy
    refine expand?_succ.2 ⟨ts, ?_, ht⟩
    by_cases han : a = n
    · subst han
      rw [inputs_rewired h hslot, if_pos rfl]
      exact forall₂_set hold (fun _ _ hy => expand?_le (Nat.le_succ _) hy) hx
        fun _ hy => hrep'.expand? hy
    · rw [hsame a han]
      exact hold.imp fun _ _ hy => expand?_le (Nat.le_succ _) hy

/-! ## Adjustments and passes -/

/-- **An adjustment keeps all nodes, their kinds and their terms.** -/
theorem same_adjusts (hg : Built g) (ha : Adjusts g g') (hn : n < g.count) :
    n < g'.count ∧ g'.kindOf n = g.kindOf n ∧ g'.term? n = g.term? n := by
  have hg' := built_adjusts hg ha
  obtain ⟨hx, hrequired, -, hle, hs, hr⟩ := ha
  rename_i g₁ c slot x m t
  obtain ⟨h, ht⟩ := wellFormed_typed_of_built hg
  have hxlt := h.input_lt (List.mem_of_getElem? hx)
  have hc := h.lt_of_mem_inputs (List.mem_of_getElem? hx)
  have hadv := hs.advances h ht hle c
  have hrep := hs.represents h hxlt
  rw [← hadv.requirements c hc] at hrequired
  rw [← hs.inputs h hc] at hx
  obtain ⟨hslot, hm, rfl⟩ := (rewire_eq_ok hadv.wellFormed.toConsistent).1 hr
  have hw := wellFormed_rewired hadv.wellFormed hslot hm
  have hre := retyped_refresh c g₁.count (g₁.rewired c slot m) [c]
  have hn₁ : n < g₁.count := Nat.lt_of_lt_of_le hn hadv.count_le
  have hn' : n < (refresh c g₁.count (g₁.rewired c slot m) [c]).count := by
    rw [hre.count]
    exact hn₁
  refine ⟨hn', ?_, ?_⟩
  · rw [hre.kindOf]
    exact hadv.kindOf n hn
  · -- the term is followed through the two steps and the types that are set at the end
    obtain ⟨t, hterm⟩ := exists_term? hg hn
    have hadded : g₁.expand? g.count n = some t :=
      expand?_congr h hadv.kindOf (fun a ha => hs.inputs h ha) hn hterm
    have hrewired : (g₁.rewired c slot m).expand? (2 * g.count) n = some t :=
      expand?_rewired hadv.wellFormed hx (hrep.ne hrequired) hrep hadded
    rw [hterm]
    exact term?_of_expand? hg' hn'
      (expand?_congr hw (fun a _ => hre.kindOf a) (fun a _ => hre.inputs a) hn₁ hrewired)

/-- **A pass keeps the meaning of a graph**, whether it succeeds or stops half way: every node
that was there is there under its number, is of the same kind and has the same term, and it had
one before. -/
theorem same_meaning_solve (hg : Built g) (hn : n < g.count) :
    n < (solve g).state.count ∧ (solve g).state.kindOf n = g.kindOf n ∧
      ∃ t, g.term? n = some t ∧ (solve g).state.term? n = some t := by
  obtain ⟨h, ht⟩ := wellFormed_typed_of_built hg
  obtain ⟨t, hterm⟩ := exists_term? hg hn
  have hsteps := solve_adjusts h ht
  generalize (solve g).state = g' at hsteps ⊢
  -- what one adjustment keeps is kept along the run, which goes through built graphs
  have hrun : Built g' ∧ n < g'.count ∧ g'.kindOf n = g.kindOf n ∧ g'.term? n = g.term? n := by
    induction hsteps with
    | refl => exact ⟨hg, hn, rfl, rfl⟩
    | tail _ ha ih =>
      obtain ⟨hg₁, hn₁, hkind, hterm⟩ := ih
      obtain ⟨hn', hkind', hterm'⟩ := same_adjusts hg₁ ha hn₁
      exact ⟨built_adjusts hg₁ ha, hn', hkind'.trans hkind, hterm'.trans hterm⟩
  obtain ⟨-, hn', hkind, hterm'⟩ := hrun
  exact ⟨hn', hkind, t, hterm, hterm'.trans hterm⟩

namespace Halted

/-- A normal variable cannot be the scale of another one. -/
def nodes : List (NodeKind × List NodeId) :=
  [(.constant (.scalar 0) none, []), (.constant (.scalar 2) none, []),
    (.distribution .normal, [0, 1]), (.sample, [2]), (.distribution .halfCauchy, [3])]

def graph : Graph := nodes.foldl (fun g node => (g.add node.1 node.2).state) .empty

theorem built_graph : Built graph := built_foldl_add nodes .empty

end Halted

/-- The pass has replaced both parameters of the normal variable when it stops. -/
theorem same_meaning_solve_halted :
    Built Halted.graph ∧ (solve Halted.graph).result.toOption = none ∧
      Halted.graph.inputs 2 = [0, 1] ∧ (solve Halted.graph).state.inputs 2 = [5, 6] ∧
      3 < (solve Halted.graph).state.count ∧
      (solve Halted.graph).state.kindOf 3 = Halted.graph.kindOf 3 ∧
      ∃ t, Halted.graph.term? 3 = some t ∧ (solve Halted.graph).state.term? 3 = some t :=
  ⟨Halted.built_graph, by decide +kernel, by decide +kernel, by decide +kernel,
    same_meaning_solve Halted.built_graph (by decide +kernel)⟩

end Graph

end Stochastic
