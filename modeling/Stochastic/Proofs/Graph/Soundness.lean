import Stochastic.Proofs.Graph.Order
import Stochastic.Proofs.Graph.Pass

/-!
# Soundness of a pass

After a pass that succeeds every input of every node meets what the node asks of it.  A pass
visits every node of the graph once.  When a node is visited its inputs are made to meet its
requirements one by one, and neither replacing the later inputs nor visiting other nodes
changes what it asks for or what its inputs are.

## Main results

* `Graph.forM_meetSlot_advances`, `Graph.solveNode_advances` — one node.
* `Graph.forM_solveNode_meetsAt` — a list of nodes.
* `Graph.satisfied_of_solve` — the whole pass.
-/

namespace Stochastic.Graph

variable {g : Graph} {p p' : Pass} {n : Nat}

/-- What has been done at the slots before `k` stays done while the inputs from slot `k` on take
their turns. -/
theorem forM_meetSlot_advances (edges : List (NodeId × Requirement)) (k : Nat)
    (h : WellFormed p.graph) (ht : Typed p.graph) (hn : n < p.graph.count)
    (hedges : p.graph.EdgesFrom n k edges)
    (hdone : ∀ i < k, p.graph.MeetsAt n i)
    (hrun : ((edges.zipIdx k).forM (meetSlot n) : Solver Unit) p = .ok () p') :
    Advances p.graph p'.graph n ∧ ∀ i < k + edges.length, p'.graph.MeetsAt n i := by
  induction edges generalizing k p with
  | nil =>
    cases Step.forM_nil_eq_ok.1 hrun
    exact ⟨.refl h ht n, hdone⟩
  | cons edge edges ih =>
    obtain ⟨x, required⟩ := edge
    obtain ⟨p₁, hfirst, hrest⟩ := Step.forM_cons_eq_ok.1 hrun
    obtain ⟨hx, hrequired⟩ := hedges 0 x required rfl
    obtain ⟨ha, hmet, hothers⟩ := meetSlot_advances h ht hx hrequired hfirst
    have hearlier : ∀ i < k + 1, p₁.graph.MeetsAt n i := by
      intro i hi
      by_cases hik : i = k
      · exact hik ▸ hmet
      · exact ha.meetsAt h hn (hothers i hik) (hdone i (by omega))
    obtain ⟨ha', hall⟩ := ih (k + 1) ha.wellFormed ha.typed (Nat.lt_of_lt_of_le hn ha.count_le)
      (hedges.later ha hn hothers) hearlier hrest
    refine ⟨ha.trans ha' hn, fun i hi => hall i ?_⟩
    rw [List.length_cons] at hi
    omega

/-- A node asks one thing of each input. -/
theorem length_requirements (h : WellFormed g) (hn : n < g.count) :
    (g.requirements n).length = (g.inputs n).length := by
  have harity := h.arities n hn
  rw [← List.length_map (f := g.typeOf)] at harity
  simpa [Columns.requirements, Columns.inputTypes] using NodeKind.length_requirements _ _ harity

theorem solveNode_advances (h : WellFormed p.graph) (ht : Typed p.graph) (hn : n < p.graph.count)
    (hrun : solveNode n p = .ok () p') :
    Advances p.graph p'.graph n ∧ ∀ slot, p'.graph.MeetsAt n slot := by
  unfold solveNode at hrun
  simp only [Step.bind_eq_ok, Step.get_eq_ok] at hrun
  obtain ⟨p, _, ⟨rfl, rfl⟩, hrun⟩ := hrun
  have hlength := length_requirements h hn
  obtain ⟨ha, hmet⟩ := forM_meetSlot_advances _ 0 h ht hn (edgesFrom_zero p.graph n) (by simp) hrun
  refine ⟨ha, ?_⟩
  intro slot x required hx hrequired
  -- there are as many slots as there were before, and each had its turn
  have hslot : slot < (p.graph.requirements n).length := by
    rw [← ha.requirements n hn]
    exact (List.getElem?_eq_some_iff.1 hrequired).1
  exact hmet slot (by simp; omega) x required hx hrequired

/-- If all nodes but those of a list meet their requirements, then all do after the nodes of the
list have been visited. -/
theorem forM_solveNode_meetsAt (nodes : List NodeId) (h : WellFormed p.graph) (ht : Typed p.graph)
    (hnodes : ∀ n ∈ nodes, n < p.graph.count)
    (hdone : ∀ n < p.graph.count, n ∉ nodes → ∀ slot, p.graph.MeetsAt n slot)
    (hrun : (nodes.forM solveNode : Solver Unit) p = .ok () p') :
    WellFormed p'.graph ∧ ∀ n < p'.graph.count, ∀ slot, p'.graph.MeetsAt n slot := by
  induction nodes generalizing p with
  | nil =>
    cases Step.forM_nil_eq_ok.1 hrun
    exact ⟨h, fun n hn => hdone n hn List.not_mem_nil⟩
  | cons a nodes ih =>
    obtain ⟨p₁, hfirst, hrest⟩ := Step.forM_cons_eq_ok.1 hrun
    obtain ⟨ha, hnodes⟩ := List.forall_mem_cons.1 hnodes
    obtain ⟨hadv, hmet⟩ := solveNode_advances h ht ha hfirst
    refine ih hadv.wellFormed hadv.typed ?_ ?_ hrest
    · exact fun n hn => Nat.lt_of_lt_of_le (hnodes n hn) hadv.count_le
    · intro n hn hnot slot
      by_cases hna : n = a
      · exact hna ▸ hmet slot
      -- a node that was done stays done, and a node that was added has been added right
      by_cases hold : n < p.graph.count
      · refine hadv.meetsAt h hold (by rw [hadv.inputs n hold hna]) (hdone n hold ?_ slot)
        simp [hna, hnot]
      · exact hadv.added n hn (Nat.le_of_not_lt hold) slot

theorem solve_eq_ok {report : Report} (h : (solve g).result = .ok report) :
    ∃ order p, g.topologicalOrder = .ok order ∧
      (order.forM solveNode : Solver Unit) ⟨g, {}, []⟩ = .ok () p ∧ (solve g).state = p.graph := by
  unfold solve at h ⊢
  cases hpass : solvePass ⟨g, {}, []⟩ with
  | error e p => simp [hpass] at h
  | ok report' p =>
    unfold solvePass at hpass
    simp only [Step.bind_eq_ok, Step.get_eq_ok] at hpass
    obtain ⟨_, _, ⟨rfl, rfl⟩, hpass⟩ := hpass
    cases horder : g.topologicalOrder with
    | error e =>
      rw [horder] at hpass
      exact absurd hpass Step.throw_ne_ok
    | ok order =>
      rw [horder] at hpass
      simp only [Step.bind_eq_ok, Step.get_eq_ok, Step.pure_eq_ok] at hpass
      obtain ⟨_, p₁, hrun, _, _, ⟨rfl, rfl⟩, rfl, rfl⟩ := hpass
      exact ⟨order, _, rfl, hrun, rfl⟩

/-- Every input of every node meets what the node asks of it. -/
def Satisfied (g : Graph) : Prop := ∀ n < g.count, ∀ slot, g.MeetsAt n slot

/-- A pass that succeeds leaves a graph all of whose inputs meet what is asked of them. -/
theorem satisfied_state_solve {report : Report} (hg : Built g)
    (h : (solve g).result = .ok report) :
    WellFormed (solve g).state ∧ Satisfied (solve g).state := by
  obtain ⟨hw, ht⟩ := wellFormed_typed_of_built hg
  obtain ⟨order, p, horder, hrun, hstate⟩ := solve_eq_ok h
  -- the order leaves out no node, so at the beginning nothing has to be done already
  have hall : ∀ m, m ∈ order ↔ m < g.count := fun m => by
    rw [(perm_of_topologicalOrder hw.spans_length horder).mem_iff, List.mem_range]
  rw [hstate]
  exact forM_solveNode_meetsAt order hw ht (fun m hm => (hall m).1 hm)
    (fun m hm hnot => absurd ((hall m).2 hm) hnot) hrun

/-- After a pass that succeeds every node asks one thing of each of its inputs, old nodes and
new ones, and every input meets it. -/
theorem satisfied_of_solve {report : Report} (hg : Built g)
    (h : (solve g).result = .ok report) (n : NodeId) (hn : n < (solve g).state.count) :
    ((solve g).state.requirements n).length = ((solve g).state.inputs n).length ∧
      ∀ (slot : Nat) (x : NodeId) (required : Requirement),
        ((solve g).state.inputs n)[slot]? = some x →
        ((solve g).state.requirements n)[slot]? = some required →
        required.satisfied ((solve g).state.carried x) ((solve g).state.typeOf x) = true := by
  obtain ⟨hw, hsat⟩ := satisfied_state_solve hg h
  exact ⟨length_requirements hw hn, hsat n hn⟩

namespace Blend

/-- A sample and its exponential make up the mean of a normal variable. -/
def nodes : List (NodeKind × List NodeId) :=
  [(.constant (.scalar 0.5) none, []), (.distribution .bernoulli, [0]), (.sample, [1]),
    (.constant (.scalar 2) none, []), (.operator .addition, [2, 3]),
    (.distribution .normal, [4, 3]), (.sample, [5]), (.query, [6]), (.operator .exp, [2])]

def added : Graph := nodes.foldl (fun g node => (g.add node.1 node.2).state) .empty

/-- The sum reads a node that was added after it. -/
def graph : Graph := refresh 4 added.count (added.rewired 4 1 8) [4]

theorem built_added : Built added := built_foldl_add nodes .empty

theorem rewire_added : added.rewire 4 1 8 = .ok graph :=
  (rewire_eq_ok (wellFormed_typed_of_built built_added).1.toConsistent).2
    ⟨by decide +kernel, by decide +kernel, rfl⟩

theorem built_graph : Built graph := by
  refine .rewire built_added rewire_added ?_
  apply acyclic_of_rank fun n => [0, 1, 2, 0, 4, 5, 6, 7, 3].getD n 0
  · decide +kernel
  · exact (wellFormed_rewire (wellFormed_typed_of_built built_added).1 rewire_added).toConsistent

theorem solve_graph : (solve graph).result = .ok ⟨2, 1⟩ := by
  have hresult : (solve graph).result.toOption = some ⟨2, 1⟩ := by decide +kernel
  cases h : (solve graph).result with
  | error e => rw [h] at hresult; cases hresult
  | ok report => rw [h] at hresult; cases hresult; rfl

end Blend

/-- The parameters of the normal variable: a conversion of the sum and a constant with the type
asked for. -/
theorem satisfied_of_solve_blend :
    Built Blend.graph ∧ (solve Blend.graph).result = .ok ⟨2, 1⟩ ∧
      (solve Blend.graph).state.inputs 5 = [10, 11] ∧
      ((solve Blend.graph).state.requirements 5).length =
        ((solve Blend.graph).state.inputs 5).length ∧
      ∀ (slot : Nat) (x : NodeId) (required : Requirement),
        ((solve Blend.graph).state.inputs 5)[slot]? = some x →
        ((solve Blend.graph).state.requirements 5)[slot]? = some required →
        required.satisfied ((solve Blend.graph).state.carried x)
          ((solve Blend.graph).state.typeOf x) = true :=
  ⟨Blend.built_graph, Blend.solve_graph, by decide +kernel,
    satisfied_of_solve Blend.built_graph Blend.solve_graph 5 (by decide +kernel)⟩

end Stochastic.Graph
