import Stochastic.Proofs.Graph.Adjustment
import Stochastic.Proofs.Graph.Decision
import Stochastic.Proofs.Graph.Sorting

/-!
# A second pass

A pass looks at the requirements that a node has when the node is visited, and these are
worked out from the types of its inputs.  The inputs of a graph that has been solved are not
those that the first pass looked at: they are constants and conversions with larger types.  A
second pass finds nothing to do all the same, since what a node asks of such inputs is what it
asked of the first, and all of them meet it.

## Main results

* `Graph.solve_of_satisfied` — a pass over a graph whose inputs meet all requirements changes
  nothing.
* `Graph.solve_again` — solving twice is solving once.
-/

namespace Stochastic.Graph

variable {g : Graph} {p : Pass} {n : Nat}

theorem meetSlot_of_satisfied {x slot : Nat} {required : Requirement}
    (hsat : required.satisfied (p.graph.carried x) (p.graph.typeOf x) = true) :
    meetSlot n ((x, required), slot) p = .ok () p := by
  unfold meetSlot
  rw [Step.bind_eq_ok]
  exact ⟨none, p, meet_eq_none hsat, rfl⟩

/-- A node whose inputs meet its requirements is passed by. -/
theorem solveNode_of_meetsAt (h : ∀ slot, p.graph.MeetsAt n slot) :
    solveNode n p = .ok () p := by
  unfold solveNode
  rw [Step.get_bind]
  have hmet : ∀ edge ∈ ((p.graph.inputs n).zip (p.graph.requirements n)).zipIdx,
      meetSlot n edge p = .ok () p := by
    rintro ⟨⟨x, required⟩, slot⟩ hedge
    rw [List.mem_zipIdx_iff_getElem?, List.zip, List.getElem?_zipWith_eq_some] at hedge
    obtain ⟨x', required', hx, hrequired, heq⟩ := hedge
    cases heq
    exact meetSlot_of_satisfied (h slot x required hx hrequired)
  exact Step.forM_eq_ok_self hmet

/-- A pass over a graph whose inputs meet all requirements changes nothing, reports nothing and
logs nothing. -/
theorem solve_of_satisfied (h : WellFormed g) (hac : Acyclic g) (hsat : Satisfied g) :
    solve g = ⟨g, .ok {}, []⟩ := by
  obtain ⟨order, horder⟩ := exists_topologicalOrder h.toConsistent hac
  have hperm := perm_of_topologicalOrder h.spans_length horder
  have hrun : (order.forM solveNode : Solver Unit) ⟨g, {}, []⟩ = .ok () ⟨g, {}, []⟩ := by
    apply Step.forM_eq_ok_self
    intro n hn
    rw [hperm.mem_iff, List.mem_range] at hn
    exact solveNode_of_meetsAt (hsat n hn)
  unfold solve solvePass
  rw [Step.get_bind, horder]
  simp only [bind, EStateM.bind, hrun]
  rfl

/-- **Solving twice is solving once.**  A graph that has been solved has no cycles, and a second
pass over it succeeds, adds nothing and leaves the graph as it is. -/
theorem solve_again {report : Report} (hg : Built g) (h : (solve g).result = .ok report) :
    Acyclic (solve g).state ∧ solve (solve g).state = ⟨(solve g).state, .ok {}, []⟩ := by
  obtain ⟨hw, hsat⟩ := satisfied_state_solve hg h
  have hac := acyclic_of_built (built_solve hg)
  exact ⟨hac, solve_of_satisfied hw hac hsat⟩

/-- The first pass over a blend adds two conversions and a constant. -/
theorem solve_again_blend :
    Built Blend.graph ∧ (solve Blend.graph).result = .ok ⟨2, 1⟩ ∧
      Acyclic (solve Blend.graph).state ∧
      solve (solve Blend.graph).state = ⟨(solve Blend.graph).state, .ok {}, []⟩ :=
  ⟨Blend.built_graph, Blend.solve_graph, solve_again Blend.built_graph Blend.solve_graph⟩

end Stochastic.Graph
