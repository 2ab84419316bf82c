import Mathlib.Data.List.TakeWhile
import Stochastic.Proofs.Graph.Redirection
import Stochastic.Proofs.Graph.Repetition

/-!
# Nodes that pass their input through

A sample, an observation and a query have one input, and ask it for the type that it has by its
value.  Distributions and samples carry this type, so samples and observations read what they
read, whatever becomes of a pass.  A constant carries the type that it is declared to have.  If
this is not the type of its value, then a query does not keep the constant: once the pass is done
with the query, it reads the constant of the same value that is declared to have its own type.

## Main definitions

* `NodeKind.isPassThrough` — samples, observations and queries.
* `Columns.Redeclared` — a constant with a declared type that is not the one of its value.
* `Columns.finished` — the nodes that a pass is done with when it ends.

## Main results

* `Graph.forM_solveNode_finished` — what is known of nodes that are done, and of the others.
* `Graph.satisfied_iff_not_redeclared` — which inputs meet what is asked when it is their type.
* `Graph.solve_passThrough` — what becomes of the input of such a node.
-/

namespace Stochastic

/-- Whether a node of this kind passes its input through. -/
def NodeKind.isPassThrough : NodeKind → Bool
  | .sample => true
  | .observation _ => true
  | .query => true
  | _ => false

namespace Columns

/-- A node is a constant with a declared type that is not the one of its value. -/
def Redeclared (c : Columns) (x : NodeId) : Prop :=
  ∃ value t, c.kindOf x = .constant value (some t) ∧ t ≠ ValueType.classify value

/-- The nodes that a pass is done with when it ends: those before the first one with a demand that
cannot be met. -/
def finished (c : Columns) (order : List NodeId) : List NodeId :=
  order.takeWhile fun n => decide (∀ d ∈ c.demandsOf n, c.Meetable d.input d.required)

end Columns

namespace Graph

variable {g g' : Graph} {p p' : Pass} {n m x slot : Nat}

/-! ## Nodes that are done -/

theorem Underway.meetsAt (hu : Underway g g') (h : WellFormed g) (hn : n < g.count)
    (hinputs : g'.inputs n = g.inputs n) (hmet : g.MeetsAt n slot) : g'.MeetsAt n slot :=
  hmet.congr (by rw [hinputs]) (hu.requirements n hn) fun x hx =>
    ⟨hu.kindOf x (h.input_lt hx), hu.typeOf x (h.input_lt hx)⟩

theorem findSome?_verdict_eq_none : (g.demandsOf n).findSome? (verdict g) = none ↔
    ∀ d ∈ g.demandsOf n, g.Meetable d.input d.required := by
  simp [verdict]

/-- The first of the nodes that are still to be visited is done if all that it asks for can be met,
and the pass goes on; else the pass ends there. -/
theorem leaves_cons_solveNode {a : NodeId} {nodes : List NodeId} (hadm : Admitted g)
    (hwf : WellFormed g) (h : AtNodes g (a :: nodes) p)
    (hl : Step.Leaves ((a :: nodes).forM solveNode : Solver Unit) p p') :
    (∀ d ∈ g.demandsOf a, g.Meetable d.input d.required) ∧
      (∃ p₁, solveNode a p = .ok () p₁ ∧ AtNodes g nodes p₁ ∧
        Step.Leaves (nodes.forM solveNode : Solver Unit) p₁ p') ∨
    ¬ (∀ d ∈ g.demandsOf a, g.Meetable d.input d.required) ∧
      ∃ e, solveNode a p = .error e p' := by
  have hdecided := decided_atNodes hadm hwf a nodes p h
  have hends := Step.leaves_forM_cons hl
  by_cases hall : ∀ d ∈ g.demandsOf a, g.Meetable d.input d.required
  · rw [findSome?_verdict_eq_none.2 hall] at hdecided
    obtain ⟨p₁, hfirst, hrest⟩ := hdecided
    refine .inl ⟨hall, p₁, hfirst, hrest, ?_⟩
    rcases hends with ⟨e, herror⟩ | ⟨p₂, hok, hlater⟩
    · cases hfirst.symm.trans herror
    · cases hfirst.symm.trans hok
      exact hlater
  · obtain ⟨e, he⟩ := Option.ne_none_iff_exists'.1 (mt findSome?_verdict_eq_none.1 hall)
    rw [he] at hdecided
    obtain ⟨p₁, hfails⟩ := hdecided
    refine .inr ⟨hall, ?_⟩
    rcases hends with herror | ⟨p₂, hok, -⟩
    · exact herror
    · cases hfails.symm.trans hok

/-- The nodes that are done when a pass ends have inputs that meet what is asked of them.  The
others read what they read, but for the one at which the pass has failed. -/
theorem forM_solveNode_finished (hadm : Admitted g) (hwf : WellFormed g) (nodes : List NodeId)
    (h : AtNodes g nodes p) (hl : Step.Leaves (nodes.forM solveNode : Solver Unit) p p') :
    (∀ n ∈ g.finished nodes, ∀ slot, p'.graph.MeetsAt n slot) ∧
      ∀ n < g.count, n ∉ g.finished nodes →
        (∀ d ∈ g.demandsOf n, g.Meetable d.input d.required) →
        p'.graph.inputs n = p.graph.inputs n := by
  induction nodes generalizing p with
  | nil =>
    rw [Step.leaves_forM_nil hl]
    exact ⟨fun n hn => absurd hn List.not_mem_nil, fun _ _ _ _ => rfl⟩
  | cons a nodes ih =>
    have hu := h.underway
    have ha := h.known a List.mem_cons_self
    have hap := Nat.lt_of_lt_of_le ha hu.count_le
    rcases leaves_cons_solveNode hadm hwf h hl with
      ⟨hall, p₁, hfirst, hrest, hlater⟩ | ⟨hall, e, hfails⟩
    · have hfinished : g.finished (a :: nodes) = a :: g.finished nodes :=
        List.takeWhile_cons_of_pos (by simpa using hall)
      rw [hfinished]
      obtain ⟨hadv, hmet⟩ := solveNode_advances hu.wellFormed hu.typed hap hfirst
      obtain ⟨hdone, hothers⟩ := ih hrest hlater
      -- the node is not visited again, so its inputs stay as they are now
      have hnot : a ∉ g.finished nodes := fun hmem =>
        (List.nodup_cons.1 h.nodup).1 ((List.takeWhile_sublist _).subset hmem)
      have hsteps := forM_solveNode_adjusts nodes hadv.wellFormed hadv.typed
        (fun n hn => Nat.lt_of_lt_of_le (hrest.known n hn) hrest.underway.count_le) hlater
      have hu' := (Underway.refl hadv.wellFormed hadv.typed).adjusts hsteps
      refine ⟨List.forall_mem_cons.2 ⟨fun slot => ?_, hdone⟩, fun n hn hnone hmeetable => ?_⟩
      · exact hu'.meetsAt hadv.wellFormed (Nat.lt_of_lt_of_le hap hadv.count_le)
          (hothers a ha hnot hall) (hmet slot)
      · obtain ⟨hna, hnone⟩ := not_or.1 (List.mem_cons.not.1 hnone)
        rw [hothers n hn hnone hmeetable, hadv.inputs n (Nat.lt_of_lt_of_le hn hu.count_le) hna]
    · have hfinished : g.finished (a :: nodes) = [] :=
        List.takeWhile_cons_of_neg (by simpa using hall)
      rw [hfinished]
      refine ⟨fun n hn => absurd hn List.not_mem_nil, fun n hn _ hmeetable => ?_⟩
      -- the pass fails at another node, and has changed no other
      have hna : n ≠ a := by
        rintro rfl
        exact hall hmeetable
      obtain ⟨hadv, -⟩ := solveNode_adjusts hu.wellFormed hu.typed hap (.inr ⟨e, hfails⟩)
      exact hadv.inputs n (Nat.lt_of_lt_of_le hn hu.count_le) hna

/-- The same at the end of a whole pass. -/
theorem solve_finished {order : List NodeId} (hg : Added g)
    (horder : g.topologicalOrder = .ok order) :
    (∀ n ∈ g.finished order, ∀ slot, (solve g).state.MeetsAt n slot) ∧
      ∀ n < g.count, n ∉ g.finished order →
        (∀ d ∈ g.demandsOf n, g.Meetable d.input d.required) →
        (solve g).state.inputs n = g.inputs n := by
  obtain ⟨hwf, ht⟩ := wellFormed_typed_of_built hg.built
  rcases solve_leaves g with ⟨e, herror, -⟩ | ⟨order', p, horder', hl, hstate⟩
  · cases horder.symm.trans herror
  · cases horder.symm.trans horder'
    rw [hstate]
    exact forM_solveNode_finished (admitted_of_added hg) hwf order (atNodes_order hwf ht horder) hl

/-- A pass that succeeds is done with all nodes. -/
theorem mem_finished_of_ok {order : List NodeId} {report : Report} (hg : Added g)
    (horder : g.topologicalOrder = .ok order) (h : (solve g).result = .ok report)
    (hn : n < g.count) : n ∈ g.finished order := by
  obtain ⟨hwf, -⟩ := wellFormed_typed_of_built hg.built
  have hperm := perm_of_topologicalOrder hwf.spans_length horder
  have hnone : ((g.demands order).find? fun d => decide (¬ g.Meetable d.input d.required)) =
      none := by
    have hdecided := decided_solve hg horder
    generalize (g.demands order).find? (fun d => decide (¬ g.Meetable d.input d.required)) = first
      at hdecided ⊢
    cases first with
    | none => rfl
    | some d =>
      obtain ⟨p, hrun⟩ := hdecided
      cases h.symm.trans (solve_result_of_error horder hrun)
  have hmeetable := (find?_demands_eq_none hwf hperm).1 hnone
  have hall : g.finished order = order := by
    refine List.takeWhile_eq_self_iff.2 fun m _ => decide_eq_true fun d hd => ?_
    obtain ⟨-, hx, hrequired⟩ := mem_demandsOf.1 hd
    exact hmeetable m d.slot d.input d.required hx hrequired
  rw [hall, hperm.mem_iff]
  exact List.mem_range.2 hn

/-! ## Nodes with one input of their own type -/

/-- A node that passes its input through asks it for the type that it has. -/
theorem exists_input_of_passThrough (h : WellFormed g) (hn : n < g.count)
    (hk : (g.kindOf n).isPassThrough = true) :
    ∃ x, x < g.count ∧ g.inputs n = [x] ∧ g.requirements n = [.exact (g.typeOf x)] := by
  have harity := h.arities n hn
  obtain ⟨x, hx⟩ : ∃ x, g.inputs n = [x] := by
    apply List.length_eq_one_iff.1
    cases hkind : g.kindOf n <;>
      simp_all [NodeKind.isPassThrough, NodeKind.arity, NodeKind.Arity.allows]
  refine ⟨x, h.input_lt (hx ▸ List.mem_singleton_self x), hx, ?_⟩
  unfold Columns.requirements Columns.inputTypes
  rw [hx]
  cases hkind : g.kindOf n <;> first | rfl | simp [hkind, NodeKind.isPassThrough] at hk

/-- An input that is asked for its own type has it, unless it is declared to have another. -/
theorem satisfied_iff_not_redeclared (ht : Typed g) (hx : x < g.count) :
    (Requirement.exact (g.typeOf x)).satisfied (g.carried x) (g.typeOf x) = true ↔
      ¬ g.Redeclared x := by
  have htype := ht.eq hx
  unfold inferred at htype
  unfold Columns.carried Columns.Redeclared Requirement.satisfied
  cases hkind : g.kindOf x with
  | constant value declared =>
    rw [hkind] at htype
    rw [htype]
    cases declared <;> simp [NodeKind.carriedType, NodeKind.infer]
  | _ => simp [NodeKind.carriedType]

/-- Only queries read constants. -/
theorem query_of_redeclared (hadm : Admitted g) (hk : (g.kindOf n).isPassThrough = true)
    (hx : x ∈ g.inputs n) (hr : g.Redeclared x) : g.kindOf n = .query := by
  have hadmits := hadm n x hx
  obtain ⟨value, t, hkind, -⟩ := hr
  rw [hkind] at hadmits
  cases hn : g.kindOf n with
  | query => rfl
  | sample | observation =>
    rw [hn] at hadmits
    cases hadmits
  | _ => simp [hn, NodeKind.isPassThrough] at hk

/-- What such a node asks for can be met: if not by the input, then by a constant. -/
theorem meetable_of_passThrough (ht : Typed g) (hx : x < g.count) (hinputs : g.inputs n = [x])
    (hrequirements : g.requirements n = [.exact (g.typeOf x)]) :
    ∀ d ∈ g.demandsOf n, g.Meetable d.input d.required := by
  intro d hd
  obtain ⟨-, hinput, hrequired⟩ := mem_demandsOf.1 hd
  rw [hinputs] at hinput
  rw [hrequirements] at hrequired
  rw [List.mem_singleton.1 (List.mem_of_getElem? hinput),
    List.mem_singleton.1 (List.mem_of_getElem? hrequired)]
  by_cases hr : g.Redeclared x
  · obtain ⟨value, t, hkind, -⟩ := hr
    exact .inr ⟨ValueType.le_refl _, .inl (by rw [hkind]; rfl)⟩
  · exact .inl ((satisfied_iff_not_redeclared ht hx).2 hr)

/-- A node with one input has one input throughout a pass. -/
theorem Underway.inputs_eq_singleton (hu : Underway g g') (h : WellFormed g) (hn : n < g.count)
    (hx : g.inputs n = [x]) (hm : (g'.inputs n)[0]? = some m) : g'.inputs n = [m] := by
  have hlength := hu.length_inputs h hn
  rw [hx] at hlength
  obtain ⟨y, hy⟩ := List.length_eq_one_iff.1 hlength
  rw [hy] at hm ⊢
  cases hm
  rfl

/-! ## A whole pass -/

/-- **What becomes of the input of a sample, an observation or a query.**  The input is asked for
its own type.  It has it unless it is a constant that is declared to have another, and then the
node is a query.  Such a query reads the same constant with its own type once the pass is done
with it, which it is if the pass succeeds.  In all other cases the input is what it was, whether
the pass succeeds or fails. -/
theorem solve_passThrough (hg : Added g) :
    ∃ order, g.topologicalOrder = .ok order ∧
      ((∃ report, (solve g).result = .ok report) → ∀ n < g.count, n ∈ g.finished order) ∧
      ∀ n < g.count, (g.kindOf n).isPassThrough = true →
        ∃ x, g.inputs n = [x] ∧ g.requirements n = [.exact (g.typeOf x)] ∧
          ((Requirement.exact (g.typeOf x)).satisfied (g.carried x) (g.typeOf x) = true ↔
            ¬ g.Redeclared x) ∧
          (g.Redeclared x → g.kindOf n = .query) ∧
          (¬ (g.Redeclared x ∧ n ∈ g.finished order) → (solve g).state.inputs n = [x]) ∧
          (g.Redeclared x ∧ n ∈ g.finished order → ∃ m ≠ x, (solve g).state.inputs n = [m] ∧
            (solve g).state.insertion? m = some (g.wanted x (g.typeOf x))) := by
  obtain ⟨hwf, ht⟩ := wellFormed_typed_of_built hg.built
  have hred := redirected_solve hwf ht
  have hu := hred.underway
  obtain ⟨order, horder⟩ := exists_topologicalOrder hwf.toConsistent (acyclic_of_built hg.built)
  obtain ⟨hdone, hothers⟩ := solve_finished hg horder
  refine ⟨order, horder, fun ⟨report, hok⟩ n => mem_finished_of_ok hg horder hok, ?_⟩
  intro n hn hk
  obtain ⟨x, hx, hinputs, hrequirements⟩ := exists_input_of_passThrough hwf hn hk
  have hsat := satisfied_iff_not_redeclared ht hx
  have hinput : (g.inputs n)[0]? = some x := by rw [hinputs]; rfl
  have hrequired : (g.requirements n)[0]? = some (.exact (g.typeOf x)) := by
    rw [hrequirements]; rfl
  refine ⟨x, hinputs, hrequirements, hsat,
    query_of_redeclared (admitted_of_added hg) hk (List.mem_of_getElem? hinput), fun hnot => ?_, ?_⟩
  · by_cases hr : g.Redeclared x
    · -- the pass has failed before it came to the node
      rw [hothers n hn (fun hmem => hnot ⟨hr, hmem⟩)
        (meetable_of_passThrough ht hx hinputs hrequirements), hinputs]
    · -- the input meets what is asked of it
      rcases hred.edges hinput with hsame | ⟨t, m, hredirects⟩
      · exact hu.inputs_eq_singleton hwf hn hinputs hsame
      · cases hrequired.symm.trans hredirects.required
        exact absurd (hsat.2 hr) hredirects.unmet
  · rintro ⟨hr, hmem⟩
    have hunmet := mt hsat.1 (not_not.2 hr)
    obtain ⟨m, hredirects⟩ := hred.redirects hwf hinput hrequired hunmet (hdone n hmem 0)
    refine ⟨m, ?_, hu.inputs_eq_singleton hwf hn hinputs hredirects.input, hredirects.insertion⟩
    -- what has taken the place of the input carries another type
    rintro rfl
    have hcarried := carried_of_insertion? hu.typed
      (hu.wellFormed.input_lt (List.mem_of_getElem? hredirects.input)) hredirects.insertion
    rw [Columns.type_wanted, hu.carried hx] at hcarried
    exact hunmet (by simp [Requirement.satisfied, Requirement.target, hcarried])

namespace Relabelled

/-- One that is declared to be real is asked for as it is, and is the scale of a variable that is
observed and asked for. -/
def nodes : List (NodeKind × List NodeId) :=
  [(.constant (.scalar 1) (some .real), []), (.query, [0]), (.distribution .halfCauchy, [0]),
    (.sample, [2]), (.observation (.scalar 2), [3]), (.query, [3])]

def graph : Graph := nodes.foldl (fun g node => (g.add node.1 node.2).state) .empty

theorem added_graph : Added graph := added_foldl_add nodes .empty

/-- The constant and its query alone. -/
def pair : Graph := (nodes.take 2).foldl (fun g node => (g.add node.1 node.2).state) .empty

theorem added_pair : Added pair := added_foldl_add (nodes.take 2) .empty

end Relabelled

/-- The sample, the observation and the query of the sample read what they read.  The other query
reads another node than before. -/
theorem solve_passThrough_relabelled :
    Added Relabelled.graph ∧ (solve Relabelled.graph).result.isOk ∧
    (∀ n ∈ [3, 4, 5], (solve Relabelled.graph).state.inputs n = Relabelled.graph.inputs n) ∧
    Relabelled.graph.inputs 1 = [0] ∧ ∃ m ≠ 0, (solve Relabelled.graph).state.inputs 1 = [m] := by
  have hok : (solve Relabelled.graph).result.isOk := by decide +kernel
  obtain ⟨order, -, hfinished, hall⟩ := solve_passThrough Relabelled.added_graph
  have hpass : ∀ n ∈ [1, 3, 4, 5], n < Relabelled.graph.count ∧
      (Relabelled.graph.kindOf n).isPassThrough = true := by decide +kernel
  have hmet : ∀ n ∈ [3, 4, 5], ∀ x ∈ Relabelled.graph.inputs n,
      (Requirement.exact (Relabelled.graph.typeOf x)).satisfied (Relabelled.graph.carried x)
        (Relabelled.graph.typeOf x) = true := by decide +kernel
  refine ⟨Relabelled.added_graph, hok, fun n hn => ?_, by decide +kernel, ?_⟩
  · obtain ⟨hlt, hk⟩ := hpass n (List.mem_cons_of_mem 1 hn)
    obtain ⟨x, hinputs, -, hsat, -, hkept, -⟩ := hall n hlt hk
    have hx := hmet n hn x (hinputs ▸ List.mem_singleton_self x)
    rw [hkept fun hr => hsat.1 hx hr.1, hinputs]
  · obtain ⟨hlt, hk⟩ := hpass 1 (by simp)
    obtain ⟨x, hinputs, -, hsat, -, -, hreplaced⟩ := hall 1 hlt hk
    obtain rfl : x = 0 := by
      have hzero : Relabelled.graph.inputs 1 = [0] := by decide +kernel
      cases hinputs.symm.trans hzero
      rfl
    have hr : Relabelled.graph.Redeclared 0 := by
      by_contra hnot
      exact absurd (hsat.2 hnot) (by decide +kernel)
    have hreport : ∃ report, (solve Relabelled.graph).result = .ok report := by
      cases h : (solve Relabelled.graph).result with
      | ok report => exact ⟨report, rfl⟩
      | error e =>
        rw [h] at hok
        cases hok
    obtain ⟨m, hm, hinput, -⟩ := hreplaced ⟨hr, hfinished hreport 1 hlt⟩
    exact ⟨m, hm, hinput⟩

/-- A query of a constant is made to read another node. -/
theorem not_passThrough_pair :
    Added Relabelled.pair ∧ Acyclic Relabelled.pair ∧
    (Relabelled.pair.kindOf 1).isPassThrough = true ∧ Relabelled.pair.inputs 1 = [0] ∧
    (solve Relabelled.pair).result.isOk ∧ (solve Relabelled.pair).state.inputs 1 = [2] :=
  ⟨Relabelled.added_pair, acyclic_of_built Relabelled.added_pair.built, by decide +kernel,
    by decide +kernel, by decide +kernel, by decide +kernel⟩

end Graph

end Stochastic
