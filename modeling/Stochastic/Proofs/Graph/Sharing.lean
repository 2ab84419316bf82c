import Stochastic.Proofs.Graph.Adjustment
import Stochastic.Proofs.Graph.Restore

/-!
# Nodes that share cells

Loading checks that each span lies inside the input column, not that spans of different nodes
lie apart.  Where two nodes share a cell, replacing the input of one replaces it for the other as
well, which is then listed neither as a consumer of the new input nor with a new type.  This is
the only thing that can go wrong: a replacement in a graph that was loaded does what it should
exactly if no other node has the cell, or nothing is to be changed.

If no two nodes share cells, none do after a pass of the solver, which gives new nodes cells of
their own.

## Main definitions

* `Graph.Edits` — what replacing an input should do.

## Main results

* `Graph.edits_iff` — when a replacement in a consistent graph does what it should.
* `Graph.edits_loaded_iff` — replacements in a graph that was loaded.
-/

namespace Stochastic.Graph

variable {g g' : Graph} {c slot r : Nat}

/-- What replacing an input should do: it changes one slot of one node; afterwards consumers are
listed as often as they read, and types follow from those of the inputs. -/
structure Edits (g : Graph) (c : NodeId) (slot : Nat) (r : NodeId) (g' : Graph) : Prop where
  inputs : ∀ n, g'.inputs n = if n = c then (g.inputs c).set slot r else g.inputs n
  mirrored : ∀ a b, (g'.consumersOf a).count b = (g'.inputs b).count a
  typed : ∀ n < g'.count, g'.typeOf n = (g'.kindOf n).infer ((g'.inputs n).map g'.typeOf)

/-! ## One replacement -/

/-- A replacement that shows at one slot only does what it should. -/
theorem edits_of_inputs (h : Consistent g) (ht : Typed g) (hr : g.rewire c slot r = .ok g')
    (hac : Acyclic g') (hinputs : ∀ n, (g.rewired c slot r).inputs n =
      if n = c then (g.inputs c).set slot r else g.inputs n) : Edits g c slot r g' := by
  obtain ⟨hslot, hrc, rfl⟩ := (rewire_eq_ok h).1 hr
  have hre := retyped_refresh c g.count (g.rewired c slot r) [c]
  refine ⟨fun n => (hre.inputs n).trans (hinputs n), ?_, fun n hn => ?_⟩
  · exact (hre.consistent (consistent_rewired h hslot hrc hinputs)).mirrored
  · exact (typed_refresh_rewired h ht hslot hrc hinputs hac).eq hn

/-- Replacing an input by itself changes no input. -/
theorem inputs_rewired_self (h : Consistent g) (hx : (g.inputs c)[slot]? = some r) (n : Nat) :
    (g.rewired c slot r).inputs n = if n = c then (g.inputs c).set slot r else g.inputs n := by
  obtain ⟨hslot, hget⟩ := List.getElem?_eq_some_iff.1 hx
  obtain ⟨s, hs, hlt, hle⟩ := h.span_of_slot hslot
  have hcell : g.cells[s.start + slot]? = some r := (getElem?_cells hs hlt).trans hx
  have hcells : g.cells.set (g.cellOf c slot) r = g.cells := by
    obtain ⟨hin, hr⟩ := List.getElem?_eq_some_iff.1 hcell
    rw [cellOf_eq hs, ← hr, List.set_getElem_self]
  have hsame : (g.rewired c slot r).inputs n = g.inputs n := by
    simp only [Columns.inputs, Columns.slice, cells_rewired, spans_rewired, hcells]
  rw [hsame]
  by_cases hn : n = c
  · rw [if_pos hn, hn, ← hget, List.set_getElem_self]
  · rw [if_neg hn]

/-- At a node that shares the cell the replacement shows, unless it is there already. -/
theorem unshared_of_edits (h : Consistent g) (hr : g.rewire c slot r = .ok g')
    (hnew : (g.inputs c)[slot]? ≠ some r) (hedits : Edits g c slot r g') : g.Unshared c slot := by
  intro n hn s hs hcell
  obtain ⟨hslot, -, rfl⟩ := (rewire_eq_ok h).1 hr
  obtain ⟨t, ht, hlt, -⟩ := h.span_of_slot hslot
  have hre := retyped_refresh c g.count (g.rewired c slot r) [c]
  have hinputs := hedits.inputs n
  rw [if_neg hn, hre.inputs, inputs_rewired_of_mem hs hcell] at hinputs
  -- so the node reads the replacement from the cell that the two share
  have hcell' := Span.mem_cells.1 hcell
  have hin : g.cellOf c slot - s.start < s.length := by omega
  have hread : (g.inputs n)[g.cellOf c slot - s.start]? = (g.inputs c)[slot]? := by
    rw [← getElem?_cells hs hin, ← getElem?_cells ht hlt, ← cellOf_eq (g := g) ht]
    congr 1
    omega
  have hset := congrArg (·[g.cellOf c slot - s.start]?) hinputs
  have hlength : g.cellOf c slot - s.start < (g.inputs n).length := by
    have hle := h.within s (List.mem_of_getElem? hs)
    rw [inputs_of_span hs, Columns.slice, List.length_take, List.length_drop]
    omega
  rw [List.getElem?_set_self hlength, hread] at hset
  exact hnew hset.symm

/-- **A replacement does what it should** exactly if no other node has the cell, or the new input
is there already. -/
theorem edits_iff (h : Consistent g) (ht : Typed g) (hr : g.rewire c slot r = .ok g')
    (hac : Acyclic g') :
    Edits g c slot r g' ↔ (g.inputs c)[slot]? = some r ∨ g.Unshared c slot := by
  constructor
  · intro hedits
    by_cases hsame : (g.inputs c)[slot]? = some r
    · exact .inl hsame
    · exact .inr (unshared_of_edits h hr hsame hedits)
  · rintro (hsame | hunshared)
    · exact edits_of_inputs h ht hr hac (inputs_rewired_self h hsame)
    · obtain ⟨hslot, -, -⟩ := (rewire_eq_ok h).1 hr
      exact edits_of_inputs h ht hr hac (h.inputs_rewired hslot hunshared)

/-! ## Graphs that were loaded -/

/-- A consistent graph is well formed if no two of its spans share a cell. -/
theorem Consistent.wellFormed (h : Consistent g)
    (hapart : g.spans.Pairwise fun s t => List.Disjoint s.cells t.cells) : WellFormed g := by
  refine ⟨h, fun {a b s t} hs ht hab => ?_⟩
  obtain ⟨ha, rfl⟩ := List.getElem?_eq_some_iff.1 hs
  obtain ⟨hb, rfl⟩ := List.getElem?_eq_some_iff.1 ht
  rcases Nat.lt_or_gt_of_ne hab with hlt | hlt
  · exact List.pairwise_iff_getElem.1 hapart a b ha hb hlt
  · exact (List.pairwise_iff_getElem.1 hapart b a hb ha hlt).symm

/-- **Replacements in a graph that was loaded.**  One that succeeds and makes no cycle does what
it should exactly if no other node has the cell, or the new input is there already.  If no two
nodes share cells, then any such replacement does what it should also after a pass of the
solver. -/
theorem edits_loaded_iff {s : String} (h : ofText s = .ok g) :
    (∀ c slot r g', g.rewire c slot r = .ok g' → Acyclic g' →
      (Edits g c slot r g' ↔ (g.inputs c)[slot]? = some r ∨ g.Unshared c slot)) ∧
    (g.spans.Pairwise (fun s t => List.Disjoint s.cells t.cells) →
      ∀ c slot r g', (solve g).state.rewire c slot r = .ok g' → Acyclic g' →
        Edits (solve g).state c slot r g') := by
  obtain ⟨cols, -, hg⟩ := ofText_eq_ok.1 h
  refine ⟨fun c slot r g' => edits_iff hg.consistent hg.typed, fun hapart c slot r g' hr hac => ?_⟩
  obtain ⟨hw, ht⟩ := wellFormed_typed_solve (hg.consistent.wellFormed hapart) hg.typed
  obtain ⟨hslot, -, -⟩ := (rewire_eq_ok hw.toConsistent).1 hr
  exact (edits_iff hw.toConsistent ht hr hac).2 (.inr (hw.unshared hslot))

/-- A normal distribution of two constants, with a cell that belongs to no node. -/
def Scattered.columns : Columns where
  kinds := [.constant ⟨[], [0.5]⟩ none, .constant ⟨[], [2]⟩ none, .distribution .normal]
  cells := [9, 0, 1]
  spans := [⟨3, 0⟩, ⟨0, 0⟩, ⟨1, 2⟩]
  types := [.tensor, .tensor, .tensor]

theorem Scattered.storable : Scattered.columns.Storable where
  values := by
    have hhalf : (⟨[], [0.5]⟩ : Tensor Float).Storable := ⟨nofun, by decide +kernel⟩
    have htwo : (⟨[], [2]⟩ : Tensor Float).Storable := ⟨nofun, by decide +kernel⟩
    simp [columns, NodeKind.value?, hhalf, htwo]
  cells := by decide
  spans := by decide

/-- The graph of these columns. -/
def Scattered.graph : Graph := restored Scattered.columns 3

theorem Scattered.loaded : ofText (JsonForm.text Scattered.columns) = .ok Scattered.graph :=
  ofText_text_eq_ok Scattered.storable (by decide +kernel)

/-- The first parameter can be replaced by the second constant, before a pass of the solver, which
adds two constants, and after it. -/
theorem edits_loaded_iff_scattered :
    ofText (JsonForm.text Scattered.columns) = .ok Scattered.graph ∧
    (solve Scattered.graph).state.count = 5 ∧
    (∃ g', Scattered.graph.rewire 2 0 1 = .ok g' ∧ Acyclic g' ∧ Edits Scattered.graph 2 0 1 g') ∧
    ∃ g', (solve Scattered.graph).state.rewire 2 0 1 = .ok g' ∧ Acyclic g' ∧
      Edits (solve Scattered.graph).state 2 0 1 g' := by
  obtain ⟨hedits, hsolved⟩ := edits_loaded_iff Scattered.loaded
  obtain ⟨_, -, hrestored⟩ := ofText_eq_ok.1 Scattered.loaded
  have hapart : Scattered.graph.spans.Pairwise fun s t => List.Disjoint s.cells t.cells := by
    simp [Scattered.graph, Scattered.columns, Span.cells]
  have hw := hrestored.consistent.wellFormed hapart
  have hslot : 0 < (Scattered.graph.inputs 2).length := by decide +kernel
  have hr := (rewire_eq_ok hw.toConsistent).2 ⟨hslot, (by decide +kernel : 1 < _), rfl⟩
  have hac : Acyclic (refresh 2 Scattered.graph.count (Scattered.graph.rewired 2 0 1) [2]) :=
    acyclic_of_spans id (by decide +kernel)
  have hw' := (wellFormed_typed_solve hw hrestored.typed).1
  have hr' := (rewire_eq_ok hw'.toConsistent).2
    ⟨(by decide +kernel : 0 < ((solve Scattered.graph).state.inputs 2).length),
      (by decide +kernel : 1 < _), rfl⟩
  have hac' : Acyclic (refresh 2 (solve Scattered.graph).state.count
      ((solve Scattered.graph).state.rewired 2 0 1) [2]) :=
    acyclic_of_spans (fun n => if n = 2 then 1 else 0) (by decide +kernel)
  exact ⟨Scattered.loaded, by decide +kernel,
    ⟨_, hr, hac, (hedits 2 0 1 _ hr hac).2 (.inr (hw.unshared hslot))⟩,
    ⟨_, hr', hac', hsolved hapart 2 0 1 _ hr' hac'⟩⟩

/-- Two sums with the same span. -/
def Overlapping.columns : Columns where
  kinds := [.constant ⟨[], [0.5]⟩ none, .constant ⟨[], [-1]⟩ none, .operator .addition,
    .operator .addition]
  cells := [0, 0]
  spans := [⟨0, 0⟩, ⟨0, 0⟩, ⟨0, 2⟩, ⟨0, 2⟩]
  types := [.probability, .real, .positiveReal, .positiveReal]

theorem Overlapping.storable : Overlapping.columns.Storable where
  values := by
    have hhalf : (⟨[], [0.5]⟩ : Tensor Float).Storable := ⟨nofun, by decide +kernel⟩
    have hminus : (⟨[], [-1]⟩ : Tensor Float).Storable := ⟨nofun, by decide +kernel⟩
    simp [columns, NodeKind.value?, hhalf, hminus]
  cells := by decide
  spans := by decide

/-- The graph of these columns. -/
def Overlapping.graph : Graph := restored Overlapping.columns 4

theorem Overlapping.loaded : ofText (JsonForm.text Overlapping.columns) = .ok Overlapping.graph :=
  ofText_text_eq_ok Overlapping.storable (by decide +kernel)

/-- Replacing a summand of the first sum by a negative constant replaces it in the second sum as
well.  The second sum is not listed as a consumer of the constant, and it keeps its type, which
is that of a sum of positive numbers. -/
theorem not_edits_overlapping :
    ofText (JsonForm.text Overlapping.columns) = .ok Overlapping.graph ∧
    ∃ g', Overlapping.graph.rewire 2 0 1 = .ok g' ∧ Acyclic g' ∧
      Overlapping.graph.inputs 3 = [0, 0] ∧ g'.inputs 3 = [1, 0] ∧ g'.consumersOf 1 = [2] ∧
      g'.typeOf 3 = .positiveReal ∧ (g'.kindOf 3).infer ((g'.inputs 3).map g'.typeOf) = .real ∧
      ¬ Edits Overlapping.graph 2 0 1 g' := by
  obtain ⟨_, -, hrestored⟩ := ofText_eq_ok.1 Overlapping.loaded
  have hslot : 0 < (Overlapping.graph.inputs 2).length := by decide +kernel
  have hr := (rewire_eq_ok hrestored.consistent).2 ⟨hslot, (by decide +kernel : 1 < _), rfl⟩
  have hbefore : Overlapping.graph.inputs 3 = [0, 0] := by decide +kernel
  have hafter : (refresh 2 Overlapping.graph.count (Overlapping.graph.rewired 2 0 1) [2]).inputs 3 =
      [1, 0] := by decide +kernel
  refine ⟨Overlapping.loaded, _, hr, acyclic_of_spans id (by decide +kernel), hbefore, hafter,
    by decide +kernel, by decide +kernel, by decide +kernel, fun hedits => ?_⟩
  have hsame := hedits.inputs 3
  rw [hafter, if_neg (by decide), hbefore] at hsame
  exact absurd hsame (by decide)

end Stochastic.Graph
