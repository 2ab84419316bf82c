import Stochastic.Proofs.Graph.Checked
import Stochastic.Proofs.Graph.Restore

/-!
# Storing and loading a graph

A graph that was made by adding nodes is loaded from its text as it was.  Its consumers and its
index are made anew, in the order in which the nodes were added, by the steps that made them the
first time.

A pass of the solver puts the nodes that it adds behind those that read them.  Loading refuses
a node that reads one that comes later, so a graph is not loaded after a pass that added nodes,
nor after one that found a node behind the one that needed it.  Everything else that loading
checks still holds.

## Main definitions

* `Graph.Inserted` — nodes that a pass has added, and the nodes that read them.

## Main results

* `Graph.restored_of_added` — what is made anew is what was there.
* `Graph.rebuild_of_ordered`, `Graph.rebuild_of_late` — loading a checked graph.
* `Graph.inserted_solve` — each node that a pass adds is read by a node that was there before.
* `Graph.reload_added` — a graph made by adding nodes is loaded as it was.
* `Graph.reload_solved` — what becomes of a graph after a pass.
-/

namespace Stochastic.Graph

variable {g g' : Graph} {kind : NodeKind} {xs : List NodeId} {n m x k base : Nat}

/-! ## Making consumers and index anew -/

theorem connect_snoc {cs : List (List NodeId)} (hxs : ∀ x ∈ xs, x < cs.length) (c : NodeId)
    (last : List NodeId) : connect c xs (cs ++ [last]) = connect c xs cs ++ [last] := by
  induction xs generalizing cs with
  | nil => rfl
  | cons x xs ih =>
    obtain ⟨hx, hxs⟩ := List.forall_mem_cons.1 hxs
    have hmodify : (cs ++ [last]).modify x (· ++ [c]) = cs.modify x (· ++ [c]) ++ [last] := by
      apply List.ext_getElem?
      intro i
      rw [List.getElem?_modify, getElem?_snoc, getElem?_snoc, List.length_modify,
        List.getElem?_modify]
      by_cases hi : i = cs.length
      · subst hi
        simp [Nat.ne_of_lt hx]
      · simp [hi]
    change connect c xs ((cs ++ [last]).modify x (· ++ [c])) = _
    rw [hmodify, ih (by simpa using hxs)]
    rfl

/-- A node behind the others does not show in what is made of those before it, but for its own
empty list of consumers. -/
theorem restored_append (h : WellFormed g) (hk : k ≤ g.count) :
    restored (g.append kind xs).toColumns k =
      { (g.append kind xs).toColumns with
        types := (restored g.toColumns k).types
        consumers := (restored g.toColumns k).consumers ++ [[]]
        index := (restored g.toColumns k).index } := by
  induction k with
  | zero =>
    simp only [restored, blank, count_append, List.replicate_succ']
  | succ k ih =>
    have hne : k ≠ g.count := by omega
    have hxs : ∀ x ∈ g.inputs k, x < (restored g.toColumns k).consumers.length := by
      rw [consumers_length_restored]
      exact fun x hx => h.input_lt hx
    have hkind : (g.append kind xs).kindOf k = g.kindOf k := by rw [kindOf_append, if_neg hne]
    have hinputs : (g.append kind xs).inputs k = g.inputs k := by rw [inputs_append h, if_neg hne]
    rw [restored, restored, ih (by omega), hkind, hinputs]
    simp only [adopt, connect_snoc hxs]
    rfl

/-- **What is made anew is what was there**, in a graph made by adding nodes. -/
theorem restored_of_added (h : Added g) : restored g.toColumns g.count = g := by
  induction h with
  | empty => rfl
  | @add g kind xs hg ih =>
    obtain ⟨hw, -⟩ := wellFormed_typed_of_built hg.built
    rcases state_add g kind xs with hstate | ⟨-, hxs, -, hstate⟩
    · rwa [hstate]
    · rw [← hw.consumers_length] at hxs
      have hkind : (g.append kind xs).kindOf g.count = kind := by rw [kindOf_append, if_pos rfl]
      have hinputs : (g.append kind xs).inputs g.count = xs := by rw [inputs_append hw, if_pos rfl]
      rw [hstate, count_append, restored, restored_append hw (Nat.le_refl _), ih, hkind, hinputs]
      simp only [adopt, connect_snoc hxs, hw.types_length]
      rfl

/-! ## Loading a graph that is checked -/

/-- Types are inferred anew as they were, as long as nodes read earlier ones. -/
theorem typeOf_restored_eq (ht : Typed g) (hk : k ≤ g.count)
    (hearlier : ∀ m < k, ∀ x ∈ g.inputs m, x < m) (hn : n < k) :
    (restored g.toColumns k).typeOf n = g.typeOf n := by
  induction n using Nat.strongRecOn generalizing k with
  | ind n ih =>
    rw [typeOf_restored hn, ht.eq (Nat.lt_of_lt_of_le hn hk), inferred, Columns.inputTypes]
    congr 1
    apply List.map_congr_left
    intro x hx
    have hxn := hearlier n hn x hx
    exact ih x hxn (by omega) (fun m hm => hearlier m (by omega)) hxn

/-- A node passes its checks when its turn comes, if it and those before it read earlier ones. -/
theorem vet_of_checked (h : Consistent g) (ht : Typed g) (hc : Checked g) (hn : n < g.count)
    (hearlier : ∀ m ≤ n, ∀ x ∈ g.inputs m, x < m) : vet g.toColumns n = .ok () := by
  obtain ⟨s, hspan, hwithin⟩ := h.exists_span hn
  have hinputs := hearlier n (Nat.le_refl n)
  refine vet_eq_ok.2 ⟨?_, ?_⟩
  · rw [hspan, Option.getD_some, checkSpan_eq_ok, ← inputs_of_span hspan]
    exact ⟨hwithin, hinputs⟩
  · rw [← hc n hn]
    apply check_congr
    · exact fun x _ => kindOf_restored g.toColumns n x
    · intro x hx
      exact typeOf_restored_eq ht (Nat.le_of_lt hn) (fun m hm => hearlier m (Nat.le_of_lt hm))
        (hinputs x hx)

theorem Consistent.aligned (h : Consistent g) : Aligned g.toColumns :=
  ⟨h.spans_length, h.types_length⟩

/-- A checked graph in which nodes read earlier ones is loaded, with the types it had. -/
theorem rebuild_of_ordered (h : Consistent g) (ht : Typed g) (hc : Checked g) (ho : Ordered g) :
    rebuild g.toColumns = .ok (restored g.toColumns g.count) ∧
      (restored g.toColumns g.count).types = g.types := by
  have hvet : ∀ n < g.count, vet g.toColumns n = .ok () := fun n hn =>
    vet_of_checked h ht hc hn fun m hm => ho m (Nat.lt_of_le_of_lt hm hn)
  refine ⟨rebuild_eq_ok.2 ⟨h.aligned, hvet, rfl⟩, ?_⟩
  apply List.ext_getElem
  · rw [types_length_restored, h.types_length]
  · intro n hn hn'
    have htype := typeOf_restored_eq ht (Nat.le_refl _) ho (h.types_length ▸ hn')
    rw [Columns.typeOf, Columns.typeOf, List.getElem?_eq_getElem hn,
      List.getElem?_eq_getElem hn'] at htype
    exact htype

/-- A checked graph in which a node reads a later one is not loaded.  The first such node is
reported, with the first input that comes later. -/
theorem rebuild_of_late (h : Consistent g) (ht : Typed g) (hc : Checked g) (hn : n < g.count)
    (hbefore : ∀ m < n, ∀ y ∈ g.inputs m, y < m)
    (hlate : (g.inputs n).find? (fun y => decide (n ≤ y)) = some x) :
    rebuild g.toColumns = .error (.corruptStore (.late n x)) := by
  obtain ⟨s, hspan, hwithin⟩ := h.exists_span hn
  apply rebuild_eq_error h.aligned hn
  · intro m hm
    exact vet_of_checked h ht hc (by omega) fun a ha => hbefore a (by omega)
  · have hcheck : checkSpan g.toColumns n s = .error (.corruptStore (.late n x)) := by
      rw [checkSpan, if_neg (by omega), ← inputs_of_span hspan, hlate]
    rw [vet, hspan, Option.getD_some, hcheck]
    rfl

/-! ## Nodes that a pass adds -/

/-- The nodes from a number on do not ask for types, and each of them is read by a node below
this number, at a slot where it meets what is asked. -/
structure Inserted (base : Nat) (g : Graph) : Prop where
  asks : ∀ a < g.count, base ≤ a → ∀ (slot : Nat) (t : ValueType),
    (g.requirements a)[slot]? ≠ some (.exact t)
  read : ∀ a < g.count, base ≤ a →
    ∃ n < base, ∃ slot : Nat, (g.inputs n)[slot]? = some a ∧ g.MeetsAt n slot

/-- A node that was not there before is the one that stands in. -/
theorem StandsIn.eq_of_count_le {g₁ : Graph} {t : ValueType} {a : Nat} (hs : StandsIn g x t g₁ m)
    (ha : a < g₁.count) (hge : g.count ≤ a) : a = m := by
  obtain ⟨kind, xs, hi⟩ := hs.exists_insert
  obtain ⟨-, -, ⟨-, rfl⟩ | ⟨rfl, rfl⟩⟩ := insert_eq_ok hi
  · exact absurd ha (Nat.not_lt.2 hge)
  · rw [count_append] at ha
    omega

theorem inserted_adjusts (h : WellFormed g) (ht : Typed g) (hins : Inserted base g)
    (ha : Adjusts g g') : Inserted base g' := by
  obtain ⟨hx, hrequired, hunmet, hle, hs, hr⟩ := ha
  rename_i g₁ n slot x m t
  have hxlt := h.input_lt (List.mem_of_getElem? hx)
  have hn := h.lt_of_mem_inputs (List.mem_of_getElem? hx)
  have hnbase : n < base := Nat.not_le.1 fun hge => hins.asks n hn hge slot t hrequired
  have hrep := hs.replaced h ht hx hrequired hle hr
  have hadv := hrep.first.trans hrep.second hn
  obtain ⟨hmlt, -, -⟩ := hs.types h ht hxlt
  constructor
  · intro a ha hbase slot' t'
    rw [hrep.count] at ha
    by_cases hlt : a < g.count
    · rw [hadv.requirements a hlt]
      exact hins.asks a hlt hbase slot' t'
    · obtain rfl := hs.eq_of_count_le ha (Nat.not_lt.1 hlt)
      rw [hrep.second.requirements a hmlt]
      exact (hs.represents h hxlt).requirements_ne slot' t'
  · intro a ha hbase
    rw [hrep.count] at ha
    by_cases hlt : a < g.count
    · obtain ⟨b, hb, slot', hget, hmeets⟩ := hins.read a hlt hbase
      have hblt := h.lt_of_mem_inputs (List.mem_of_getElem? hget)
      -- an input that meets what is asked is not replaced
      have hsame : (g'.inputs b)[slot']? = (g.inputs b)[slot']? := by
        by_cases hbn : b = n
        · subst hbn
          have hslot : slot ≠ slot' := by
            rintro rfl
            exact hunmet (hmeets x _ hx hrequired)
          rw [hrep.inputs, List.getElem?_set_ne hslot]
        · rw [hadv.inputs b hblt hbn]
      exact ⟨b, hb, slot', hsame.trans hget, hadv.meetsAt h hblt hsame hmeets⟩
    · obtain rfl := hs.eq_of_count_le ha (Nat.not_lt.1 hlt)
      obtain ⟨hslot, -⟩ := List.getElem?_eq_some_iff.1 hx
      exact ⟨n, hnbase, slot, by rw [hrep.inputs, List.getElem?_set_self hslot], hrep.meets⟩

/-- Each node that a pass adds is read by a node that was there before. -/
theorem inserted_solve (h : WellFormed g) (ht : Typed g) : Inserted g.count (solve g).state := by
  have hstart : Inserted g.count g :=
    ⟨fun a ha hge => absurd ha (Nat.not_lt.2 hge), fun a ha hge => absurd ha (Nat.not_lt.2 hge)⟩
  exact (solve_keeps h ht hstart inserted_adjusts).2.2

theorem Inserted.not_ordered (hins : Inserted base g) (hbase : base < g.count) : ¬ Ordered g := by
  intro ho
  obtain ⟨n, hn, slot, hget, -⟩ := hins.read base hbase (Nat.le_refl _)
  exact Nat.lt_asymm hn (ho n (by omega) base (List.mem_of_getElem? hget))

/-! ## Through text and back -/

/-- A graph fits the stored form if its values do and if it is not too large. -/
theorem storable_of_carries (h : Consistent g) (hlt : ∀ x ∈ g.cells, x < g.count)
    (hvalues : ∀ v, g.Carries v → v.Storable) (hcount : g.count ≤ Columns.numberLimit)
    (hcells : g.cells.length < Columns.numberLimit) : g.toColumns.Storable where
  values := fun kind hkind v hv => hvalues v ⟨kind, hkind, hv⟩
  cells := fun x hx => Nat.lt_of_lt_of_le (hlt x hx) hcount
  spans := by
    intro s hs
    have hle := h.within s hs
    omega

/-- **A graph made by adding nodes is loaded from its text as it was**, with all its columns, its
consumers in order, and its index.  Its values are finite, finite floats are read back as they
were written, axis lengths fit in 64 bits, and node ids and positions fit in 32 bits. -/
theorem reload_added (h : Added g)
    (hfinite : ∀ v, g.Carries v → ∀ x ∈ v.data, x.isFinite = true)
    (hexact : ∀ v, g.Carries v → ∀ x ∈ v.data, x.isFinite = true →
      (Json.ofFloat x).float? = some x)
    (hshape : ∀ v, g.Carries v → ∀ k ∈ v.shape, k < Tensor.lengthLimit)
    (hcount : g.count ≤ Columns.numberLimit) (hcells : g.cells.length < Columns.numberLimit) :
    ofText g.text = .ok g := by
  obtain ⟨hw, ht⟩ := wellFormed_typed_of_built h.built
  obtain ⟨hc, ho⟩ := checked_ordered_of_added h
  have hstorable := storable_of_carries hw.toConsistent (cells_lt_of_built h.built)
    (fun v hv => ⟨hshape v hv, fun x hx => hexact v hv x hx (hfinite v hv x hx)⟩) hcount hcells
  rw [text, ofText_text hstorable, (rebuild_of_ordered hw.toConsistent ht hc ho).1,
    restored_of_added h]

theorem Blend.added_added : Added Blend.added := added_foldl_add Blend.nodes .empty

theorem reload_added_blend : Added Blend.added ∧ Blend.added.count = 9 ∧
    ofText Blend.added.text = .ok Blend.added := by
  refine ⟨Blend.added_added, by decide +kernel, reload_added Blend.added_added ?_ ?_ ?_
    (by decide +kernel) (by decide +kernel)⟩
  all_goals exact forall_carries.2 (by decide +kernel)

/-- If a node reads a later one, then a first node does so, at a first input. -/
theorem exists_late (h : ¬ Ordered g) : ∃ n x, n < g.count ∧
    (∀ m < n, ∀ y ∈ g.inputs m, y < m) ∧
      (g.inputs n).find? (fun y => decide (n ≤ y)) = some x := by
  obtain ⟨n, hn, hlate⟩ : ∃ n, n < g.count ∧ ¬ ∀ y ∈ g.inputs n, y < n := by
    by_contra hnone
    exact h fun n hn => by_contra fun hlate => hnone ⟨n, hn, hlate⟩
  induction n using Nat.strongRecOn with
  | ind n ih =>
    by_cases hbefore : ∃ m, m < n ∧ ¬ ∀ y ∈ g.inputs m, y < m
    · obtain ⟨m, hm, hlate'⟩ := hbefore
      exact ih m hm (Nat.lt_trans hm hn) hlate'
    · have hsome : ((g.inputs n).find? fun y => decide (n ≤ y)).isSome := by simpa using hlate
      obtain ⟨x, hx⟩ := Option.isSome_iff_exists.1 hsome
      exact ⟨n, x, hn, fun m hm => by_contra fun hlate' => hbefore ⟨m, hm, hlate'⟩, hx⟩

/-- After a pass on a graph made by adding nodes, every node still passes the checks of an
addition, and no value is new. -/
theorem checked_carries_solve (h : Added g) :
    Checked (solve g).state ∧ ∀ v, (solve g).state.Carries v → g.Carries v := by
  obtain ⟨hw, ht⟩ := wellFormed_typed_of_built h.built
  refine (solve_keeps (P := fun s => Checked s ∧ ∀ v, s.Carries v → g.Carries v) hw ht
    ⟨(checked_ordered_of_added h).1, fun _ hv => hv⟩ ?_).2.2
  intro s s' hs hts ⟨hc, hv⟩ ha
  exact ⟨checked_adjusts hs hts hc ha, fun v hv' => hv v (carries_adjusts hs hts ha hv')⟩

/-- After a pass, too, the text is read back as the columns that were written. -/
theorem ofText_solve (h : Added g) (hvalues : ∀ v, g.Carries v → v.Storable)
    (hcount : (solve g).state.count ≤ Columns.numberLimit)
    (hcells : (solve g).state.cells.length < Columns.numberLimit) :
    ofText (solve g).state.text = rebuild (solve g).state.toColumns := by
  have hbuilt := built_solve h.built
  obtain ⟨hw, -⟩ := wellFormed_typed_of_built hbuilt
  exact ofText_text (storable_of_carries hw.toConsistent (cells_lt_of_built hbuilt)
    (fun v hv => hvalues v ((checked_carries_solve h).2 v hv)) hcount hcells)

/-- **After a pass a graph is loaded from its text if and only if its nodes read earlier ones**,
and then with the kinds, inputs and types it had.  Otherwise the first node that reads a later
one is reported.  This is so whenever the pass has added a node. -/
theorem reload_solved (h : Added g)
    (hfinite : ∀ v, g.Carries v → ∀ x ∈ v.data, x.isFinite = true)
    (hexact : ∀ v, g.Carries v → ∀ x ∈ v.data, x.isFinite = true →
      (Json.ofFloat x).float? = some x)
    (hshape : ∀ v, g.Carries v → ∀ k ∈ v.shape, k < Tensor.lengthLimit)
    (hcount : (solve g).state.count ≤ Columns.numberLimit)
    (hcells : (solve g).state.cells.length < Columns.numberLimit) :
    (Ordered (solve g).state → ∃ g', ofText (solve g).state.text = .ok g' ∧
      g'.kinds = (solve g).state.kinds ∧ (∀ n, g'.inputs n = (solve g).state.inputs n) ∧
      g'.types = (solve g).state.types) ∧
    (¬ Ordered (solve g).state → ∃ n x, n < (solve g).state.count ∧
      (∀ m < n, ∀ y ∈ (solve g).state.inputs m, y < m) ∧
      ((solve g).state.inputs n).find? (fun y => decide (n ≤ y)) = some x ∧
      ofText (solve g).state.text = .error (.corruptStore (.late n x))) ∧
    (g.count < (solve g).state.count → ¬ Ordered (solve g).state) := by
  obtain ⟨hw, ht⟩ := wellFormed_typed_of_built h.built
  obtain ⟨hw', ht'⟩ := wellFormed_typed_solve hw ht
  obtain ⟨hc, -⟩ := checked_carries_solve h
  have hload := ofText_solve h
    (fun v hv => ⟨hshape v hv, fun x hx => hexact v hv x hx (hfinite v hv x hx)⟩) hcount hcells
  refine ⟨fun ho => ?_, fun ho => ?_, (inserted_solve hw ht).not_ordered⟩
  · obtain ⟨hrebuild, htypes⟩ := rebuild_of_ordered hw'.toConsistent ht' hc ho
    exact ⟨_, hload.trans hrebuild, by simp, by simp, htypes⟩
  · obtain ⟨n, x, hn, hbefore, hlate⟩ := exists_late ho
    exact ⟨n, x, hn, hbefore, hlate,
      hload.trans (rebuild_of_late hw'.toConsistent ht' hc hn hbefore hlate)⟩

/-- A normal variable with a mean that is not typed, behind a constant of the same value with the
type asked for. -/
def Primed.nodes : List (NodeKind × List NodeId) :=
  [(.constant (.scalar 0.5) none, []), (.constant (.scalar 0.5) (some .real), []),
    (.constant (.scalar 2) (some .positiveReal), []), (.distribution .normal, [0, 2])]

def Primed.graph : Graph := Primed.nodes.foldl (fun g node => (g.add node.1 node.2).state) .empty

theorem Primed.added_graph : Added Primed.graph := added_foldl_add Primed.nodes .empty

/-- The pass finds the typed constant, which comes before the variable, and adds no node. -/
theorem reload_solved_primed : Added Primed.graph ∧ (solve Primed.graph).result.isOk ∧
    (solve Primed.graph).state.inputs 3 = [1, 2] ∧
    ∃ g', ofText (solve Primed.graph).state.text = .ok g' ∧
      g'.kinds = (solve Primed.graph).state.kinds ∧
      (∀ n, g'.inputs n = (solve Primed.graph).state.inputs n) ∧
      g'.types = (solve Primed.graph).state.types := by
  have ho : Ordered (solve Primed.graph).state := by unfold Ordered; decide +kernel
  refine ⟨Primed.added_graph, by decide +kernel, by decide +kernel,
    (reload_solved Primed.added_graph ?_ ?_ ?_ (by decide +kernel) (by decide +kernel)).1 ho⟩
  all_goals exact forall_carries.2 (by decide +kernel)

/-- A normal variable of two constants that are not typed. -/
def Untyped.nodes : List (NodeKind × List NodeId) :=
  [(.constant (.scalar 0) none, []), (.constant (.scalar 2) none, []),
    (.distribution .normal, [0, 1])]

def Untyped.graph : Graph := Untyped.nodes.foldl (fun g node => (g.add node.1 node.2).state) .empty

theorem Untyped.added_graph : Added Untyped.graph := added_foldl_add Untyped.nodes .empty

/-- The pass succeeds and adds a typed constant behind the variable.  The graph it leaves is
refused by a load of its own text. -/
theorem not_reload_untyped : Added Untyped.graph ∧
    (∀ v, Untyped.graph.Carries v → ∀ x ∈ v.data, x.isFinite = true) ∧
    (solve Untyped.graph).result.isOk ∧
    ofText (solve Untyped.graph).state.text = .error (.corruptStore (.late 2 3)) := by
  have hvalues : ∀ v, Untyped.graph.Carries v → v.Storable := by
    have hshape : ∀ v, Untyped.graph.Carries v → ∀ k ∈ v.shape, k < Tensor.lengthLimit :=
      forall_carries.2 (by decide +kernel)
    have hdata : ∀ v, Untyped.graph.Carries v → ∀ x ∈ v.data, (Json.ofFloat x).float? = some x :=
      forall_carries.2 (by decide +kernel)
    exact fun v hv => ⟨hshape v hv, hdata v hv⟩
  have hload := ofText_solve Untyped.added_graph hvalues (by decide +kernel) (by decide +kernel)
  obtain ⟨hw, ht⟩ := wellFormed_typed_of_built (built_solve Untyped.added_graph.built)
  have hrebuild := rebuild_of_late hw.toConsistent ht (checked_carries_solve Untyped.added_graph).1
    (by decide +kernel : 2 < _) (by decide +kernel) (by decide +kernel : _ = some 3)
  exact ⟨Untyped.added_graph, forall_carries.2 (by decide +kernel), by decide +kernel,
    hload.trans hrebuild⟩

end Stochastic.Graph
