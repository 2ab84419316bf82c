import Stochastic.Proofs.Graph.Listing

/-!
# Topological orders

The nodes of a graph are listed until the queue is empty.  Every count goes down by one for each
input that is listed, and a node that reads another twice is counted off twice, so a count never
has to go below zero and each node is queued once.  So the queue does become empty, at the
latest when every node is listed.  At that time a node that is not listed reads one that is not
listed either, which leads around a cycle; and a cycle never begins to be listed.

None of this depends on kinds, types or the index: it is enough that the lists of consumers are
the inputs read backwards.

## Main definitions

* `Graph.Linked` — consumers and inputs agree.
* `Graph.InputsFirst` — an order in which a node follows its inputs.
* `Graph.countOff?`, `Graph.Drains` — counting off that fails at zero, and listing until the
  queue is empty.
* `Graph.Ongoing` — what holds between listing one node and the next.

## Main results

* `Graph.foldlM_countOff?` — counting off does not fail if enough inputs are missing.
* `Graph.exists_drains` — the queue becomes empty.
* `Graph.exists_topologicalOrder` — a graph without cycles has a topological order.
* `Graph.topologicalOrder_sorts` — there is an order exactly if there is no cycle.
-/

namespace Stochastic.Graph

variable {g : Graph} {missing : List Nat} {done queue freed cs : List NodeId} {count n b x : Nat}
variable {inputs consumersOf : NodeId → List NodeId}

/-- Each node has a span inside the input column and a list of consumers, and is listed as a
consumer as often as it reads. -/
structure Linked (g : Graph) : Prop where
  spans_length : g.spans.length = g.count
  consumers_length : g.consumers.length = g.count
  within : ∀ s ∈ g.spans, s.start + s.length ≤ g.cells.length
  mirrored : ∀ a b, (g.consumersOf a).count b = (g.inputs b).count a

theorem Consistent.linked (h : Consistent g) : Linked g :=
  ⟨h.spans_length, h.consumers_length, h.within, h.mirrored⟩

theorem Linked.lt_of_mem_inputs (h : Linked g) (hx : x ∈ g.inputs n) : n < g.count := by
  by_contra hn
  rw [inputs_eq_nil (by rw [h.spans_length]; omega)] at hx
  cases hx

/-- What has a consumer is a node. -/
theorem Linked.input_lt (h : Linked g) (hx : x ∈ g.inputs n) : x < g.count := by
  by_contra hlt
  have hnone : g.consumersOf x = [] := by
    rw [consumersOf, List.getElem?_eq_none (by rw [h.consumers_length]; omega), Option.getD_none]
  have hcount := h.mirrored x n
  rw [hnone, List.count_nil] at hcount
  have := List.count_pos_iff.2 hx
  omega

/-- Every node stands behind its inputs. -/
def InputsFirst (inputs : NodeId → List NodeId) (order : List NodeId) : Prop :=
  ∀ done n rest, order = done ++ n :: rest → ∀ x ∈ inputs n, x ∈ done

/-! ## Counting off -/

/-- Counts off one input of `consumer`, and fails if none is missing. -/
def countOff? (state : List Nat × List NodeId) (consumer : NodeId) :
    Option (List Nat × List NodeId) :=
  match state.1[consumer]? with
  | some (left + 1) =>
    some (state.1.set consumer left, if left = 0 then state.2 ++ [consumer] else state.2)
  | _ => none

theorem countOff?_eq_some (h : 0 < left missing n) :
    countOff? (missing, freed) n = some (countOff (missing, freed) n) := by
  unfold countOff? countOff
  unfold left at h
  cases hn : missing[n]? with
  | none => simp [hn] at h
  | some k =>
    cases k with
    | zero => simp [hn] at h
    | succ k => simp [hn]

/-- Counting off does not fail if of each consumer as many inputs are missing as it is named. -/
theorem foldlM_countOff? (cs : List NodeId) (missing : List Nat) (freed : List NodeId)
    (h : ∀ b, cs.count b ≤ left missing b) :
    cs.foldlM countOff? (missing, freed) = some (cs.foldl countOff (missing, freed)) := by
  induction cs generalizing missing freed with
  | nil => rfl
  | cons c cs ih =>
    have hc : 0 < left missing c := by
      have := h c
      rw [List.count_cons_self] at this
      omega
    rw [List.foldlM_cons, countOff?_eq_some hc, List.foldl_cons]
    apply ih (missing.set c (left missing c - 1))
    intro b
    have := h b
    rw [left_set]
    by_cases hb : b = c
    · subst hb
      rw [List.count_cons_self] at this
      rw [if_pos rfl]
      omega
    · rw [List.count_cons_of_ne (Ne.symm hb)] at this
      rwa [if_neg hb]

/-- Listing from a queue on until it is empty gives an order, and no count goes below zero. -/
inductive Drains (consumersOf : NodeId → List NodeId) :
    (missing : List Nat) → (queue order : List NodeId) → Prop
  | nil (missing : List Nat) : Drains consumersOf missing [] []
  | cons {missing missing' : List Nat} {n : NodeId} {queue freed order : List NodeId} :
    (consumersOf n).foldlM countOff? (missing, []) = some (missing', freed) →
      Drains consumersOf missing' (queue ++ freed) order →
      Drains consumersOf missing (n :: queue) (n :: order)

/-! ## Until the queue is empty -/

/-- What holds when the nodes `done` are listed.  Only nodes wait or are queued. -/
structure Ongoing (inputs : NodeId → List NodeId) (count : Nat) (done : List NodeId)
    (missing : List Nat) (queue : List NodeId) : Prop
    extends Pending inputs count done missing queue where
  nodes : ∀ n ∈ done ++ queue, n < count
  waiting : ∀ n, 0 < left missing n → n < count

namespace Ongoing

theorem front_not_mem (h : Ongoing inputs count done missing (n :: queue)) : n ∉ done := by
  intro hmem
  exact (List.nodup_append.1 h.nodup).2.2 n hmem n List.mem_cons_self rfl

/-- A node that is queued waits for nothing: all its inputs are listed. -/
theorem inputs_listed (h : Ongoing inputs count done missing queue) (hn : n ∈ done ++ queue)
    (hx : x ∈ inputs n) : x ∈ done := by
  have hcount := h.counts n (h.nodes n hn)
  rw [h.zero n hn] at hcount
  simpa using List.countP_eq_zero.1 hcount.symm x hx

/-- The consumers of the node at the front still wait for it, once for each time they read it. -/
theorem count_le_left (hmirror : ∀ a b, (consumersOf a).count b = (inputs b).count a)
    (hinputs : ∀ b x, x ∈ inputs b → b < count)
    (h : Ongoing inputs count done missing (n :: queue)) (b : Nat) :
    (consumersOf n).count b ≤ left missing b := by
  rw [hmirror]
  by_cases hb : b < count
  · rw [h.counts b hb, List.count]
    apply List.countP_mono_left
    intro x _ hx
    rw [beq_iff_eq] at hx
    simpa [hx] using h.front_not_mem
  · -- what is no node reads nothing
    have hnone : n ∉ inputs b := fun hn => hb (hinputs b n hn)
    rw [List.count_eq_zero_of_not_mem hnone]
    exact Nat.zero_le _

/-- The node at the front of the queue is listed. -/
theorem next (hmirror : ∀ a b, (consumersOf a).count b = (inputs b).count a)
    (h : Ongoing inputs count done missing (n :: queue)) :
    Ongoing inputs count (done ++ [n]) ((consumersOf n).foldl countOff (missing, [])).1
      (queue ++ ((consumersOf n).foldl countOff (missing, [])).2) := by
  have hcount : Counted missing ((consumersOf n).foldl countOff (missing, [])).1
      ((consumersOf n).foldl countOff (missing, [])).2 :=
    counted_foldl ⟨fun _ => Nat.le_refl _, List.nodup_nil, by simp⟩ (consumersOf n)
  refine ⟨h.toPending.next hmirror, ?_, ?_⟩
  · intro m hm
    simp only [List.mem_append, List.mem_singleton] at hm
    rcases hm with (hm | rfl) | hm | hm
    · exact h.nodes m (List.mem_append_left _ hm)
    · exact h.nodes m (by simp)
    · exact h.nodes m (by simp [hm])
    · exact h.waiting m (hcount.freed m hm).2
  · intro m hm
    exact h.waiting m (Nat.lt_of_lt_of_le hm (hcount.le m))

/-- There are not more nodes listed and queued than there are nodes. -/
theorem length_le (h : Ongoing inputs count done missing queue) :
    done.length + queue.length ≤ count := by
  have hsub : done ++ queue ⊆ List.range count := fun m hm => List.mem_range.2 (h.nodes m hm)
  simpa using (h.nodup.subperm hsub).length_le

end Ongoing

/-- **The queue becomes empty**, at the latest when all nodes are listed, and no count goes below
zero.  Nodes are listed behind their inputs. -/
theorem exists_drains (hmirror : ∀ a b, (consumersOf a).count b = (inputs b).count a)
    (hinputs : ∀ b x, x ∈ inputs b → b < count) (limit : Nat) (hlimit : done.length + limit = count)
    (h : Ongoing inputs count done missing queue) :
    Drains consumersOf missing queue (listed consumersOf limit missing queue) ∧
      (∃ missing', Ongoing inputs count (done ++ listed consumersOf limit missing queue)
        missing' []) ∧
      ∀ pre n post, listed consumersOf limit missing queue = pre ++ n :: post →
        ∀ x ∈ inputs n, x ∈ done ++ pre := by
  induction limit generalizing done missing queue with
  | zero =>
    -- all nodes are listed, so none is left to be queued
    have hqueue : queue = [] := by
      have := h.length_le
      exact List.length_eq_zero_iff.1 (by omega)
    subst hqueue
    exact ⟨.nil missing, ⟨missing, by simpa [listed] using h⟩, by simp [listed]⟩
  | succ limit ih =>
    cases queue with
    | nil => exact ⟨.nil missing, ⟨missing, by simpa [listed] using h⟩, by simp [listed]⟩
    | cons n queue =>
      obtain ⟨hdrains, ⟨missing', hend⟩, hfirst⟩ :=
        ih (by simp; omega) (h.next hmirror)
      have hfold := foldlM_countOff? (consumersOf n) missing []
        (h.count_le_left hmirror hinputs)
      refine ⟨.cons hfold hdrains, ⟨missing', by simpa [listed] using hend⟩, ?_⟩
      intro pre m post horder x hx
      cases pre with
      | nil =>
        obtain ⟨rfl, -⟩ := List.cons.inj horder
        exact List.mem_append_left _ (h.inputs_listed (by simp) hx)
      | cons a pre =>
        obtain ⟨rfl, hrest⟩ := List.cons.inj horder
        simpa using hfirst pre m post hrest x hx

/-! ## Orders of a graph -/

theorem Linked.ongoing_roots (h : Linked g) :
    Ongoing g.inputs g.count [] (g.spans.map Span.length) (roots g.toColumns) where
  toPending := pending_roots h.spans_length h.within
  nodes n hn := h.spans_length ▸ (mem_roots hn).1
  waiting n hn := by simpa [h.spans_length] using lt_length_of_left_pos hn

/-- Nodes that are listed behind their inputs are on no cycle. -/
theorem acyclic_of_inputsFirst {order : List NodeId} (hspans : g.spans.length = g.count)
    (hperm : order.Perm (List.range g.count)) (hfirst : InputsFirst g.inputs order) :
    Acyclic g := by
  apply acyclic_of_spans (fun n => order.idxOf n)
  intro n hn x hx
  have hmem : n ∈ order := by
    rw [hperm.mem_iff, List.mem_range, ← hspans]
    exact hn
  obtain ⟨done, rest, horder, hnot⟩ := List.eq_append_cons_of_mem hmem
  have hx' : x ∈ done := hfirst done n rest horder x hx
  rw [horder, List.idxOf_append_of_mem hx', List.idxOf_append_of_notMem hnot, List.idxOf_cons_self]
  exact List.idxOf_lt_length_of_mem hx'

namespace Linked

/-- What is listed until the queue is empty, and what is made of it. -/
theorem exists_order (h : Linked g) : ∃ order missing,
    Drains g.consumersOf (g.spans.map Span.length) (roots g.toColumns) order ∧
      g.topologicalOrder = (if order.length = g.count then .ok order else .error .cycle) ∧
      Ongoing g.inputs g.count order missing [] ∧ InputsFirst g.inputs order := by
  obtain ⟨hdrains, ⟨missing, hend⟩, hfirst⟩ := exists_drains h.mirrored
    (fun b x => h.lt_of_mem_inputs) g.count (Nat.zero_add _) h.ongoing_roots
  exact ⟨_, missing, hdrains, rfl, hend, hfirst⟩

/-- All nodes are listed exactly if there is no cycle. -/
theorem length_eq_count_iff (h : Linked g) {order : List NodeId}
    (heq : g.topologicalOrder = if order.length = g.count then .ok order else .error .cycle)
    (hend : Ongoing g.inputs g.count order missing []) (hfirst : InputsFirst g.inputs order) :
    order.length = g.count ↔ Acyclic g := by
  constructor
  · intro hlength
    rw [if_pos hlength] at heq
    exact acyclic_of_inputsFirst h.spans_length (perm_of_topologicalOrder h.spans_length heq) hfirst
  · intro hac
    -- what is not listed waits for something with fewer ancestors that is not listed either
    have hrank : ∀ n < g.count, ∀ x ∈ g.inputs n,
        x < g.count ∧ (g.ancestors x).card < (g.ancestors n).card := by
      intro n _ x hx
      exact ⟨h.input_lt hx, card_ancestors_lt hac (h.input_lt hx) hx⟩
    have hall : List.range g.count ⊆ order := by
      intro n hn
      exact hend.mem_done _ hrank (List.mem_range.1 hn)
    have hle := (List.nodup_range.subperm hall).length_le
    have hge := hend.length_le
    simp only [List.length_range, List.length_nil] at hle hge
    omega

theorem sorted_of_topologicalOrder (h : Linked g) {order : List NodeId}
    (horder : g.topologicalOrder = .ok order) :
    order.Perm (List.range g.count) ∧ InputsFirst g.inputs order := by
  obtain ⟨listing, missing, -, heq, -, hfirst⟩ := h.exists_order
  refine ⟨perm_of_topologicalOrder h.spans_length horder, ?_⟩
  by_cases hlength : listing.length = g.count
  · rw [heq, if_pos hlength] at horder
    cases horder
    exact hfirst
  · rw [heq, if_neg hlength] at horder
    cases horder

end Linked

/-- **A graph without cycles has a topological order.** -/
theorem exists_topologicalOrder (h : Consistent g) (hac : Acyclic g) :
    ∃ order, g.topologicalOrder = .ok order := by
  obtain ⟨order, missing, -, heq, hend, hfirst⟩ := h.linked.exists_order
  exact ⟨order, heq.trans (if_pos ((h.linked.length_eq_count_iff heq hend hfirst).2 hac))⟩

/-- **There is a topological order exactly if there is no cycle.**  Listing nodes until the queue
is empty comes to an end without a count below zero, and what is listed is the answer if it is
as long as there are nodes.  This is so exactly if no node reads itself through others; then the
answer lists every node once and behind its inputs, and else a cycle is reported. -/
theorem topologicalOrder_sorts (h : Linked g) :
    (∃ order, Drains g.consumersOf (g.spans.map Span.length) (roots g.toColumns) order ∧
      g.topologicalOrder = if order.length = g.count then .ok order else .error .cycle) ∧
    ((∃ order, g.topologicalOrder = .ok order) ↔ Acyclic g) ∧
    (∀ order, g.topologicalOrder = .ok order →
      order.Perm (List.range g.count) ∧ InputsFirst g.inputs order) ∧
    (¬ Acyclic g → g.topologicalOrder = .error .cycle) := by
  obtain ⟨order, missing, hdrains, heq, hend, hfirst⟩ := h.exists_order
  have hacyclic := h.length_eq_count_iff heq hend hfirst
  refine ⟨⟨order, hdrains, heq⟩, ?_, fun _ => h.sorted_of_topologicalOrder, ?_⟩
  · rw [← hacyclic, heq]
    by_cases hlength : order.length = g.count <;> simp [hlength]
  · intro hcycle
    rw [heq, if_neg (mt hacyclic.1 hcycle)]

namespace Looped

/-- A square, which reads its base twice, and its exponential. -/
def nodes : List (NodeKind × List NodeId) :=
  [(.constant (.scalar 0.5) none, []), (.operator .multiplication, [0, 0]), (.operator .exp, [1])]

def added : Graph := nodes.foldl (fun g node => (g.add node.1 node.2).state) .empty

/-- The product reads the exponential in place of its second factor. -/
def graph : Graph := added.rewired 1 1 2

theorem wellFormed_added : WellFormed added :=
  (wellFormed_typed_of_built (built_foldl_add nodes .empty)).1

theorem linked_added : Linked added := wellFormed_added.toConsistent.linked

theorem linked_graph : Linked graph :=
  (wellFormed_rewired wellFormed_added (by decide +kernel) (by decide +kernel)).toConsistent.linked

theorem acyclic_added : Acyclic added :=
  acyclic_of_rank id (by decide +kernel) wellFormed_added.toConsistent

theorem cycle_graph : ¬ Acyclic graph := by
  intro hac
  have hproduct : graph.Feeds 2 1 := by
    show 2 ∈ graph.inputs 1
    decide +kernel
  have hexp : graph.Feeds 1 2 := by
    show 1 ∈ graph.inputs 2
    decide +kernel
  exact hac 1 (.tail (.single hexp) hproduct)

end Looped

/-- The square is listed behind its base, which is counted off twice, and a product that reads
its own exponential is on a cycle. -/
theorem topologicalOrder_sorts_looped :
    (Linked Looped.added ∧ Acyclic Looped.added ∧ Looped.added.consumersOf 0 = [1, 1] ∧
      ∃ order, Looped.added.topologicalOrder = .ok order ∧
        order.Perm (List.range Looped.added.count) ∧ InputsFirst Looped.added.inputs order) ∧
      Linked Looped.graph ∧ ¬ Acyclic Looped.graph ∧
      Looped.graph.topologicalOrder = .error .cycle := by
  obtain ⟨-, hok, hsorted, -⟩ := topologicalOrder_sorts Looped.linked_added
  obtain ⟨order, horder⟩ := hok.2 Looped.acyclic_added
  refine ⟨⟨Looped.linked_added, Looped.acyclic_added, by decide +kernel, order, horder,
    hsorted order horder⟩, Looped.linked_graph, Looped.cycle_graph, ?_⟩
  exact (topologicalOrder_sorts Looped.linked_graph).2.2.2 Looped.cycle_graph

end Stochastic.Graph
