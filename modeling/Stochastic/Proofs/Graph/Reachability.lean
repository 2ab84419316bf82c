import Mathlib.Logic.Function.Iterate
import Stochastic.Graph.Reach
import Stochastic.Proofs.Graph.Sorting

/-!
# What a search finds

A search takes nodes from the front of a queue.  A node that was not seen before is seen now, and
where it leads is put at the back, so a node may stand in the queue many times.  All the same the
queue becomes empty, because nodes are seen once and there are finitely many.  Going through the
queue in rounds comes to the same, and what has been seen in the end is exactly what the starts
lead to.

Searches follow consumers or inputs, which a graph keeps apart.  As long as these are each other's
reverse, one search finds a node from another exactly if the other search finds the second node
from the first, on cycles too.

## Main definitions

* `Graph.Leads` — a list of nodes leads to a node.
* `Graph.searchStep` — one node is taken from the queue.
* `Graph.Searching` — what holds between one node and the next.

## Main results

* `Graph.exists_iterate_searchStep` — the queue becomes empty.
* `Graph.Searching.iterate` — what a search has seen at any time, and what is left to do.
* `Graph.searches_exact` — what the searches find, and that they are dual.
-/

namespace Stochastic.Graph

open Relation (ReflTransGen)

variable {g : Graph} {next : NodeId → List NodeId} {seen queue round starts : List NodeId}
variable {count n : Nat}

/-- Steps from a node to one of its successors lead from a start to the node. -/
def Leads (next : NodeId → List NodeId) (starts : List NodeId) (n : NodeId) : Prop :=
  ∃ s ∈ starts, ReflTransGen (fun a b => b ∈ next a) s n

/-! ## The queue and its rounds -/

/-- Takes a node from the front of the queue.  If it was not seen, its successors are put at the
back. -/
def searchStep (next : NodeId → List NodeId) :
    List NodeId × List NodeId → List NodeId × List NodeId
  | (seen, []) => (seen, [])
  | (seen, n :: queue) =>
    if seen.contains n then (seen, queue) else (seen ++ [n], queue ++ next n)

/-- The nodes of a round that were not seen before, each once. -/
def fresh (seen round : List NodeId) : List NodeId :=
  (round.filter fun n => !seen.contains n).eraseDups

theorem fresh_cons_of_mem (hn : n ∈ seen) : fresh seen (n :: round) = fresh seen round := by
  simp [fresh, hn]

theorem fresh_cons_of_not_mem (hn : n ∉ seen) :
    fresh seen (n :: round) = n :: fresh (seen ++ [n]) round := by
  have hfilter : (round.filter fun m => !seen.contains m).filter (fun m => !m == n) =
      round.filter fun m => !(seen ++ [n]).contains m := by
    rw [List.filter_filter]
    apply List.filter_congr
    intro m _
    by_cases hm : m = n <;> simp [hm]
  rw [fresh, List.filter_cons_of_pos (by simpa using hn), List.eraseDups_cons, hfilter, fresh]

/-- The nodes at the front of a queue are a round, and what they put at its back belongs to the
next one. -/
theorem iterate_searchStep_round (round rest : List NodeId) (seen : List NodeId) :
    (searchStep next)^[round.length] (seen, round ++ rest) =
      (seen ++ fresh seen round, rest ++ (fresh seen round).flatMap next) := by
  induction round generalizing seen rest with
  | nil => simp [fresh]
  | cons n round ih =>
    rw [List.length_cons, Function.iterate_succ_apply, List.cons_append, searchStep]
    by_cases hn : n ∈ seen
    · rw [if_pos (by simpa using hn), ih, fresh_cons_of_mem hn]
    · rw [if_neg (by simpa using hn), List.append_assoc, ih, fresh_cons_of_not_mem hn]
      simp

/-! ## Between one node and the next -/

/-- What holds during a search.  What is seen or queued is what the starts lead to, and where a
node leads that was seen is seen or queued. -/
structure Searching (next : NodeId → List NodeId) (starts : List NodeId)
    (state : List NodeId × List NodeId) : Prop where
  nodup : state.1.Nodup
  leads : ∀ n ∈ state.1 ++ state.2, Leads next starts n
  begun : ∀ s ∈ starts, s ∈ state.1 ++ state.2
  closed : ∀ n ∈ state.1, ∀ m ∈ next n, m ∈ state.1 ++ state.2

theorem Leads.step {m : Nat} (h : Leads next starts n) (hm : m ∈ next n) : Leads next starts m := by
  obtain ⟨s, hs, hsn⟩ := h
  exact ⟨s, hs, hsn.tail hm⟩

namespace Searching

theorem start (next : NodeId → List NodeId) (starts : List NodeId) :
    Searching next starts ([], starts) where
  nodup := List.nodup_nil
  leads n hn := ⟨n, hn, .refl⟩
  begun _ hs := hs
  closed n hn := by cases hn

/-- A node that was seen before is taken from the queue. -/
theorem skip (h : Searching next starts (seen, n :: queue)) (hn : n ∈ seen) :
    Searching next starts (seen, queue) := by
  have hmem : ∀ m, m ∈ seen ++ n :: queue → m ∈ seen ++ queue := by
    intro m hm
    rcases List.mem_append.1 hm with hm | hm
    · exact List.mem_append_left _ hm
    rcases List.mem_cons.1 hm with rfl | hm
    · exact List.mem_append_left _ hn
    · exact List.mem_append_right _ hm
  refine ⟨h.nodup, fun m hm => h.leads m ?_, fun s hs => hmem s (h.begun s hs),
    fun a ha m hm => hmem m (h.closed a ha m hm)⟩
  rcases List.mem_append.1 hm with hm | hm
  · exact List.mem_append_left _ hm
  · exact List.mem_append_right _ (List.mem_cons_of_mem _ hm)

/-- A node is seen for the first time, and where it leads is queued. -/
theorem visit (h : Searching next starts (seen, n :: queue)) (hn : n ∉ seen) :
    Searching next starts (seen ++ [n], queue ++ next n) := by
  have hfound : Leads next starts n := h.leads n (by simp)
  have hmem : ∀ m, m ∈ seen ++ n :: queue → m ∈ seen ++ [n] ++ (queue ++ next n) := by
    intro m hm
    simp only [List.mem_append, List.mem_cons] at hm ⊢
    tauto
  refine ⟨List.concat_eq_append ▸ h.nodup.concat hn, fun m hm => ?_,
    fun s hs => hmem s (h.begun s hs), fun a ha m hm => ?_⟩
  · simp only [List.mem_append, List.mem_singleton] at hm
    rcases hm with (hm | rfl) | hm | hm
    · exact h.leads m (List.mem_append_left _ hm)
    · exact hfound
    · exact h.leads m (by simp [hm])
    · exact hfound.step hm
  · rcases List.mem_append.1 ha with ha | ha
    · exact hmem m (h.closed a ha m hm)
    · rw [List.mem_singleton] at ha
      subst ha
      simp [hm]

theorem step {state : List NodeId × List NodeId} (h : Searching next starts state) :
    Searching next starts (searchStep next state) := by
  obtain ⟨seen, queue⟩ := state
  cases queue with
  | nil => exact h
  | cons n queue =>
    rw [searchStep]
    by_cases hn : n ∈ seen
    · rw [if_pos (by simpa using hn)]
      exact h.skip hn
    · rw [if_neg (by simpa using hn)]
      exact h.visit hn

/-- **Whatever has been seen at any time is what the starts lead to**, and what is left to be seen
is reached through the queue. -/
theorem iterate {state : List NodeId × List NodeId} (h : Searching next starts state)
    (steps : Nat) : Searching next starts ((searchStep next)^[steps] state) := by
  induction steps generalizing state with
  | zero => exact h
  | succ steps ih => exact ih h.step

/-- When the queue is empty, what has been seen is exactly what the starts lead to. -/
theorem mem_iff (h : Searching next starts (seen, [])) : n ∈ seen ↔ Leads next starts n := by
  constructor
  · intro hn
    exact h.leads n (List.mem_append_left _ hn)
  · rintro ⟨s, hs, hsn⟩
    induction hsn with
    | refl => simpa using h.begun s hs
    | tail _ hbc ih => simpa using h.closed _ ih _ hbc

/-- Nodes are seen once, so not more of them are seen than there are. -/
theorem length_le (h : Searching next starts (seen, queue))
    (hlt : ∀ n, Leads next starts n → n < count) : seen.length ≤ count := by
  have hsub : seen ⊆ List.range count :=
    fun n hn => List.mem_range.2 (hlt n (h.leads n (List.mem_append_left _ hn)))
  simpa using (h.nodup.subperm hsub).length_le

end Searching

/-- **The queue becomes empty**, with what is seen in rounds.  Every round but the last sees a node
for the first time, so one round more than there are nodes is enough. -/
theorem exists_iterate_searchStep (hlt : ∀ n, Leads next starts n → n < count) (rounds : Nat)
    (seen round : List NodeId) (hrounds : count < rounds + seen.length)
    (h : Searching next starts (seen, round)) :
    ∃ steps, (searchStep next)^[steps] (seen, round) = (closure next rounds seen round, []) := by
  induction rounds generalizing seen round with
  | zero =>
    have := h.length_le hlt
    omega
  | succ rounds ih =>
    have hround : (searchStep next)^[round.length] (seen, round) =
        (seen ++ fresh seen round, (fresh seen round).flatMap next) := by
      simpa using iterate_searchStep_round round [] seen
    change ∃ steps, _ = (if (fresh seen round).isEmpty then seen
      else closure next rounds (seen ++ fresh seen round) ((fresh seen round).flatMap next), [])
    by_cases hfresh : fresh seen round = []
    · refine ⟨round.length, ?_⟩
      rw [hround, hfresh]
      simp
    · have hpos := List.length_pos_iff.2 hfresh
      obtain ⟨steps, hsteps⟩ := ih (seen ++ fresh seen round) ((fresh seen round).flatMap next)
        (by rw [List.length_append]; omega) (hround ▸ h.iterate round.length)
      refine ⟨steps + round.length, ?_⟩
      rw [if_neg (by simpa using hfresh), Function.iterate_add_apply, hround, hsteps]

/-! ## The two searches of a graph -/

/-- A search that leads to nodes only comes to an end, and finds what the starts lead to. -/
theorem search_spec (hlt : ∀ n, Leads next starts n → n < count) :
    (∃ steps seen, (searchStep next)^[steps] ([], starts) = (seen, []) ∧
      seen.Perm (inOrder count (closure next (count + 1) [] starts))) ∧
    ∀ n, n ∈ inOrder count (closure next (count + 1) [] starts) ↔ Leads next starts n := by
  have hstart := Searching.start next starts
  obtain ⟨steps, hsteps⟩ := exists_iterate_searchStep hlt (count + 1) [] starts (by simp) hstart
  have hend := hsteps ▸ hstart.iterate steps
  have hmem : ∀ n, n ∈ inOrder count (closure next (count + 1) [] starts) ↔
      Leads next starts n := by
    intro n
    simp only [inOrder, List.mem_filter, List.mem_range, List.contains_iff_mem, hend.mem_iff]
    exact ⟨And.right, fun h => ⟨hlt n h, h⟩⟩
  refine ⟨⟨steps, _, hsteps, ?_⟩, hmem⟩
  refine (List.perm_ext_iff_of_nodup hend.nodup (List.nodup_range.filter _)).2 fun n => ?_
  exact hend.mem_iff.trans (hmem n).symm

/-- Steps within a graph lead from nodes to nodes. -/
theorem lt_of_leads (hnext : ∀ a b, b ∈ next a → b < count) (hstarts : ∀ s ∈ starts, s < count)
    (h : Leads next starts n) : n < count := by
  obtain ⟨s, hs, hsn⟩ := h
  rcases ReflTransGen.cases_tail hsn with rfl | ⟨b, -, hbn⟩
  · exact hstarts n hs
  · exact hnext b n hbn

theorem Linked.mem_consumersOf (h : Linked g) {a b : Nat} :
    b ∈ g.consumersOf a ↔ a ∈ g.inputs b := by
  rw [← List.count_pos_iff, ← List.count_pos_iff, h.mirrored]

theorem leads_singleton {s : Nat} :
    Leads next [s] n ↔ ReflTransGen (fun a b => b ∈ next a) s n := by
  simp [Leads]

/-- Going to consumers leads from one node to another exactly if going to inputs leads back. -/
theorem Linked.leads_swap (h : Linked g) {a b : Nat} :
    Leads g.consumersOf [a] b ↔ Leads g.inputs [b] a := by
  rw [leads_singleton, leads_singleton, ← Relation.reflTransGen_swap]
  have hswap : (Function.swap fun a b => b ∈ g.consumersOf a) = fun a b => b ∈ g.inputs a := by
    funext a b
    exact propext h.mem_consumersOf
  rw [hswap]

/-- **Searches find exactly what the starts lead to, and are dual.**  From nodes of a graph whose
consumers are its inputs read backwards, whether it has cycles or not, both searches come to an end
with an empty queue.  One finds the starts and what is reached from them by going to consumers, the
other what is reached by going to inputs; and one finds a second node from a first exactly if the
other finds the first from the second. -/
theorem searches_exact (h : Linked g) (hstarts : ∀ s ∈ starts, s < g.count) :
    ((∃ steps seen, (searchStep g.consumersOf)^[steps] ([], starts) = (seen, []) ∧
        seen.Perm (g.dependents starts)) ∧
      ∀ n, n ∈ g.dependents starts ↔
        ∃ s ∈ starts, ReflTransGen (fun a b => b ∈ g.consumersOf a) s n) ∧
    ((∃ steps seen, (searchStep g.inputs)^[steps] ([], starts) = (seen, []) ∧
        seen.Perm (g.dependencies starts)) ∧
      ∀ n, n ∈ g.dependencies starts ↔
        ∃ s ∈ starts, ReflTransGen (fun a b => b ∈ g.inputs a) s n) ∧
    ∀ a < g.count, ∀ b < g.count, b ∈ g.dependents [a] ↔ a ∈ g.dependencies [b] := by
  have hdown : ∀ starts : List NodeId, (∀ s ∈ starts, s < g.count) →
      ∀ n, Leads g.consumersOf starts n → n < g.count := fun starts hstarts n =>
    lt_of_leads (fun _ _ hb => h.lt_of_mem_inputs (h.mem_consumersOf.1 hb)) hstarts
  have hup : ∀ starts : List NodeId, (∀ s ∈ starts, s < g.count) →
      ∀ n, Leads g.inputs starts n → n < g.count := fun starts hstarts n =>
    lt_of_leads (fun _ _ hb => h.input_lt hb) hstarts
  refine ⟨search_spec (hdown starts hstarts), search_spec (hup starts hstarts), ?_⟩
  intro a ha b hb
  have hdependents := (search_spec (hdown [a] (by simpa using ha))).2 b
  have hdependencies := (search_spec (hup [b] (by simpa using hb))).2 a
  exact hdependents.trans (h.leads_swap.trans hdependencies.symm)

/-- A search meets the product and its exponential, which read each other, again and again. -/
theorem searches_exact_looped :
    Linked Looped.graph ∧ ¬ Acyclic Looped.graph ∧
      (∃ steps seen, (searchStep Looped.graph.consumersOf)^[steps] ([], [2]) = (seen, []) ∧
        seen.Perm (Looped.graph.dependents [2])) ∧
      Looped.graph.dependents [2] = [1, 2] ∧ Looped.graph.dependencies [2] = [0, 1, 2] ∧
      (2 ∈ Looped.graph.dependents [0] ↔ 0 ∈ Looped.graph.dependencies [2]) := by
  have hstarts : ∀ s ∈ [2], s < Looped.graph.count := by decide +kernel
  obtain ⟨⟨hsearch, -⟩, -, hdual⟩ := searches_exact Looped.linked_graph hstarts
  exact ⟨Looped.linked_graph, Looped.cycle_graph, hsearch, by decide +kernel, by decide +kernel,
    hdual 0 (by decide +kernel) 2 (by decide +kernel)⟩

end Stochastic.Graph
