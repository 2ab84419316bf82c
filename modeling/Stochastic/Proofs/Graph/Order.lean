import Mathlib.Data.List.Nodup
import Mathlib.Data.List.Perm.Subperm
import Stochastic.Graph.Order

/-!
# Every node once

A node is queued when the last of its missing inputs is counted off, which happens at most
once.  So an order lists no node twice, and one that is as long as there are nodes lists every
node.

## Main results

* `Graph.listed_spec` — no node is listed twice, and only nodes that were queued or had inputs
  missing are listed.
* `Graph.perm_of_topologicalOrder` — a topological order is an order of all nodes.
-/

namespace Stochastic.Graph

/-- How many inputs of a node are missing. -/
def left (missing : List Nat) (n : NodeId) : Nat := (missing[n]?).getD 0

variable {missing start : List Nat} {freed : List NodeId}

theorem left_set (missing : List Nat) (c n : Nat) :
    left (missing.set c (left missing c - 1)) n =
      if n = c then left missing c - 1 else left missing n := by
  unfold left
  rw [List.getElem?_set]
  by_cases hn : n = c
  · subst hn
    by_cases hlt : n < missing.length <;> simp [hlt]
  · rw [if_neg (Ne.symm hn), if_neg hn]

theorem lt_length_of_left_pos {n : Nat} (h : 0 < left missing n) : n < missing.length := by
  by_contra hn
  simp [left, List.getElem?_eq_none (Nat.le_of_not_lt hn)] at h

/-- What holds while inputs are counted off, beginning with the counts `start`: the freed nodes
are distinct, each had inputs missing at the start and has none missing any more. -/
structure Counted (start missing : List Nat) (freed : List NodeId) : Prop where
  le : ∀ n, left missing n ≤ left start n
  nodup : freed.Nodup
  freed : ∀ n ∈ freed, left missing n = 0 ∧ 0 < left start n

theorem counted_countOff (h : Counted start missing freed) (c : Nat) :
    Counted start (countOff (missing, freed) c).1 (countOff (missing, freed) c).2 := by
  change Counted start (missing.set c (left missing c - 1))
    (if left missing c = 1 then freed ++ [c] else freed)
  -- counting off makes no count larger, so what has none missing stays so
  have hle : ∀ n, left (missing.set c (left missing c - 1)) n ≤ left missing n := by
    intro n
    rw [left_set]
    by_cases hn : n = c
    · rw [if_pos hn, hn]
      omega
    · exact Nat.le_of_eq (if_neg hn)
  have hfreed : ∀ n ∈ freed,
      left (missing.set c (left missing c - 1)) n = 0 ∧ 0 < left start n := by
    intro n hn
    obtain ⟨hzero, hpos⟩ := h.freed n hn
    have := hle n
    exact ⟨by omega, hpos⟩
  by_cases hc : left missing c = 1
  · rw [if_pos hc]
    -- a node that was freed has no inputs missing, so it is not freed again
    have hnot : c ∉ freed := by
      intro hmem
      have := (h.freed c hmem).1
      omega
    refine ⟨fun n => Nat.le_trans (hle n) (h.le n), ?_, ?_⟩
    · rw [List.nodup_append]
      refine ⟨h.nodup, List.nodup_singleton c, ?_⟩
      rintro a ha b hb rfl
      exact hnot (List.mem_singleton.1 hb ▸ ha)
    · intro n hn
      rcases List.mem_append.1 hn with hn | hn
      · exact hfreed n hn
      · rw [List.mem_singleton] at hn
        subst hn
        rw [left_set, if_pos rfl]
        have := h.le n
        omega
  · rw [if_neg hc]
    exact ⟨fun n => Nat.le_trans (hle n) (h.le n), h.nodup, hfreed⟩

theorem counted_foldl (h : Counted start missing freed) (cs : List NodeId) :
    Counted start (cs.foldl countOff (missing, freed)).1
      (cs.foldl countOff (missing, freed)).2 := by
  induction cs generalizing missing freed with
  | nil => exact h
  | cons c cs ih => exact ih (counted_countOff h c)

/-- No node is listed twice, and only nodes that are queued or have inputs missing are
listed. -/
theorem listed_spec (consumersOf : NodeId → List NodeId) (limit : Nat) (missing : List Nat)
    (queue : List NodeId) (hnodup : queue.Nodup) (hqueue : ∀ n ∈ queue, left missing n = 0) :
    (listed consumersOf limit missing queue).Nodup ∧
      ∀ n ∈ listed consumersOf limit missing queue, n ∈ queue ∨ 0 < left missing n := by
  induction limit generalizing missing queue with
  | zero => simp [listed]
  | succ limit ih =>
    cases queue with
    | nil => simp [listed]
    | cons n queue =>
      have hstart : Counted missing missing [] :=
        ⟨fun _ => Nat.le_refl _, List.nodup_nil, by simp⟩
      have hcount := counted_foldl hstart (consumersOf n)
      simp only [listed]
      generalize (consumersOf n).foldl countOff (missing, []) = state at hcount
      obtain ⟨missing', freed⟩ := state
      obtain ⟨hn, hnodup⟩ := List.nodup_cons.1 hnodup
      obtain ⟨hzero, hqueue⟩ := List.forall_mem_cons.1 hqueue
      -- what is freed had inputs missing, so it was not in the queue
      have hrest : (queue ++ freed).Nodup := by
        rw [List.nodup_append]
        refine ⟨hnodup, hcount.nodup, ?_⟩
        rintro a ha b hb rfl
        have := hqueue a ha
        have := (hcount.freed a hb).2
        omega
      -- the induction goes on with the rest of the queue and what this node has freed
      have hrestZero : ∀ m ∈ queue ++ freed, left missing' m = 0 := by
        intro m hm
        rcases List.mem_append.1 hm with hm | hm
        · have := hcount.le m
          have := hqueue m hm
          dsimp only at *
          omega
        · exact (hcount.freed m hm).1
      obtain ⟨hlisted, hmem⟩ := ih missing' (queue ++ freed) hrest hrestZero
      have hfrom : ∀ m ∈ listed consumersOf limit missing' (queue ++ freed),
          m ∈ queue ∨ 0 < left missing m := by
        intro m hm
        rcases hmem m hm with hm | hm
        · rcases List.mem_append.1 hm with hm | hm
          · exact .inl hm
          · exact .inr (hcount.freed m hm).2
        · exact .inr (Nat.lt_of_lt_of_le hm (hcount.le m))
      refine ⟨List.nodup_cons.2 ⟨?_, hlisted⟩, ?_⟩
      · intro hm
        rcases hfrom n hm with hm | hm
        · exact hn hm
        · omega
      · intro m hm
        rcases List.mem_cons.1 hm with rfl | hm
        · exact .inl List.mem_cons_self
        · exact (hfrom m hm).imp_left (List.mem_cons_of_mem n)

theorem nodup_roots (c : Columns) : (roots c).Nodup := by
  have hsub : (roots c).Sublist (List.range' 0 c.spans.length) := by
    rw [← List.zipIdx_map_snd 0 c.spans]
    exact List.filter_sublist.map Prod.snd
  exact hsub.nodup List.nodup_range'

theorem mem_roots {c : Columns} {n : Nat} (h : n ∈ roots c) :
    n < c.spans.length ∧ left (c.spans.map Span.length) n = 0 := by
  simp only [roots, List.mem_map, List.mem_filter] at h
  obtain ⟨⟨s, i⟩, ⟨hmem, hlen⟩, rfl⟩ := h
  have hs : c.spans[i]? = some s := by simpa using List.mem_zipIdx_iff_getElem?.1 hmem
  obtain ⟨hlt, -⟩ := List.getElem?_eq_some_iff.1 hs
  exact ⟨hlt, by simpa [left, hs] using hlen⟩

/-- A topological order is an order of all nodes. -/
theorem perm_of_topologicalOrder {g : Graph} {order : List NodeId}
    (hspans : g.spans.length = g.count) (h : g.topologicalOrder = .ok order) :
    order.Perm (List.range g.count) := by
  unfold topologicalOrder at h
  dsimp only at h
  have hstart : ∀ n ∈ roots g.toColumns, left (g.spans.map Span.length) n = 0 :=
    fun n hn => (mem_roots hn).2
  obtain ⟨hnodup, hmem⟩ := listed_spec g.consumersOf g.count (g.spans.map Span.length)
    (roots g.toColumns) (nodup_roots _) hstart
  generalize listed g.consumersOf g.count (g.spans.map Span.length) (roots g.toColumns) = listed
    at h hnodup hmem
  by_cases hlen : listed.length = g.count
  · rw [if_pos hlen] at h
    cases h
    -- distinct nodes, as many as there are
    have hsub : order ⊆ List.range g.count := by
      intro n hn
      rw [List.mem_range, ← hspans]
      rcases hmem n hn with hroot | hpos
      · exact (mem_roots hroot).1
      · simpa using lt_length_of_left_pos hpos
    exact (hnodup.subperm hsub).perm_of_length_le (by simp [hlen])
  · rw [if_neg hlen] at h
    cases h

end Stochastic.Graph
