import Stochastic.Proofs.Graph.Order
import Stochastic.Proofs.Graph.Types

/-!
# Nodes that are listed and nodes that wait

While nodes are listed, the count of a node says how many of its inputs are not listed yet, and
a node that waits for none is in the queue.  So if the queue is empty, then every node that is
not listed waits for one that is not listed either.  Without cycles there is no such node.

## Main definitions

* `Graph.Pending` — what holds between listing one node and the next.

## Main results

* `Graph.Pending.next` — listing a node.
* `Graph.Pending.mem_done` — the queue runs dry only when every node is listed.
* `Graph.pending_roots` — where listing begins.
-/

namespace Stochastic.Graph

variable {g : Graph} {missing : List Nat} {done queue freed cs : List NodeId} {count n b : Nat}
variable {inputs consumersOf : NodeId → List NodeId}

/-! ## Counting off -/

/-- A node is counted off once for each of its inputs. -/
theorem left_foldl_countOff (cs : List NodeId) (missing : List Nat) (freed : List NodeId)
    (b : Nat) : left (cs.foldl countOff (missing, freed)).1 b = left missing b - cs.count b := by
  induction cs generalizing missing freed with
  | nil => simp
  | cons c cs ih =>
    rw [List.foldl_cons]
    change left (cs.foldl countOff (missing.set c (left missing c - 1), _)).1 b = _
    rw [ih, left_set, List.count_cons]
    by_cases hb : b = c
    · subst hb
      simp only [if_true, beq_self_eq_true]
      omega
    · rw [if_neg hb, if_neg (by simpa using Ne.symm hb), Nat.add_zero]

/-- A node is freed when its last input is counted off. -/
theorem mem_foldl_countOff (cs : List NodeId) (missing : List Nat) (freed : List NodeId)
    (h : b ∈ freed ∨ 0 < left missing b ∧ left missing b ≤ cs.count b) :
    b ∈ (cs.foldl countOff (missing, freed)).2 := by
  induction cs generalizing missing freed with
  | nil =>
    rcases h with h | ⟨hpos, hle⟩
    · exact h
    · rw [List.count_nil] at hle
      omega
  | cons c cs ih =>
    rw [List.foldl_cons]
    change b ∈ (cs.foldl countOff (missing.set c (left missing c - 1),
      if left missing c = 1 then freed ++ [c] else freed)).2
    apply ih
    rcases h with h | ⟨hpos, hle⟩
    · refine .inl ?_
      split
      · exact List.mem_append_left _ h
      · exact h
    rw [left_set]
    by_cases hb : b = c
    · subst hb
      rw [List.count_cons_self] at hle
      by_cases hone : left missing b = 1
      · exact .inl (by simp [hone])
      · refine .inr ?_
        rw [if_pos rfl]
        omega
    · rw [if_neg hb]
      rw [List.count_cons_of_ne (Ne.symm hb)] at hle
      exact .inr ⟨hpos, hle⟩

/-! ## Between one node and the next -/

/-- What holds when the nodes `done` are listed: counts say how many inputs are not listed, and
nodes that wait for none are listed or queued. -/
structure Pending (inputs : NodeId → List NodeId) (count : Nat) (done : List NodeId)
    (missing : List Nat) (queue : List NodeId) : Prop where
  nodup : (done ++ queue).Nodup
  zero : ∀ n ∈ done ++ queue, left missing n = 0
  counts : ∀ n < count, left missing n = (inputs n).countP (fun x => decide (x ∉ done))
  queued : ∀ n < count, left missing n = 0 → n ∈ done ++ queue

theorem countP_not_mem_append (h : n ∉ done) (xs : List NodeId) :
    xs.countP (fun x => decide (x ∉ done ++ [n])) =
      xs.countP (fun x => decide (x ∉ done)) - xs.count n := by
  have hsum : xs.countP (fun x => decide (x ∉ done)) =
      xs.countP (fun x => decide (x ∉ done ++ [n])) + xs.count n := by
    induction xs with
    | nil => rfl
    | cons x xs ih =>
      rw [List.countP_cons, List.countP_cons, List.count_cons, ih]
      by_cases hx : x = n
      · subst hx
        simp [h]
        omega
      · simp [hx]
        omega
  omega

/-- The node at the front of the queue is listed, and what it frees is queued. -/
theorem Pending.next (hmirror : ∀ a b, (consumersOf a).count b = (inputs b).count a)
    (h : Pending inputs count done missing (n :: queue)) :
    Pending inputs count (done ++ [n]) ((consumersOf n).foldl countOff (missing, [])).1
      (queue ++ ((consumersOf n).foldl countOff (missing, [])).2) := by
  have hcount : Counted missing ((consumersOf n).foldl countOff (missing, [])).1
      ((consumersOf n).foldl countOff (missing, [])).2 :=
    counted_foldl ⟨fun _ => Nat.le_refl _, List.nodup_nil, by simp⟩ (consumersOf n)
  have hleft := left_foldl_countOff (consumersOf n) missing []
  have hfreed := fun b => mem_foldl_countOff (b := b) (consumersOf n) missing []
  generalize (consumersOf n).foldl countOff (missing, []) = state at hcount hleft hfreed ⊢
  obtain ⟨missing', freed⟩ := state
  have hn : n ∉ done := by
    intro hmem
    exact (List.nodup_append.1 h.nodup).2.2 n hmem n List.mem_cons_self rfl
  have hassoc : done ++ [n] ++ (queue ++ freed) = (done ++ n :: queue) ++ freed := by simp
  refine ⟨?_, ?_, ?_, ?_⟩
  · -- what is freed had inputs missing, so it was neither listed nor queued
    rw [hassoc, List.nodup_append]
    refine ⟨h.nodup, hcount.nodup, ?_⟩
    rintro a ha b hb rfl
    have := h.zero a ha
    have := (hcount.freed a hb).2
    omega
  · rw [hassoc]
    intro a ha
    rcases List.mem_append.1 ha with ha | ha
    · exact Nat.le_zero.1 (h.zero a ha ▸ hcount.le a)
    · exact (hcount.freed a ha).1
  · intro a ha
    rw [hleft, hmirror, h.counts a ha, countP_not_mem_append hn]
  · intro a ha hzero
    rw [hassoc, List.mem_append]
    by_cases hpos : 0 < left missing a
    · -- it waited for the node that is listed now
      refine .inr (hfreed a (.inr ⟨hpos, ?_⟩))
      rw [hleft] at hzero
      omega
    · exact .inl (h.queued a ha (by omega))

/-- A node that is not listed when the queue is empty waits for a node of smaller rank that is
not listed either. -/
theorem Pending.mem_done (rank : Nat → Nat)
    (hrank : ∀ n < count, ∀ x ∈ inputs n, x < count ∧ rank x < rank n)
    (h : Pending inputs count done missing []) (hn : n < count) : n ∈ done := by
  induction hk : rank n using Nat.strong_induction_on generalizing n with
  | _ k ih =>
    have hinputs : ∀ x ∈ inputs n, x ∈ done := by
      intro x hx
      obtain ⟨hlt, hless⟩ := hrank n hn x hx
      exact ih _ (hk ▸ hless) hlt rfl
    have hzero : left missing n = 0 := by
      rw [h.counts n hn, List.countP_eq_zero]
      intro x hx
      simpa using hinputs x hx
    simpa using h.queued n hn hzero

/-! ## At the beginning -/

theorem left_lengths (hwithin : ∀ s ∈ g.spans, s.start + s.length ≤ g.cells.length) (n : Nat) :
    left (g.spans.map Span.length) n = (g.inputs n).length := by
  unfold left
  rw [List.getElem?_map]
  cases hs : g.spans[n]? with
  | none =>
    rw [inputs_eq_nil (List.getElem?_eq_none_iff.1 hs)]
    rfl
  | some s =>
    have hle := hwithin s (List.mem_of_getElem? hs)
    rw [inputs_of_span hs]
    simp only [Option.map_some, Option.getD_some, Columns.slice, List.length_take,
      List.length_drop]
    omega

theorem mem_roots_of_left {c : Columns} (hn : n < c.spans.length)
    (h : left (c.spans.map Span.length) n = 0) : n ∈ roots c := by
  simp only [roots, List.mem_map, List.mem_filter]
  refine ⟨(c.spans[n], n), ⟨?_, ?_⟩, rfl⟩
  · rw [List.mem_zipIdx_iff_getElem?]
    exact List.getElem?_eq_getElem hn
  · simpa [left, hn] using h

theorem pending_roots (hspans : g.spans.length = g.count)
    (hwithin : ∀ s ∈ g.spans, s.start + s.length ≤ g.cells.length) :
    Pending g.inputs g.count [] (g.spans.map Span.length) (roots g.toColumns) where
  nodup := nodup_roots _
  zero n hn := (mem_roots hn).2
  counts n _ := by simp [left_lengths hwithin]
  queued n hn hzero := mem_roots_of_left (hspans ▸ hn) hzero

end Stochastic.Graph
