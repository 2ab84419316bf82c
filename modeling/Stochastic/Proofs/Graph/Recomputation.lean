import Mathlib.Logic.Function.Iterate
import Stochastic.Proofs.Graph.Adjustment
import Stochastic.Proofs.Graph.Sorting

/-!
# Types from scratch

Types can be found anew by going through the nodes in a topological order: when a node is
reached its inputs have been dealt with, so nothing is left of the types that were there before.
A graph that is built has these types at any time.  A node that is added is typed at its
addition, and after a replacement types are inferred again from the node that was changed on,
stopping where a type turns out to be what it was.

Inferring types again takes nodes from the front of a queue and puts consumers at its back.
This is the same as going through it in rounds, and without cycles the queue becomes empty.

## Main definitions

* `Graph.retype`, `Graph.UpToDate` — types found anew, and graphs where they are those that are
  there.
* `Graph.refreshStep` — one node is taken from the queue.

## Main results

* `Graph.types_foldl_retype` — types that are right are those found anew.
* `Graph.exists_iterate_refreshStep` — the queue becomes empty.
* `Graph.upToDate_of_built` — adding nodes and replacing inputs keeps types up to date.
-/

namespace Stochastic.Graph

variable {g g' : Graph} {order round next : List NodeId} {n start : Nat}

/-! ## Going through an order -/

/-- Sets the type of a node to the one that follows from the types of its inputs. -/
def retype (g : Graph) (n : NodeId) : Graph := { g with types := g.types.set n (g.inferred n) }

/-- The types of the nodes are those found by going through them in their topological order,
whatever types are there at the beginning. -/
def UpToDate (g : Graph) : Prop :=
  ∃ order, g.topologicalOrder = .ok order ∧
    ∀ ts, ts.length = g.count → (order.foldl retype { g with types := ts }).types = g.types

theorem retyped_retype (g : Graph) (n : Nat) : Retyped g (g.retype n) := ⟨_, List.length_set, rfl⟩

theorem typeOf_retype_of_ne {m : Nat} (hmn : m ≠ n) : (g.retype n).typeOf m = g.typeOf m := by
  simp [retype, Columns.typeOf, List.getElem?_set_ne (Ne.symm hmn)]

theorem typeOf_retype_self (hn : n < g.types.length) : (g.retype n).typeOf n = g.inferred n := by
  simp [retype, Columns.typeOf, hn]

/-- A graph has the types of another on some nodes. -/
def Agrees (g g' : Graph) (done : List NodeId) : Prop :=
  Retyped g g' ∧ ∀ m ∈ done, g'.typeOf m = g.typeOf m

/-- A node whose inputs have the right types gets the right type. -/
theorem Agrees.retype {done : List NodeId} (hg : Consistent g) (ht : Typed g) (hn : n < g.count)
    (hinputs : ∀ x ∈ g.inputs n, x ∈ done) (h : Agrees g g' done) :
    Agrees g (g'.retype n) (done ++ [n]) := by
  obtain ⟨hre, htypes⟩ := h
  refine ⟨hre.trans (retyped_retype g' n), ?_⟩
  intro m hm
  by_cases hmn : m = n
  · subst hmn
    have hlength : m < g'.types.length := by
      rw [(hre.consistent hg).types_length, hre.count]
      exact hn
    rw [typeOf_retype_self hlength, ht.eq hn]
    exact inferred_congr (hre.kindOf m) (hre.inputs m) fun x hx => htypes x (hinputs x hx)
  · rw [typeOf_retype_of_ne hmn]
    rw [List.mem_append, List.mem_singleton] at hm
    exact htypes m (hm.resolve_right hmn)

theorem InputsFirst.of_append {inputs : NodeId → List NodeId} {done rest : List NodeId}
    (h : InputsFirst inputs (done ++ rest)) : InputsFirst inputs done := by
  intro pre n post hdone
  exact h pre n (post ++ rest) (by simp [hdone])

/-- Going through nodes behind their inputs gives them the right types. -/
theorem agrees_foldl_retype (hg : Consistent g) (ht : Typed g) (hre : Retyped g g')
    (hlt : ∀ n ∈ order, n < g.count) (hfirst : InputsFirst g.inputs order) :
    Agrees g (order.foldl retype g') order := by
  induction order using List.reverseRecOn with
  | nil => exact ⟨hre, by simp⟩
  | append_singleton done n ih =>
    rw [List.foldl_append, List.foldl_cons, List.foldl_nil]
    apply Agrees.retype hg ht (hlt n (by simp)) (hfirst done n [] rfl)
    exact ih (fun m hm => hlt m (List.mem_append_left _ hm)) hfirst.of_append

theorem eq_of_typeOf (hre : Retyped g g') (h : ∀ n < g.types.length, g'.typeOf n = g.typeOf n) :
    g'.types = g.types := by
  obtain ⟨ts, hts, rfl⟩ := hre
  apply List.ext_getElem hts
  intro n hn hn'
  have := h n hn'
  simpa [Columns.typeOf, hn, hn'] using this

/-- **Types that are right are those found anew**, in any order that lists every node behind its
inputs. -/
theorem types_foldl_retype (hg : Consistent g) (ht : Typed g)
    (hperm : order.Perm (List.range g.count)) (hfirst : InputsFirst g.inputs order)
    {ts : List ValueType} (hts : ts.length = g.count) :
    (order.foldl retype { g with types := ts }).types = g.types := by
  have hmem : ∀ n, n ∈ order ↔ n < g.count := fun n => by rw [hperm.mem_iff, List.mem_range]
  obtain ⟨hre, htypes⟩ := agrees_foldl_retype hg ht ⟨ts, hts.trans hg.types_length.symm, rfl⟩
    (fun n => (hmem n).1) hfirst
  apply eq_of_typeOf hre
  intro n hn
  exact htypes n ((hmem n).2 (hg.types_length ▸ hn))

theorem Typed.upToDate (hg : Consistent g) (ht : Typed g) (hac : Acyclic g) : UpToDate g := by
  obtain ⟨order, horder⟩ := exists_topologicalOrder hg hac
  obtain ⟨hperm, hfirst⟩ := hg.linked.sorted_of_topologicalOrder horder
  exact ⟨order, horder, fun _ hts => types_foldl_retype hg ht hperm hfirst hts⟩

theorem Built.upToDate (h : Built g) : UpToDate g := by
  obtain ⟨hw, ht⟩ := wellFormed_typed_of_built h
  exact ht.upToDate hw.toConsistent (acyclic_of_built h)

/-! ## The queue -/

/-- Takes a node from the front of the queue and infers its type again.  Its consumers are put at
the back if the type changed or if it is the node to start from. -/
def refreshStep (start : NodeId) : Graph × List NodeId → Graph × List NodeId
  | (g, []) => (g, [])
  | (g, n :: queue) => refreshNode start (g, queue) n

/-- Consumers are put behind all that is queued. -/
theorem refreshNode_append (queue next : List NodeId) :
    refreshNode start (g, queue ++ next) n =
      ((refreshNode start (g, next) n).1, queue ++ (refreshNode start (g, next) n).2) := by
  unfold refreshNode
  by_cases hc : g.inferred n ≠ g.typeOf n ∨ n = start
  · simp only [if_pos hc, List.append_assoc]
  · simp only [if_neg hc]

/-- The nodes at the front of a queue are a round, and what they put at its back belongs to the
next one. -/
theorem iterate_refreshStep_round (round next : List NodeId) :
    (refreshStep start)^[round.length] (g, round ++ next) =
      round.foldl (refreshNode start) (g, next) := by
  induction round generalizing g next with
  | nil => rfl
  | cons n round ih =>
    have hstep : refreshStep start (g, n :: round ++ next) =
        ((refreshNode start (g, next) n).1, round ++ (refreshNode start (g, next) n).2) :=
      refreshNode_append round next
    rw [List.length_cons, Function.iterate_succ_apply, hstep, ih, List.foldl_cons]

/-- **The queue becomes empty**, with the types found in rounds.  As in `typed_refresh`, the nodes
of the `k`-th round have at least `k` ancestors. -/
theorem exists_iterate_refreshStep (h : Consistent g) (hac : Acyclic g) (rounds k : Nat)
    (round : List NodeId) (hk : rounds + k = g.count)
    (hround : ∀ m ∈ round, m < g.count ∧ k ≤ (g.ancestors m).card) :
    ∃ steps, (refreshStep start)^[steps] (g, round) = (refresh start rounds g round, []) := by
  induction rounds generalizing g k round with
  | zero =>
    obtain rfl : k = g.count := by omega
    obtain rfl := eq_nil_of_count_le hac hround
    exact ⟨0, rfl⟩
  | succ rounds ih =>
    obtain ⟨_, next, heq, ⟨ts, hts, rfl⟩, hnext, -⟩ := refresh_round start h round []
    have hk' : rounds + (k + 1) = g.count := by omega
    obtain ⟨steps, hsteps⟩ :=
      ih (h.withTypes hts) hac (k + 1) next hk' (ancestors_next h hac hround hnext)
    refine ⟨steps + round.length, ?_⟩
    have hfirst : (refreshStep start)^[round.length] (g, round) =
        round.foldl (refreshNode start) (g, []) := by
      simpa using iterate_refreshStep_round round []
    rw [Function.iterate_add_apply, hfirst, refresh_succ, heq]
    exact hsteps

/-- After a replacement that makes no cycle the queue becomes empty. -/
theorem exists_iterate_rewire {c slot r : Nat} (h : WellFormed g)
    (hr : g.rewire c slot r = .ok g') (hac : Acyclic g') :
    ∃ steps, (refreshStep c)^[steps] (g.rewired c slot r, [c]) = (g', []) := by
  obtain ⟨hslot, hrc, rfl⟩ := (rewire_eq_ok h.toConsistent).1 hr
  have hre := retyped_refresh c g.count (g.rewired c slot r) [c]
  have hg := (wellFormed_rewired h hslot hrc).toConsistent
  apply exists_iterate_refreshStep hg (hre.acyclic_iff.1 hac) g.count 0 [c]
  · rfl
  · intro m hm
    rw [List.mem_singleton] at hm
    subst hm
    exact ⟨h.lt_of_mem_inputs (List.getElem_mem hslot), Nat.zero_le _⟩

/-- **Types are kept up to date.**  In a graph that is built, and so after every addition and
every replacement that makes no cycle, the types are those found anew in topological order.
Inferring types again after a replacement comes to an end: taking nodes from the queue leads to
an empty one, and then no node has a type that does not follow from its inputs. -/
theorem upToDate_of_built (h : Built g) :
    UpToDate g ∧ (∀ kind xs, UpToDate (g.add kind xs).state) ∧
      ∀ c slot r g', g.rewire c slot r = .ok g' → Acyclic g' →
        UpToDate g' ∧ Typed g' ∧
          ∃ steps, (refreshStep c)^[steps] (g.rewired c slot r, [c]) = (g', []) := by
  obtain ⟨hw, ht⟩ := wellFormed_typed_of_built h
  refine ⟨h.upToDate, fun kind xs => (h.add kind xs).upToDate, ?_⟩
  intro c slot r g' hr hac
  exact ⟨(h.rewire hr hac).upToDate, typed_rewire hw ht hr hac, exists_iterate_rewire hw hr hac⟩

namespace Tilted

/-- The square of a probability, its exponential and its own square. -/
def nodes : List (NodeKind × List NodeId) :=
  [(.constant (.scalar 0.5) none, []), (.operator .multiplication, [0, 0]), (.operator .exp, [1]),
    (.operator .multiplication, [1, 1]), (.constant (.scalar 2.5) none, [])]

def added : Graph := nodes.foldl (fun g node => (g.add node.1 node.2).state) .empty

/-- One factor of the square is no probability any more. -/
def graph : Graph := refresh 1 added.count (added.rewired 1 1 4) [1]

theorem built_added : Built added := built_foldl_add nodes .empty

theorem wellFormed_added : WellFormed added := (wellFormed_typed_of_built built_added).1

theorem rewire_added : added.rewire 1 1 4 = .ok graph :=
  (rewire_eq_ok wellFormed_added.toConsistent).2 ⟨by decide +kernel, by decide +kernel, rfl⟩

theorem acyclic_graph : Acyclic graph := by
  apply acyclic_of_rank fun n => [0, 1, 2, 3, 0].getD n 0
  · decide +kernel
  · exact (wellFormed_rewire wellFormed_added rewire_added).toConsistent

end Tilted

/-- Both products get another type, the second of them from the first, which it reads twice, and
the exponential keeps its own. -/
theorem upToDate_of_built_tilted :
    Built Tilted.added ∧ UpToDate Tilted.added ∧
      Tilted.added.rewire 1 1 4 = .ok Tilted.graph ∧ Acyclic Tilted.graph ∧
      [1, 2, 3].map (fun n => decide (Tilted.graph.typeOf n = Tilted.added.typeOf n)) =
        [false, true, false] ∧
      UpToDate Tilted.graph ∧
      ∃ steps, (refreshStep 1)^[steps] (Tilted.added.rewired 1 1 4, [1]) = (Tilted.graph, []) := by
  obtain ⟨hadded, -, hrewire⟩ := upToDate_of_built Tilted.built_added
  obtain ⟨hgraph, -, hqueue⟩ := hrewire 1 1 4 _ Tilted.rewire_added Tilted.acyclic_graph
  exact ⟨Tilted.built_added, hadded, Tilted.rewire_added, Tilted.acyclic_graph, by decide +kernel,
    hgraph, hqueue⟩

end Stochastic.Graph
