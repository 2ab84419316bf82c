import Stochastic.Proofs.Graph.Adjustment
import Stochastic.Proofs.Graph.Meaning

/-!
# The stages of a pass

A pass changes a graph many times over: a node that stands in for an input is added, the input
is replaced, and the types of the node and of all that depends on it are inferred again one by
one.  While some inputs of a node have been widened and others have not, nothing says that the
type inferred for the node is the one it had.  But it is, at every one of these stages, and so
the types downstream are never touched.

## Main definitions

* `Graph.Alters` — one change: a node, an input or a type.
* `Graph.stages` — the graphs that a pass goes through, change by change.
* `Graph.Path` — a list of graphs leads from one graph to another.

## Main results

* `Graph.path_rewireStages` — the stages of a replacement.
* `Graph.path_stages` — the stages lead to the graph that the pass leaves, and each keeps all
  types.
* `Graph.typeOf_stages` — types stay the same throughout a pass.
-/

namespace Stochastic

/-- What is seen on the way while a step is done for every member of a list, up to the first one
for which it fails. -/
def Step.trace {ε σ β γ : Type} (step : β → EStateM ε σ Unit) (seen : β → σ → List γ) :
    List β → σ → List γ
  | [], _ => []
  | b :: bs, s => seen b s ++ match step b s with
    | .ok _ s' => Step.trace step seen bs s'
    | .error _ _ => []

namespace Graph

variable {g g' g₁ : Graph} {p p' : Pass} {n m x slot : Nat} {t : ValueType}
  {required : Requirement}

/-! ## Changes and stages -/

/-- One change of a graph: a node is added unless it is there, an input is replaced, or the type
of a node is inferred again. -/
inductive Alters : Graph → Graph → Prop
  | insert {g g' : Graph} {kind : NodeKind} {xs : List NodeId} {m : NodeId} :
    g.insert kind xs = .ok (g', m) → Alters g g'
  | replace (g : Graph) (consumer : NodeId) (slot : Nat) (replacement : NodeId) :
    Alters g (g.rewired consumer slot replacement)
  | retype (g : Graph) (start n : NodeId) (next : List NodeId) :
    Alters g (refreshNode start (g, next) n).1

/-- The graphs of one round of inferring types again, one for each node of the round. -/
def roundStages (start : NodeId) : Graph × List NodeId → List NodeId → List Graph
  | _, [] => []
  | state, n :: round =>
    (refreshNode start state n).1 :: roundStages start (refreshNode start state n) round

/-- The graphs of all rounds. -/
def refreshStages (start : NodeId) : (rounds : Nat) → Graph → (round : List NodeId) → List Graph
  | 0, _, _ => []
  | rounds + 1, g, round =>
    let state := round.foldl (refreshNode start) (g, [])
    roundStages start (g, []) round ++ refreshStages start rounds state.1 state.2

/-- The graphs of a replacement: with the input replaced, then with types inferred again. -/
def rewireStages (g : Graph) (consumer : NodeId) (slot : Nat) (replacement : NodeId) :
    List Graph :=
  match g.rewire consumer slot replacement with
  | .ok _ =>
    g.rewired consumer slot replacement ::
      refreshStages consumer g.count (g.rewired consumer slot replacement) [consumer]
  | .error _ => []

/-- The graphs while one input is made to meet its requirement: with the node that stands in for
it, then those of the replacement. -/
def meetSlotStages (n : NodeId) (edge : (NodeId × Requirement) × Nat) (p : Pass) : List Graph :=
  match meet n edge.2 edge.1.1 edge.1.2 p with
  | .ok (some m) p₁ => p₁.graph :: p₁.graph.rewireStages n edge.2 m
  | _ => []

/-- The graphs while a node is visited. -/
def solveNodeStages (n : NodeId) (p : Pass) : List Graph :=
  Step.trace (meetSlot n) (meetSlotStages n)
    ((p.graph.inputs n).zip (p.graph.requirements n)).zipIdx p

/-- The graphs that a pass goes through after the one it begins with. -/
def stages (g : Graph) : List Graph :=
  match g.topologicalOrder with
  | .ok order => Step.trace solveNode solveNodeStages order ⟨g, {}, []⟩
  | .error _ => []

/-! ## Paths -/

/-- The graphs of a list lead from one graph to another, each related to the one before. -/
inductive Path (R : Graph → Graph → Prop) : Graph → List Graph → Graph → Prop
  | nil (g : Graph) : Path R g [] g
  | cons {g g₁ g' : Graph} {l : List Graph} : R g g₁ → Path R g₁ l g' → Path R g (g₁ :: l) g'

namespace Path

variable {R S : Graph → Graph → Prop} {l l' : List Graph}

theorem append (h : Path R g l g₁) (h' : Path R g₁ l' g') : Path R g (l ++ l') g' := by
  induction h with
  | nil => exact h'
  | cons hr _ ih => exact .cons hr (ih h')

theorem mono (h : Path R g l g') (hRS : ∀ {a b}, R a b → S a b) : Path S g l g' := by
  induction h with
  | nil => exact .nil _
  | cons hr _ ih => exact .cons (hRS hr) ih

theorem eq_or_mem (h : Path R g l g') : g' = g ∨ g' ∈ l := by
  induction h with
  | nil => exact .inl rfl
  | cons _ _ ih =>
    rcases ih with rfl | hmem
    · exact .inr List.mem_cons_self
    · exact .inr (List.mem_cons_of_mem _ hmem)

/-- A relation that is kept from stage to stage holds between the first graph and all others. -/
theorem forall_mem (h : Path R g l g') (htrans : ∀ {a b c}, R a b → R b c → R a c) :
    ∀ g₁ ∈ l, R g g₁ := by
  induction h with
  | nil => simp
  | cons hr _ ih =>
    rw [List.forall_mem_cons]
    exact ⟨hr, fun g₁ hg₁ => htrans hr (ih g₁ hg₁)⟩

end Path

/-! ## What every stage keeps -/

/-- The nodes that were there have the types they had, and these are what is inferred for
them. -/
structure Keeps (g g' : Graph) : Prop where
  count_le : g.count ≤ g'.count
  typeOf : ∀ n < g.count, g'.typeOf n = g.typeOf n
  typed : Typed g'

theorem Keeps.trans {g₁ g₂ g₃ : Graph} (h : Keeps g₁ g₂) (h' : Keeps g₂ g₃) : Keeps g₁ g₃ where
  count_le := Nat.le_trans h.count_le h'.count_le
  typeOf n hn := (h'.typeOf n (Nat.lt_of_lt_of_le hn h.count_le)).trans (h.typeOf n hn)
  typed := h'.typed

theorem Keeps.inferred (h : Keeps g g') (hn : n < g.count) : g'.inferred n = g.typeOf n := by
  rw [← h.typed.eq (Nat.lt_of_lt_of_le hn h.count_le), h.typeOf n hn]

theorem Advances.keeps (h : Advances g g' n) : Keeps g g' := ⟨h.count_le, h.typeOf, h.typed⟩

/-- A change that keeps all types. -/
def Stage (g g' : Graph) : Prop := Alters g g' ∧ Keeps g g'

/-! ## Inferring types again

In a graph whose types are right every node that is looked at gets the type that it has. -/

theorem path_roundStages (start : Nat) (h : Consistent g) (ht : Typed g)
    (round next : List NodeId) : Path Stage g (roundStages start (g, next) round) g := by
  induction round generalizing next with
  | nil => exact .nil g
  | cons n round ih =>
    obtain ⟨next', heq⟩ := foldl_refreshNode_of_typed start h ht [n] next
    have hnode : refreshNode start (g, next) n = (g, next') := heq
    have hstage : Stage g g := by
      refine ⟨?_, Nat.le_refl _, fun _ _ => rfl, ht⟩
      have halters := Alters.retype g start n next
      rwa [hnode] at halters
    rw [roundStages, hnode]
    exact .cons hstage (ih next')

theorem path_refreshStages (start rounds : Nat) (h : Consistent g) (ht : Typed g)
    (round : List NodeId) : Path Stage g (refreshStages start rounds g round) g := by
  induction rounds generalizing round with
  | zero => exact .nil g
  | succ rounds ih =>
    obtain ⟨next, heq⟩ := foldl_refreshNode_of_typed start h ht round []
    rw [refreshStages, heq]
    exact (path_roundStages start h ht round []).append (ih next)

/-! ## One input -/

/-- Replacing an input by a node that stands in for it. -/
theorem path_rewireStages (h : WellFormed g) (ht : Typed g) (hx : (g.inputs n)[slot]? = some x)
    (hrequired : (g.requirements n)[slot]? = some (.exact t))
    (htype : g.typeOf m = t ∨ g.typeOf m = g.typeOf x) (hr : g.rewire n slot m = .ok g') :
    Path Stage g (g.rewireStages n slot m) g' := by
  obtain ⟨hslot, hm, hg'⟩ := (rewire_eq_ok h.toConsistent).1 hr
  have hw := (wellFormed_rewired h hslot hm).toConsistent
  have htyped := typed_rewired h ht hx hrequired htype
  rw [rewireStages, hr, hg', refresh_of_typed n g.count hw htyped [n]]
  refine .cons ⟨.replace g n slot m, Nat.le_refl _, fun _ _ => rfl, htyped⟩ ?_
  exact path_refreshStages n g.count hw htyped [n]

theorem StandsIn.alters (hs : StandsIn g x t g₁ m) : Alters g g₁ := by
  cases hs with
  | constant _ hi => exact .insert hi
  | conversion _ hi => exact .insert hi

/-- The stages for one input lead to what the step for it leaves, also where it fails. -/
theorem path_meetSlotStages (h : WellFormed p.graph) (ht : Typed p.graph)
    (hx : (p.graph.inputs n)[slot]? = some x)
    (hrequired : (p.graph.requirements n)[slot]? = some required)
    (hl : Step.Leaves (meetSlot n ((x, required), slot)) p p') :
    Path Stage p.graph (meetSlotStages n ((x, required), slot) p) p'.graph := by
  rw [meetSlotStages]
  rcases hl with ⟨u, hok⟩ | ⟨e, herror⟩
  · obtain ⟨o, p₁, hmeet, hrest⟩ := Step.bind_eq_ok.1 hok
    rw [hmeet]
    rcases meet_eq_ok hmeet with ⟨rfl, rfl, -⟩ | ⟨m, t, rfl, rfl, -, hle, hs⟩
    · cases hrest
      exact .nil _
    · have hxlt := h.input_lt (List.mem_of_getElem? hx)
      have hn := h.lt_of_mem_inputs (List.mem_of_getElem? hx)
      -- first the node that stands in is added
      have ha := hs.advances h ht hle n
      obtain ⟨-, -, htype⟩ := hs.types h ht hxlt
      refine .cons ⟨hs.alters, ha.keeps⟩ ?_
      -- then it takes the place of the input, about which nothing has changed
      rw [← hs.inputs h hn] at hx
      rw [← ha.requirements n hn] at hrequired
      rw [← ha.typeOf x hxlt] at htype
      exact path_rewireStages ha.wellFormed ha.typed hx hrequired htype (rewireStep_eq_ok hrest)
  · have hmeet := meet_of_meetSlot_eq_error h ht hx herror
    rw [hmeet, meet_eq_error hmeet]
    exact .nil _

/-! ## A whole pass -/

theorem path_trace_meetSlot (edges : List (NodeId × Requirement)) (k : Nat)
    (h : WellFormed p.graph) (ht : Typed p.graph) (hn : n < p.graph.count)
    (hedges : p.graph.EdgesFrom n k edges)
    (hl : Step.Leaves ((edges.zipIdx k).forM (meetSlot n) : Solver Unit) p p') :
    Path Stage p.graph (Step.trace (meetSlot n) (meetSlotStages n) (edges.zipIdx k) p)
      p'.graph := by
  induction edges generalizing k p with
  | nil =>
    rw [Step.leaves_forM_nil hl]
    exact .nil _
  | cons edge edges ih =>
    obtain ⟨x, required⟩ := edge
    obtain ⟨hx, hrequired⟩ := hedges 0 x required rfl
    rw [List.zipIdx_cons, Step.trace]
    rcases Step.leaves_forM_cons hl with ⟨e, hfirst⟩ | ⟨p₁, hfirst, hrest⟩
    · rw [hfirst, List.append_nil]
      exact path_meetSlotStages h ht hx hrequired (.inr ⟨e, hfirst⟩)
    · obtain ⟨ha, -, hothers⟩ := meetSlot_advances h ht hx hrequired hfirst
      rw [hfirst]
      exact (path_meetSlotStages h ht hx hrequired (.inl ⟨(), hfirst⟩)).append
        (ih (k + 1) ha.wellFormed ha.typed (Nat.lt_of_lt_of_le hn ha.count_le)
          (hedges.later ha hn hothers) hrest)

theorem path_solveNodeStages (h : WellFormed p.graph) (ht : Typed p.graph)
    (hn : n < p.graph.count) (hl : Step.Leaves (solveNode n) p p') :
    Path Stage p.graph (solveNodeStages n p) p'.graph :=
  path_trace_meetSlot _ 0 h ht hn (edgesFrom_zero p.graph n) hl

theorem path_trace_solveNode (nodes : List NodeId) (h : WellFormed p.graph) (ht : Typed p.graph)
    (hnodes : ∀ n ∈ nodes, n < p.graph.count)
    (hl : Step.Leaves (nodes.forM solveNode : Solver Unit) p p') :
    Path Stage p.graph (Step.trace solveNode solveNodeStages nodes p) p'.graph := by
  induction nodes generalizing p with
  | nil =>
    rw [Step.leaves_forM_nil hl]
    exact .nil _
  | cons a nodes ih =>
    obtain ⟨ha, hnodes⟩ := List.forall_mem_cons.1 hnodes
    rw [Step.trace]
    rcases Step.leaves_forM_cons hl with ⟨e, hfirst⟩ | ⟨p₁, hfirst, hrest⟩
    · rw [hfirst, List.append_nil]
      exact path_solveNodeStages h ht ha (.inr ⟨e, hfirst⟩)
    · obtain ⟨hadv, -⟩ := solveNode_advances h ht ha hfirst
      rw [hfirst]
      refine (path_solveNodeStages h ht ha (.inl ⟨(), hfirst⟩)).append
        (ih hadv.wellFormed hadv.typed ?_ hrest)
      exact fun n hn => Nat.lt_of_lt_of_le (hnodes n hn) hadv.count_le

/-- The stages of a pass lead to the graph that it leaves, however it ends. -/
theorem path_stages (hg : Built g) : Path Stage g (stages g) (solve g).state := by
  obtain ⟨h, ht⟩ := wellFormed_typed_of_built hg
  rcases solve_leaves g with ⟨e, horder, hstate⟩ | ⟨order, p, horder, hl, hstate⟩
  · rw [stages, horder, hstate]
    exact .nil g
  · rw [stages, horder, hstate]
    refine path_trace_solveNode order h ht ?_ hl
    intro n hn
    rw [(perm_of_topologicalOrder h.spans_length horder).mem_iff] at hn
    exact List.mem_range.1 hn

/-- **Types stay the same throughout a pass**, whether it succeeds or fails.  The stages lead by
single changes to the graph that the pass leaves, and in each of them every node that was there
before has the type that it had, which is also the type that is inferred for it. -/
theorem typeOf_stages (hg : Built g) :
    Path Alters g (stages g) (solve g).state ∧
      ∀ g' ∈ (solve g).state :: stages g, ∀ n < g.count,
        n < g'.count ∧ g'.typeOf n = g.typeOf n ∧ g'.inferred n = g.typeOf n := by
  have hpath := path_stages hg
  refine ⟨hpath.mono And.left, ?_⟩
  have hkeeps : ∀ g' ∈ stages g, Keeps g g' :=
    (hpath.mono And.right).forall_mem Keeps.trans
  have hself : Keeps g g :=
    ⟨Nat.le_refl _, fun _ _ => rfl, (wellFormed_typed_of_built hg).2⟩
  have hlast : Keeps g (solve g).state := by
    rcases hpath.eq_or_mem with heq | hmem
    · rw [heq]
      exact hself
    · exact hkeeps _ hmem
  intro g' hg' n hn
  have hk : Keeps g g' := by
    rcases List.mem_cons.1 hg' with rfl | hmem
    · exact hlast
    · exact hkeeps g' hmem
  exact ⟨Nat.lt_of_lt_of_le hn hk.count_le, hk.typeOf n hn, hk.inferred hn⟩

/-- A pass that fails: before it does it adds two constants, replaces two inputs and infers types
again after each. -/
theorem typeOf_stages_halted :
    Built Halted.graph ∧ (solve Halted.graph).result.toOption = none ∧
      (stages Halted.graph).map (fun g => g.inputs 2) =
        [[0, 1], [5, 1], [5, 1], [5, 1], [5, 1], [5, 6], [5, 6], [5, 6]] ∧
      Path Alters Halted.graph (stages Halted.graph) (solve Halted.graph).state ∧
      ∀ g' ∈ (solve Halted.graph).state :: stages Halted.graph, ∀ n < Halted.graph.count,
        n < g'.count ∧ g'.typeOf n = Halted.graph.typeOf n ∧
          g'.inferred n = Halted.graph.typeOf n :=
  ⟨Halted.built_graph, by decide +kernel, by decide +kernel, typeOf_stages Halted.built_graph⟩

end Graph

end Stochastic
