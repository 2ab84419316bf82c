import Stochastic.Proofs.Graph.Soundness

/-!
# All that a pass does

However a pass ends, all it has done to the graph is a sequence of adjustments: a node that
stands in for an input is found or added, and takes the place of the input.  A step that fails
leaves the graph as the adjustments before it have made it.  So whatever an adjustment keeps is
kept by every pass.

An adjustment makes no cycle.  A constant reads nothing, and a conversion reads nothing but the
input whose place it takes.

## Main definitions

* `Graph.Represents` — one node means the same as another: the same constant, or a conversion.
* `Graph.Adjusts` — one adjustment.

## Main results

* `Graph.solve_adjusts` — a pass makes adjustments only, however it ends.
* `Graph.solve_keeps` — what every adjustment keeps is kept by a pass.
* `Graph.acyclic_of_built` — graphs that are built have no cycles.
* `Graph.built_adjusts` — an adjustment leads to a graph that can be built.
-/

namespace Stochastic.Graph

variable {g g' g₁ : Graph} {p p' : Pass} {kind : NodeKind} {xs : List NodeId} {e : Error}
variable {n m x slot : Nat} {t : ValueType} {required : Requirement}

/-! ## Steps that fail -/

theorem add_eq_error (h : Solver.add kind xs p = .error e p') : p' = p := by
  unfold Solver.add Graph.add at h
  cases hi : p.graph.insert kind xs with
  | error e' =>
    rw [hi] at h
    cases h
    rfl
  | ok r => simp [hi] at h

theorem materialize_eq_error {value : Tensor Float} (h : materialize value t p = .error e p') :
    p' = p := by
  unfold materialize at h
  rw [Step.get_bind] at h
  rcases Step.bind_eq_error.1 h with h | ⟨_, _, -, h⟩
  · exact add_eq_error h
  · cases h

theorem convert_eq_error {c : Conversion} (h : convert c x slot m p = .error e p') : p' = p := by
  unfold convert at h
  rw [Step.get_bind] at h
  rcases Step.bind_eq_error.1 h with h | ⟨_, _, -, h⟩
  · exact add_eq_error h
  · cases h

theorem standIn_eq_error (h : standIn n slot x t p = .error e p') : p' = p := by
  unfold standIn at h
  rw [Step.get_bind] at h
  cases hk : p.graph.kindOf x with
  | constant value declared =>
    rw [hk] at h
    exact materialize_eq_error h
  | _ =>
    rw [hk] at h
    cases t <;> first
      | exact (Step.throw_eq_error.1 h).2.symm
      | exact convert_eq_error h

theorem meet_eq_error (h : meet n slot x required p = .error e p') : p' = p := by
  unfold meet at h
  rw [Step.get_bind] at h
  split at h
  · cases h
  split at h
  · exact (Step.throw_eq_error.1 h).2.symm
  split at h
  · rcases Step.bind_eq_error.1 h with h | ⟨_, _, -, h⟩
    · exact standIn_eq_error h
    · cases h
  · exact (Step.throw_eq_error.1 h).2.symm

/-- An input can be replaced if there is such an input and such a node. -/
theorem exists_rewireStep (h : WellFormed p.graph) (hslot : slot < (p.graph.inputs n).length)
    (hm : m < p.graph.count) : ∃ p', Solver.rewire n slot m p = .ok () p' := by
  unfold Solver.rewire
  rw [(rewire_eq_ok h.toConsistent).2 ⟨hslot, hm, rfl⟩]
  exact ⟨_, rfl⟩

/-! ## Adjustments -/

/-- One node means the same as another: it is the same constant, or a conversion of the other
node. -/
inductive Represents (g : Graph) (x m : NodeId) : Prop
  | constant {value value' : Tensor Float} {declared declared' : Option ValueType}
    (hx : g.kindOf x = .constant value declared) (hm : g.kindOf m = .constant value' declared')
    (hkey : value'.key = value.key) (hinputs : g.inputs m = [])
  | conversion {c : Conversion} (hm : g.kindOf m = .conversion c) (hinputs : g.inputs m = [x])

/-- An adjustment: a node that stands in for an input which does not meet its requirement is found
or added, and takes the place of the input. -/
inductive Adjusts (g g' : Graph) : Prop
  | replace {g₁ : Graph} {n slot x m : Nat} {t : ValueType}
    (hx : (g.inputs n)[slot]? = some x) (hrequired : (g.requirements n)[slot]? = some (.exact t))
    (hunmet : ¬ (Requirement.exact t).satisfied (g.carried x) (g.typeOf x) = true)
    (hle : g.typeOf x ≤ t) (hs : StandsIn g x t g₁ m) (hr : g₁.rewire n slot m = .ok g')

theorem meetSlot_eq_ok (hx : (p.graph.inputs n)[slot]? = some x)
    (hrequired : (p.graph.requirements n)[slot]? = some required)
    (hm : meetSlot n ((x, required), slot) p = .ok () p') :
    p' = p ∨ Adjusts p.graph p'.graph := by
  unfold meetSlot at hm
  obtain ⟨o, p₁, hmeet, hrest⟩ := Step.bind_eq_ok.1 hm
  rcases meet_eq_ok hmeet with ⟨rfl, rfl, -⟩ | ⟨m, t, rfl, rfl, hunmet, hle, hs⟩
  · cases hrest
    exact .inl rfl
  · exact .inr (.replace hx hrequired hunmet hle hs (rewireStep_eq_ok hrest))

/-- A step for one input fails where its requirement cannot be met, and nowhere else. -/
theorem meet_of_meetSlot_eq_error (h : WellFormed p.graph) (ht : Typed p.graph)
    (hx : (p.graph.inputs n)[slot]? = some x)
    (hm : meetSlot n ((x, required), slot) p = .error e p') :
    meet n slot x required p = .error e p' := by
  unfold meetSlot at hm
  rcases Step.bind_eq_error.1 hm with hmeet | ⟨o, p₁, hmeet, hrest⟩
  · exact hmeet
  rcases meet_eq_ok hmeet with ⟨rfl, -, -⟩ | ⟨m, t, rfl, rfl, -, hle, hs⟩
  · cases hrest
  · -- the node that stands in is there, so it can take the place of the input
    obtain ⟨hslot, -⟩ := List.getElem?_eq_some_iff.1 hx
    have hn := h.lt_of_mem_inputs (List.mem_of_getElem? hx)
    obtain ⟨hmlt, -, -⟩ := hs.types h ht (h.input_lt (List.mem_of_getElem? hx))
    rw [← hs.inputs h hn] at hslot
    obtain ⟨p₂, hr⟩ := exists_rewireStep (hs.advances h ht hle n).wellFormed hslot hmlt
    cases hr.symm.trans hrest

/-- A step for one input that fails has changed nothing. -/
theorem meetSlot_eq_error (h : WellFormed p.graph) (ht : Typed p.graph)
    (hx : (p.graph.inputs n)[slot]? = some x)
    (hm : meetSlot n ((x, required), slot) p = .error e p') : p' = p :=
  meet_eq_error (meet_of_meetSlot_eq_error h ht hx hm)

/-! ## A whole pass -/

/-- The inputs of a node from slot `k` on take their turns. -/
theorem forM_meetSlot_adjusts (edges : List (NodeId × Requirement)) (k : Nat)
    (h : WellFormed p.graph) (ht : Typed p.graph) (hn : n < p.graph.count)
    (hedges : p.graph.EdgesFrom n k edges)
    (hl : Step.Leaves ((edges.zipIdx k).forM (meetSlot n) : Solver Unit) p p') :
    Advances p.graph p'.graph n ∧ Relation.ReflTransGen Adjusts p.graph p'.graph := by
  induction edges generalizing k p with
  | nil =>
    rw [Step.leaves_forM_nil hl]
    exact ⟨.refl h ht n, .refl⟩
  | cons edge edges ih =>
    obtain ⟨x, required⟩ := edge
    obtain ⟨hx, hrequired⟩ := hedges 0 x required rfl
    rcases Step.leaves_forM_cons hl with ⟨e, hfirst⟩ | ⟨p₁, hfirst, hrest⟩
    · rw [meetSlot_eq_error h ht hx hfirst]
      exact ⟨.refl h ht n, .refl⟩
    · obtain ⟨ha, -, hothers⟩ := meetSlot_advances h ht hx hrequired hfirst
      have hhead : Relation.ReflTransGen Adjusts p.graph p₁.graph := by
        rcases meetSlot_eq_ok hx hrequired hfirst with rfl | hadj
        · exact .refl
        · exact .single hadj
      obtain ⟨ha', htail⟩ := ih (k + 1) ha.wellFormed ha.typed
        (Nat.lt_of_lt_of_le hn ha.count_le) (hedges.later ha hn hothers) hrest
      exact ⟨ha.trans ha' hn, hhead.trans htail⟩

/-- A step for a node that ends, well or not, has made adjustments to this node only. -/
theorem solveNode_adjusts (h : WellFormed p.graph) (ht : Typed p.graph) (hn : n < p.graph.count)
    (hl : Step.Leaves (solveNode n) p p') :
    Advances p.graph p'.graph n ∧ Relation.ReflTransGen Adjusts p.graph p'.graph :=
  forM_meetSlot_adjusts _ 0 h ht hn (edgesFrom_zero p.graph n) hl

theorem forM_solveNode_adjusts (nodes : List NodeId) (h : WellFormed p.graph) (ht : Typed p.graph)
    (hnodes : ∀ n ∈ nodes, n < p.graph.count)
    (hl : Step.Leaves (nodes.forM solveNode : Solver Unit) p p') :
    Relation.ReflTransGen Adjusts p.graph p'.graph := by
  induction nodes generalizing p with
  | nil =>
    rw [Step.leaves_forM_nil hl]
  | cons a nodes ih =>
    obtain ⟨ha, hnodes⟩ := List.forall_mem_cons.1 hnodes
    rcases Step.leaves_forM_cons hl with ⟨e, hfirst⟩ | ⟨p₁, hfirst, hrest⟩
    · exact (solveNode_adjusts h ht ha (.inr ⟨e, hfirst⟩)).2
    · obtain ⟨hadv, hhead⟩ := solveNode_adjusts h ht ha (.inl ⟨(), hfirst⟩)
      refine hhead.trans (ih hadv.wellFormed hadv.typed ?_ hrest)
      exact fun n hn => Nat.lt_of_lt_of_le (hnodes n hn) hadv.count_le

/-- The graph that a pass leaves: the one it began with if there is no order, and else the one
that visiting the nodes in order leaves. -/
theorem solve_leaves (g : Graph) :
    (∃ e, g.topologicalOrder = .error e ∧ (solve g).state = g) ∨
      ∃ order p, g.topologicalOrder = .ok order ∧
        Step.Leaves (order.forM solveNode : Solver Unit) ⟨g, {}, []⟩ p ∧
        (solve g).state = p.graph := by
  unfold solve solvePass
  rw [Step.get_bind]
  cases horder : g.topologicalOrder with
  | error e => exact .inl ⟨e, rfl, rfl⟩
  | ok order =>
    simp only [bind, EStateM.bind]
    cases hrun : (order.forM solveNode : Solver Unit) ⟨g, {}, []⟩ with
    | ok u p => exact .inr ⟨order, p, rfl, .inl ⟨u, hrun⟩, rfl⟩
    | error e p => exact .inr ⟨order, p, rfl, .inr ⟨e, hrun⟩, rfl⟩

/-- **A pass makes adjustments only**, however it ends. -/
theorem solve_adjusts (h : WellFormed g) (ht : Typed g) :
    Relation.ReflTransGen Adjusts g (solve g).state := by
  rcases solve_leaves g with ⟨-, -, hstate⟩ | ⟨order, p, horder, hl, hstate⟩
  · rw [hstate]
  · rw [hstate]
    refine forM_solveNode_adjusts order h ht ?_ hl
    intro n hn
    rw [(perm_of_topologicalOrder h.spans_length horder).mem_iff] at hn
    exact List.mem_range.1 hn

/-! ## What passes keep -/

theorem wellFormed_typed_adjusts (h : WellFormed g) (ht : Typed g) (ha : Adjusts g g') :
    WellFormed g' ∧ Typed g' := by
  obtain ⟨hx, hrequired, -, hle, hs, hr⟩ := ha
  have hrep := hs.replaced h ht hx hrequired hle hr
  exact ⟨hrep.second.wellFormed, hrep.second.typed⟩

/-- What every adjustment keeps is kept by a pass. -/
theorem solve_keeps {P : Graph → Prop} (h : WellFormed g) (ht : Typed g) (hg : P g)
    (hstep : ∀ {g g' : Graph}, WellFormed g → Typed g → P g → Adjusts g g' → P g') :
    WellFormed (solve g).state ∧ Typed (solve g).state ∧ P (solve g).state := by
  have hsteps := solve_adjusts h ht
  generalize (solve g).state = g' at hsteps
  induction hsteps with
  | refl => exact ⟨h, ht, hg⟩
  | tail _ ha ih =>
    obtain ⟨hw, ht, hp⟩ := ih
    obtain ⟨hw', ht'⟩ := wellFormed_typed_adjusts hw ht ha
    exact ⟨hw', ht', hstep hw ht hp ha⟩

/-- A pass keeps a graph well formed and typed. -/
theorem wellFormed_typed_solve (h : WellFormed g) (ht : Typed g) :
    WellFormed (solve g).state ∧ Typed (solve g).state := by
  obtain ⟨hw, ht, -⟩ := solve_keeps (P := fun _ => True) h ht trivial fun _ _ _ _ => trivial
  exact ⟨hw, ht⟩

/-! ## Nodes that stand in -/

theorem StandsIn.exists_insert (hs : StandsIn g x t g₁ m) :
    ∃ kind xs, g.insert kind xs = .ok (g₁, m) := by
  cases hs with
  | constant _ hi => exact ⟨_, _, hi⟩
  | conversion _ hi => exact ⟨_, _, hi⟩

/-- A node that stands in for an input represents it. -/
theorem StandsIn.represents (hs : StandsIn g x t g₁ m) (h : WellFormed g) (hx : x < g.count) :
    Represents g₁ x m := by
  cases hs with
  | @constant value declared hkind hi =>
    obtain ⟨hm, hkey⟩ := key_insert h hi
    obtain ⟨value', hkind', hvalue⟩ := constant_of_key hkey
    refine .constant ((same_insert h hi hx).1.trans hkind) hkind' hvalue ?_
    have harity := (wellFormed_insert h hi).arities m hm
    simpa [hkind', NodeKind.arity, NodeKind.Arity.allows] using harity
  | conversion hc hi =>
    obtain ⟨hm, hkey⟩ := key_insert h hi
    have hkind := conversion_of_key hkey
    refine .conversion hkind ?_
    have harity := (wellFormed_insert h hi).arities m hm
    rw [hkind] at harity hkey
    obtain ⟨y, hy⟩ : ∃ y, g₁.inputs m = [y] :=
      List.length_eq_one_iff.1 (by simpa [NodeKind.arity, NodeKind.Arity.allows] using harity)
    rw [hy] at hkey ⊢
    simpa [NodeKey.of?] using hkey

theorem StandsIn.built (hs : StandsIn g x t g₁ m) (hg : Built g) : Built g₁ := by
  obtain ⟨kind, xs, hi⟩ := hs.exists_insert
  have hb := hg.add kind xs
  rw [add, hi] at hb
  exact hb

/-- Conversions only bound their inputs, and constants have none. -/
theorem Represents.requirements_ne (hrep : Represents g x m) (slot : Nat) (t : ValueType) :
    (g.requirements m)[slot]? ≠ some (.exact t) := by
  intro hrequired
  unfold Columns.requirements at hrequired
  cases hrep with
  | constant _ hm => simp [hm, NodeKind.requirements] at hrequired
  | conversion hm =>
    rw [hm, NodeKind.requirements, List.getElem?_map] at hrequired
    cases hk : (g.inputTypes m)[slot]? <;> simp [hk] at hrequired

/-- A node that asks for a type represents no other. -/
theorem Represents.ne (hrep : Represents g x m)
    (hrequired : (g.requirements n)[slot]? = some (.exact t)) : m ≠ n := by
  rintro rfl
  exact hrep.requirements_ne slot t hrequired

/-! ## Cycles -/

theorem acyclic_append (h : WellFormed g) (hac : Acyclic g) (hxs : ∀ x ∈ xs, x < g.count)
    (harity : kind.arity.allows xs.length = true) : Acyclic (g.append kind xs) := by
  -- the new node ranks above all others, which are ranked as before
  refine acyclic_of_rank (fun a => if a = g.count then g.count else (g.ancestors a).card) ?_
    (wellFormed_append h hxs harity).toConsistent
  intro a _ b hb
  rw [inputs_append h] at hb
  by_cases ha : a = g.count
  · rw [if_pos ha] at hb
    have hlt := hxs b hb
    rw [if_pos ha, if_neg (Nat.ne_of_lt hlt)]
    exact card_ancestors_lt_count hac hlt
  · rw [if_neg ha] at hb
    have hlt := h.input_lt hb
    rw [if_neg ha, if_neg (Nat.ne_of_lt hlt)]
    exact card_ancestors_lt hac hlt hb

theorem acyclic_insert (h : WellFormed g) (hac : Acyclic g) (hi : g.insert kind xs = .ok (g', m)) :
    Acyclic g' := by
  obtain ⟨hxs, harity, ⟨-, rfl⟩ | ⟨-, rfl⟩⟩ := insert_eq_ok hi
  · exact hac
  · exact acyclic_append h hac hxs harity

/-- **Graphs that are built have no cycles.** -/
theorem acyclic_of_built (hg : Built g) : Acyclic g := by
  induction hg with
  | empty =>
    refine acyclic_of_rank id ?_ WellFormed.empty.toConsistent
    intro n hn
    exact absurd hn (Nat.not_lt_zero n)
  | @add g kind xs hg ih =>
    unfold add
    cases hi : g.insert kind xs with
    | error e => exact ih
    | ok r => exact acyclic_insert (wellFormed_typed_of_built hg).1 ih hi
  | rewire _ _ hac => exact hac

/-- A node that represents an input has at most the ancestors of a node that reads the input. -/
theorem Represents.card_ancestors_le (hrep : Represents g x m) (hx : x ∈ g.inputs n) :
    (g.ancestors m).card ≤ (g.ancestors n).card := by
  apply Finset.card_le_card
  intro a ha
  obtain ⟨hlt, ham⟩ := mem_ancestors.1 ha
  refine mem_ancestors.2 ⟨hlt, ?_⟩
  obtain ⟨b, hab, hbm⟩ := Relation.TransGen.tail'_iff.1 ham
  have hbm : b ∈ g.inputs m := hbm
  cases hrep with
  | constant _ _ _ hinputs => simp [hinputs] at hbm
  | conversion _ hinputs =>
    rw [hinputs, List.mem_singleton] at hbm
    exact Relation.TransGen.tail'_iff.2 ⟨x, hbm ▸ hab, hx⟩

/-- Putting a node that represents an input in its place makes no cycle. -/
theorem acyclic_rewired (h : WellFormed g) (hac : Acyclic g) (hx : (g.inputs n)[slot]? = some x)
    (hm : m < g.count) (hmn : m ≠ n) (hrep : Represents g x m) :
    Acyclic (g.rewired n slot m) := by
  obtain ⟨hslot, -⟩ := List.getElem?_eq_some_iff.1 hx
  have hxn := List.mem_of_getElem? hx
  have hcardn := card_ancestors_lt hac (h.input_lt hxn) hxn
  have hle := hrep.card_ancestors_le hxn
  -- the node comes just below all that had its rank, and so below the one that reads it now
  refine acyclic_of_rank
    (fun a => if a = m then 2 * (g.ancestors a).card - 1 else 2 * (g.ancestors a).card) ?_
    (wellFormed_rewired h hslot hm).toConsistent
  intro a _ b hb
  have hold : b ∈ g.inputs a ∨ a = n ∧ b = m := by
    rw [inputs_rewired h hslot] at hb
    by_cases han : a = n
    · subst han
      rw [if_pos rfl] at hb
      exact (List.mem_or_eq_of_mem_set hb).imp_right fun hbm => ⟨rfl, hbm⟩
    · rw [if_neg han] at hb
      exact .inl hb
  rcases hold with hb | ⟨rfl, rfl⟩
  · have hlt := card_ancestors_lt hac (h.input_lt hb) hb
    split <;> split <;> omega
  · rw [if_pos rfl, if_neg hmn.symm]
    omega

/-- **An adjustment leads to a graph that can be built.** -/
theorem built_adjusts (hg : Built g) (ha : Adjusts g g') : Built g' := by
  obtain ⟨hx, hrequired, -, hle, hs, hr⟩ := ha
  rename_i g₁ n slot x m t
  obtain ⟨h, ht⟩ := wellFormed_typed_of_built hg
  have hg₁ := hs.built hg
  obtain ⟨h₁, ht₁⟩ := wellFormed_typed_of_built hg₁
  have hxlt := h.input_lt (List.mem_of_getElem? hx)
  have hn := h.lt_of_mem_inputs (List.mem_of_getElem? hx)
  obtain ⟨hm, -, htype⟩ := hs.types h ht hxlt
  have hadv := hs.advances h ht hle n
  rw [← hs.inputs h hn] at hx
  refine .rewire hg₁ hr ?_
  obtain ⟨hslot, -, rfl⟩ := (rewire_eq_ok h₁.toConsistent).1 hr
  have hrep := hs.represents h hxlt
  rw [← hadv.requirements n hn] at hrequired
  have hac := acyclic_rewired h₁ (acyclic_of_built hg₁) hx hm (hrep.ne hrequired) hrep
  -- inferring types again leaves the edges alone
  exact (retyped_refresh n g₁.count (g₁.rewired n slot m) [n]).acyclic_iff.2 hac

theorem built_solve (hg : Built g) : Built (solve g).state := by
  obtain ⟨h, ht⟩ := wellFormed_typed_of_built hg
  have hsteps := solve_adjusts h ht
  generalize (solve g).state = g' at hsteps
  induction hsteps with
  | refl => exact hg
  | tail _ ha ih => exact built_adjusts ih ha

end Stochastic.Graph
