import Stochastic.Proofs.Graph.Adjustment
import Stochastic.Proofs.Graph.Sorting

/-!
# What a pass decides

Whether a pass succeeds can be read off the graph it begins with.  An input can be made to fit
if it fits already, or if the type asked for is above its own and is either that of a constant
or one that a conversion leads to.  A pass meets its edges in a graph that it has changed
already, but the changes show neither in the kinds and types of the nodes that were there nor in
what is asked of them, so every edge is met as if it were the first.

Nodes that are only added, and not rewired, read nodes of the kind they expect.  So nothing but
types can stand in the way of a conversion.

## Main definitions

* `Graph.Added` — the graphs made by adding nodes.
* `Columns.Meetable` — an input can be made to meet a requirement.
* `Graph.Demand`, `Columns.demands` — what nodes ask of their inputs, in the order of the nodes.
* `Columns.complaint` — what is said about a demand that cannot be met.

## Main results

* `Graph.decided_meetSlot`, `Graph.decided_solveNode`, `Graph.decided_solve` — one input, one
  node and the whole pass.
* `Graph.solve_decides` — the pass succeeds exactly if all demands can be met, and else complains
  about the first one that cannot.
-/

namespace Stochastic

/-- Whether a node of this kind is a constant. -/
def NodeKind.isConstant : NodeKind → Bool
  | .constant _ _ => true
  | _ => false

namespace Graph

/-- What a node asks of one of its inputs. -/
structure Demand where
  consumer : NodeId
  slot : Nat
  input : NodeId
  required : Requirement
  deriving DecidableEq, Repr

end Graph

namespace Columns

/-- A node of the required type can stand in for a node. -/
def Replaceable (c : Columns) (x : NodeId) : Requirement → Prop
  | .exact t => c.typeOf x ≤ t ∧
    ((c.kindOf x).isConstant = true ∨ t = .real ∨ t = .positiveReal ∨ t = .tensor)
  | .upperBound _ => False

instance (c : Columns) (x : NodeId) :
    (required : Requirement) → Decidable (c.Replaceable x required)
  | .exact _ => inferInstanceAs (Decidable (_ ∧ _))
  | .upperBound _ => inferInstanceAs (Decidable False)

/-- A node meets a requirement, or another one can stand in for it. -/
def Meetable (c : Columns) (x : NodeId) (required : Requirement) : Prop :=
  required.satisfied (c.carried x) (c.typeOf x) = true ∨ c.Replaceable x required

instance (c : Columns) (x : NodeId) (required : Requirement) : Decidable (c.Meetable x required) :=
  inferInstanceAs (Decidable (_ ∨ _))

/-- What a node asks of its inputs, in the order of the inputs. -/
def demandsOf (c : Columns) (n : NodeId) : List Graph.Demand :=
  ((c.inputs n).zip (c.requirements n)).zipIdx.map fun e => ⟨n, e.2, e.1.1, e.1.2⟩

/-- What the nodes of a list ask of their inputs, in the order of the list. -/
def demands (c : Columns) (nodes : List NodeId) : List Graph.Demand := nodes.flatMap c.demandsOf

/-- What is said about a demand that cannot be met: the input is of a type that does not fit, or
there is no conversion to the type that it should have. -/
def complaint (c : Columns) (d : Graph.Demand) : Graph.TypeError :=
  if c.typeOf d.input ≤ d.required.target then .noConversion d.consumer d.slot d.required.target
  else .unsatisfiable d.consumer d.slot (c.typeOf d.input) d.required

end Columns

namespace Graph

variable {g g' g₁ : Graph} {p p' : Pass} {kind : NodeKind} {xs : List NodeId}
variable {n m x slot : Nat} {t : ValueType} {required : Requirement}

/-! ## Graphs made by adding nodes -/

/-- The graphs made from the empty one by adding nodes, successfully or not. -/
inductive Added : Graph → Prop
  | empty : Added .empty
  | add {g : Graph} (kind : NodeKind) (inputs : List NodeId) :
    Added g → Added (g.add kind inputs).state

theorem Added.built (h : Added g) : Built g := by
  induction h with
  | empty => exact .empty
  | add kind inputs _ ih => exact ih.add kind inputs

theorem added_foldl_add (nodes : List (NodeKind × List NodeId)) (h : Added g) :
    Added (nodes.foldl (fun g node => (g.add node.1 node.2).state) g) := by
  induction nodes generalizing g with
  | nil => exact h
  | cons node nodes ih => exact ih (.add node.1 node.2 h)

/-- Every node reads nodes of the kind it expects. -/
def Admitted (g : Graph) : Prop :=
  ∀ n, ∀ x ∈ g.inputs n, (slotKind (g.kindOf n)).admits (g.kindOf x) = true

/-- A node that is inserted has passed the checks. -/
theorem check_of_insert (hi : g.insert kind xs = .ok (g', m)) :
    check g.toColumns kind xs = .ok () := by
  unfold insert at hi
  split at hi
  · cases hi
  · split at hi
    · cases hi
    · assumption

theorem admits_of_insert (hi : g.insert kind xs = .ok (g', m)) :
    ∀ x ∈ xs, (slotKind kind).admits (g.kindOf x) = true :=
  (check_eq_ok.1 (check_of_insert hi)).2.1

theorem admitted_of_added (h : Added g) : Admitted g := by
  induction h with
  | empty =>
    intro n x hx
    simp [Graph.empty, Columns.inputs] at hx
  | @add g kind xs hg ih =>
    obtain ⟨hw, -⟩ := wellFormed_typed_of_built hg.built
    unfold add
    cases hi : g.insert kind xs with
    | error e => exact ih
    | ok r =>
      obtain ⟨g', m⟩ := r
      have hadmits := admits_of_insert hi
      obtain ⟨hxs, -, ⟨-, rfl⟩ | ⟨-, rfl⟩⟩ := insert_eq_ok hi
      · exact ih
      · intro n x hx
        rw [inputs_append hw] at hx
        rw [kindOf_append, kindOf_append]
        -- what the new node reads was there, and so was what the others read
        by_cases hn : n = g.count
        · rw [if_pos hn] at hx ⊢
          rw [if_neg (Nat.ne_of_lt (hxs x hx))]
          exact hadmits x hx
        · rw [if_neg hn] at hx ⊢
          rw [if_neg (Nat.ne_of_lt (hw.input_lt hx))]
          exact ih n x hx

/-- Samples and observations ask their inputs for the type that these have, so a node with an
input that does not meet its requirement expects values. -/
theorem slotKind_of_not_satisfied (h : Admitted g) (hx : (g.inputs n)[slot]? = some x)
    (hrequired : (g.requirements n)[slot]? = some required)
    (hsat : ¬ required.satisfied (g.carried x) (g.typeOf x) = true) :
    slotKind (g.kindOf n) = .value := by
  have hadmits := h n x (List.mem_of_getElem? hx)
  have htype : (g.inputTypes n)[slot]? = some (g.typeOf x) := by
    rw [Columns.inputTypes, List.getElem?_map, hx]
    rfl
  -- an input that is not a constant carries its own type
  have hown : (g.inputTypes n).map Requirement.exact = g.requirements n →
      g.carried x = g.typeOf x → False := by
    intro hall hcarried
    rw [← hall, List.getElem?_map, htype] at hrequired
    cases hrequired
    exact hsat (by simp [Requirement.satisfied, hcarried])
  unfold Columns.requirements at hown
  cases hn : g.kindOf n with
  | sample =>
    rw [hn] at hadmits hown
    refine absurd ?_ (hown rfl)
    unfold Columns.carried
    cases hk : g.kindOf x <;> simp_all [slotKind, SlotKind.admits, NodeKind.isDistribution,
      NodeKind.carriedType]
  | observation value =>
    rw [hn] at hadmits hown
    refine absurd ?_ (hown rfl)
    unfold Columns.carried
    cases hk : g.kindOf x <;> simp_all [slotKind, SlotKind.admits, NodeKind.isSample,
      NodeKind.carriedType]
  | _ => rfl

theorem isValue_of_not_satisfied (h : Admitted g) (hx : (g.inputs n)[slot]? = some x)
    (hrequired : (g.requirements n)[slot]? = some required)
    (hsat : ¬ required.satisfied (g.carried x) (g.typeOf x) = true) :
    (g.kindOf x).isValue = true := by
  have hadmits := h n x (List.mem_of_getElem? hx)
  rwa [slotKind_of_not_satisfied h hx hrequired hsat] at hadmits

/-! ## Nodes that can be added -/

theorem exists_insert (hxs : ∀ x ∈ xs, x < g.count) (hcheck : check g.toColumns kind xs = .ok ()) :
    ∃ g' m, g.insert kind xs = .ok (g', m) := by
  unfold insert
  have hfind : xs.find? (fun x => decide (g.count ≤ x)) = none := by
    rw [List.find?_eq_none]
    intro x hx
    simpa using hxs x hx
  rw [hfind, hcheck]
  cases g.shared? kind xs with
  | some m => exact ⟨g, m, rfl⟩
  | none => exact ⟨_, _, rfl⟩

theorem exists_add (hi : p.graph.insert kind xs = .ok (g', m)) :
    ∃ p', Solver.add kind xs p = .ok m p' := by
  unfold Solver.add Graph.add
  rw [hi]
  exact ⟨_, rfl⟩

/-- A constant can be declared to be of any type above its own. -/
theorem exists_standIn_constant {value : Tensor Float} {declared : Option ValueType}
    (ht : Typed p.graph) (hx : x < p.graph.count)
    (hkind : p.graph.kindOf x = .constant value declared) (hle : p.graph.typeOf x ≤ t) :
    ∃ m p', standIn n slot x t p = .ok m p' := by
  have hcheck : check p.graph.toColumns (.constant value (some t)) [] = .ok () := by
    rw [ht.eq hx, inferred, hkind] at hle
    have hrep : t.canRepresent value = true := hle
    simp [check, checkArity, NodeKind.arity, NodeKind.Arity.allows, checkSlots, checkValue, hrep,
      bind, Except.bind]
  obtain ⟨g', m, hi⟩ := exists_insert (by simp) hcheck
  obtain ⟨p', hadd⟩ := exists_add hi
  unfold standIn
  rw [Step.get_bind, hkind]
  exact ⟨m, _, Step.bind_eq_ok.2 ⟨p, p, rfl, Step.bind_eq_ok.2 ⟨m, p', hadd, rfl⟩⟩⟩

/-- A value can be converted to any type above its own that a conversion leads to. -/
theorem exists_standIn_conversion {c : Conversion} (hx : x < p.graph.count)
    (hvalue : (p.graph.kindOf x).isValue = true) (hkind : (p.graph.kindOf x).isConstant = false)
    (hc : Conversion.reaching? t = some c) (hle : p.graph.typeOf x ≤ t) :
    ∃ m p', standIn n slot x t p = .ok m p' := by
  have htarget : c.target = t := by
    cases t <;> cases hc <;> rfl
  have hcheck : check p.graph.toColumns (.conversion c) [x] = .ok () := by
    have haccepts : c.accepts (p.graph.typeOf x) = true := by
      rw [Conversion.accepts, htarget]
      exact hle
    simp [check, checkArity, NodeKind.arity, NodeKind.Arity.allows, checkSlots, slotKind,
      SlotKind.admits, hvalue, checkValue, haccepts, bind, Except.bind]
  obtain ⟨g', m, hi⟩ := exists_insert (by simpa using hx) hcheck
  obtain ⟨p', hadd⟩ := exists_add hi
  have hconvert : ∃ p', convert c x slot n p = .ok m p' :=
    ⟨_, Step.bind_eq_ok.2 ⟨p, p, rfl, Step.bind_eq_ok.2 ⟨m, p', hadd, rfl⟩⟩⟩
  unfold standIn
  rw [Step.get_bind, hc]
  cases hk : p.graph.kindOf x with
  | constant => simp [hk, NodeKind.isConstant] at hkind
  | _ => exact ⟨m, hconvert⟩

theorem standIn_eq_noConversion (hkind : (p.graph.kindOf x).isConstant = false)
    (hc : Conversion.reaching? t = none) :
    standIn n slot x t p = .error (.type (.noConversion n slot t)) p := by
  unfold standIn
  rw [Step.get_bind, hc]
  cases hk : p.graph.kindOf x with
  | constant => simp [hk, NodeKind.isConstant] at hkind
  | _ => rfl

/-! ## One input -/

/-- A graph in the middle of a pass over `g`: it has the nodes of `g`, and they ask for what they
asked for. -/
structure Underway (g g' : Graph) : Prop where
  wellFormed : WellFormed g'
  typed : Typed g'
  count_le : g.count ≤ g'.count
  kindOf : ∀ n < g.count, g'.kindOf n = g.kindOf n
  typeOf : ∀ n < g.count, g'.typeOf n = g.typeOf n
  requirements : ∀ n < g.count, g'.requirements n = g.requirements n

theorem Underway.refl (h : WellFormed g) (ht : Typed g) : Underway g g :=
  ⟨h, ht, Nat.le_refl _, fun _ _ => rfl, fun _ _ => rfl, fun _ _ => rfl⟩

theorem Underway.advance (h : Underway g g₁) (ha : Advances g₁ g' n) : Underway g g' where
  wellFormed := ha.wellFormed
  typed := ha.typed
  count_le := Nat.le_trans h.count_le ha.count_le
  kindOf m hm := (ha.kindOf m (Nat.lt_of_lt_of_le hm h.count_le)).trans (h.kindOf m hm)
  typeOf m hm := (ha.typeOf m (Nat.lt_of_lt_of_le hm h.count_le)).trans (h.typeOf m hm)
  requirements m hm :=
    (ha.requirements m (Nat.lt_of_lt_of_le hm h.count_le)).trans (h.requirements m hm)

theorem Underway.carried (h : Underway g g') (hx : x < g.count) : g'.carried x = g.carried x := by
  unfold Columns.carried
  rw [h.kindOf x hx, h.typeOf x hx]

/-- An adjustment leaves a graph in the middle of the pass. -/
theorem Underway.adjust (h : Underway g g₁) (ha : Adjusts g₁ g') : Underway g g' := by
  obtain ⟨hx, hrequired, -, hle, hs, hr⟩ := ha
  have hrep := hs.replaced h.wellFormed h.typed hx hrequired hle hr
  exact (h.advance hrep.first).advance hrep.second

theorem Underway.adjusts (h : Underway g g₁) (ha : Relation.ReflTransGen Adjusts g₁ g') :
    Underway g g' := by
  induction ha with
  | refl => exact h
  | tail _ hlast ih => exact ih.adjust hlast

/-- What there is to say against a demand. -/
def verdict (g : Graph) (d : Demand) : Option Error :=
  if g.Meetable d.input d.required then none else some (.type (g.complaint d))

theorem meet_eq_none (hsat : required.satisfied (p.graph.carried x) (p.graph.typeOf x) = true) :
    meet n slot x required p = .ok none p := by
  unfold meet
  rw [Step.get_bind, if_pos hsat]
  rfl

theorem meet_eq_unsatisfiable
    (hsat : ¬ required.satisfied (p.graph.carried x) (p.graph.typeOf x) = true)
    (hle : ¬ p.graph.typeOf x ≤ required.target) :
    meet n slot x required p =
      .error (.type (.unsatisfiable n slot (p.graph.typeOf x) required)) p := by
  unfold meet
  rw [Step.get_bind, if_neg hsat]
  cases required with
  | upperBound t => rfl
  | exact t =>
    have hle : ¬ (p.graph.typeOf x).le t = true := hle
    dsimp only
    rw [if_neg hle]
    rfl

theorem meet_eq_standIn (hsat : ¬ (Requirement.exact t).satisfied (p.graph.carried x)
      (p.graph.typeOf x) = true) (hle : p.graph.typeOf x ≤ t) :
    meet n slot x (.exact t) p = (standIn n slot x t >>= fun m => pure (some m)) p := by
  unfold meet
  have hle : (p.graph.typeOf x).le t = true := hle
  rw [Step.get_bind, if_neg hsat]
  dsimp only
  rw [if_pos hle]

/-- A node of the type asked for stands in for an input that can be replaced. -/
theorem exists_standIn (hu : Underway g p.graph) (hx : x < g.count)
    (hvalue : (g.kindOf x).isValue = true) (hr : g.Replaceable x (.exact t)) :
    ∃ m p', standIn n slot x t p = .ok m p' := by
  obtain ⟨hle, hways⟩ := hr
  have hlt := Nat.lt_of_lt_of_le hx hu.count_le
  rw [← hu.typeOf x hx] at hle
  rw [← hu.kindOf x hx] at hvalue hways
  cases hk : (p.graph.kindOf x).isConstant with
  | true =>
    cases hkind : p.graph.kindOf x with
    | constant value declared => exact exists_standIn_constant hu.typed hlt hkind hle
    | _ => simp [hkind, NodeKind.isConstant] at hk
  | false =>
    rw [hk] at hways
    rcases hways with hfalse | rfl | rfl | rfl
    · cases hfalse
    all_goals exact exists_standIn_conversion hlt hvalue hk rfl hle

/-- A node that cannot be replaced by one of a type above its own is no constant, and no
conversion leads there. -/
theorem reaching?_eq_none (hr : ¬ g.Replaceable x (.exact t)) (hle : g.typeOf x ≤ t) :
    (g.kindOf x).isConstant = false ∧ Conversion.reaching? t = none := by
  have hways : ¬ ((g.kindOf x).isConstant = true ∨ t = .real ∨ t = .positiveReal ∨ t = .tensor) :=
    fun hways => hr ⟨hle, hways⟩
  rw [not_or] at hways
  refine ⟨by simpa using hways.1, ?_⟩
  cases t <;> simp_all [Conversion.reaching?]

/-- A node that stands in for an input can take its place. -/
theorem exists_rewire_standIn (h : WellFormed p.graph) (ht : Typed p.graph)
    (hx : (p.graph.inputs n)[slot]? = some x) (hle : p.graph.typeOf x ≤ t)
    (hs : StandsIn p.graph x t p'.graph m) : ∃ p₂, Solver.rewire n slot m p' = .ok () p₂ := by
  obtain ⟨hslot, -⟩ := List.getElem?_eq_some_iff.1 hx
  have hn := h.lt_of_mem_inputs (List.mem_of_getElem? hx)
  obtain ⟨hm, -, -⟩ := hs.types h ht (h.input_lt (List.mem_of_getElem? hx))
  rw [← hs.inputs h hn] at hslot
  exact exists_rewireStep (hs.advances h ht hle n).wellFormed hslot hm

/-- The input is met as if the pass had changed nothing so far. -/
theorem decided_meetSlot (hu : Underway g p.graph) (hadm : Admitted g) (hwf : WellFormed g)
    (hx : (p.graph.inputs n)[slot]? = some x) (hxg : (g.inputs n)[slot]? = some x)
    (hrequired : (g.requirements n)[slot]? = some required) :
    Step.Decided (meetSlot n ((x, required), slot)) p
      (fun p' => Advances p.graph p'.graph n ∧
        ∀ i ≠ slot, (p'.graph.inputs n)[i]? = (p.graph.inputs n)[i]?)
      (verdict g ⟨n, slot, x, required⟩) := by
  have hxlt := hwf.input_lt (List.mem_of_getElem? hxg)
  have hn := hwf.lt_of_mem_inputs (List.mem_of_getElem? hxg)
  -- a step that succeeds is known to advance
  have hsucceeds : ∀ {p'}, meetSlot n ((x, required), slot) p = .ok () p' →
      Advances p.graph p'.graph n ∧
        ∀ i ≠ slot, (p'.graph.inputs n)[i]? = (p.graph.inputs n)[i]? := by
    intro p' hstep
    obtain ⟨ha, -, hothers⟩ := meetSlot_advances hu.wellFormed hu.typed hx
      ((congrArg (·[slot]?) (hu.requirements n hn)).trans hrequired) hstep
    exact ⟨ha, hothers⟩
  unfold verdict
  dsimp only
  by_cases hsat : required.satisfied (g.carried x) (g.typeOf x) = true
  · rw [if_pos (.inl hsat)]
    rw [← hu.carried hxlt, ← hu.typeOf x hxlt] at hsat
    have hstep : meetSlot n ((x, required), slot) p = .ok () p :=
      Step.bind_eq_ok.2 ⟨none, p, meet_eq_none hsat, rfl⟩
    exact ⟨p, hstep, hsucceeds hstep⟩
  have hvalue := isValue_of_not_satisfied hadm hxg hrequired hsat
  have hsat' := hsat
  rw [← hu.carried hxlt, ← hu.typeOf x hxlt] at hsat'
  by_cases hle : g.typeOf x ≤ required.target
  · cases required with
    | upperBound t => exact absurd hle hsat
    | exact t =>
      have hmeet : meet n slot x (.exact t) p =
          (standIn n slot x t >>= fun m => pure (some m)) p :=
        meet_eq_standIn hsat' (hu.typeOf x hxlt ▸ hle)
      by_cases hr : g.Replaceable x (.exact t)
      · -- a node stands in, and takes the place of the input
        rw [if_pos (.inr hr)]
        obtain ⟨m, p₁, hs⟩ : ∃ m p₁, standIn n slot x t p = .ok m p₁ :=
          exists_standIn hu hxlt hvalue hr
        have hfound : meet n slot x (.exact t) p = .ok (some m) p₁ :=
          hmeet.trans (Step.bind_eq_ok.2 ⟨m, p₁, hs, rfl⟩)
        obtain ⟨p₂, hrewire⟩ := exists_rewire_standIn hu.wellFormed hu.typed hx
          (hu.typeOf x hxlt ▸ hle) (standIn_eq_ok hs)
        have hstep : meetSlot n ((x, .exact t), slot) p = .ok () p₂ :=
          Step.bind_eq_ok.2 ⟨some m, p₁, hfound, hrewire⟩
        exact ⟨p₂, hstep, hsucceeds hstep⟩
      · have hm : ¬ g.Meetable x (.exact t) := not_or.2 ⟨hsat, hr⟩
        rw [if_neg hm]
        refine ⟨p, Step.bind_eq_error.2 (.inl (hmeet.trans (Step.bind_eq_error.2 (.inl ?_))))⟩
        obtain ⟨hkind, hc⟩ := reaching?_eq_none hr hle
        rw [← hu.kindOf x hxlt] at hkind
        rw [standIn_eq_noConversion hkind hc, Columns.complaint, if_pos hle]
        rfl
  · have hr : ¬ g.Replaceable x required := by
      intro hr
      cases required with
      | upperBound t => exact hr
      | exact t => exact hle hr.1
    have hm : ¬ g.Meetable x required := not_or.2 ⟨hsat, hr⟩
    rw [if_neg hm]
    refine ⟨p, Step.bind_eq_error.2 (.inl ?_)⟩
    rw [meet_eq_unsatisfiable hsat' (hu.typeOf x hxlt ▸ hle), hu.typeOf x hxlt, Columns.complaint,
      if_neg hle]

/-! ## One node -/

/-- What holds at node `n` while the inputs `edges` are still to be met: they are those that the
node had, and other nodes read what they read at the start. -/
structure AtNode (g start : Graph) (n : NodeId) (edges : List ((NodeId × Requirement) × Nat))
    (p : Pass) : Prop where
  underway : Underway g p.graph
  slots : (edges.map Prod.snd).Nodup
  inputs : ∀ e ∈ edges, (p.graph.inputs n)[e.2]? = some e.1.1
  asked : ∀ e ∈ edges,
    (g.inputs n)[e.2]? = some e.1.1 ∧ (g.requirements n)[e.2]? = some e.1.2
  others : ∀ m < g.count, m ≠ n → p.graph.inputs m = start.inputs m

theorem decided_atNode (hadm : Admitted g) (hwf : WellFormed g)
    (edge : (NodeId × Requirement) × Nat) (edges : List ((NodeId × Requirement) × Nat)) (p : Pass)
    (h : AtNode g g₁ n (edge :: edges) p) :
    Step.Decided (meetSlot n edge) p (AtNode g g₁ n edges)
      (verdict g ⟨n, edge.2, edge.1.1, edge.1.2⟩) := by
  obtain ⟨⟨x, required⟩, slot⟩ := edge
  obtain ⟨hslot, hslots⟩ := List.nodup_cons.1 h.slots
  obtain ⟨hx, hinputs⟩ := List.forall_mem_cons.1 h.inputs
  obtain ⟨⟨hxg, hrequired⟩, hasked⟩ := List.forall_mem_cons.1 h.asked
  refine (decided_meetSlot h.underway hadm hwf hx hxg hrequired).imp ?_
  rintro p' ⟨ha, hsame⟩
  refine ⟨h.underway.advance ha, hslots, ?_, hasked, ?_⟩
  · intro e he
    have hne : e.2 ≠ slot := by
      rintro rfl
      exact hslot (List.mem_map.2 ⟨e, he, rfl⟩)
    rw [hsame e.2 hne]
    exact hinputs e he
  · intro m hm hmn
    rw [ha.inputs m (Nat.lt_of_lt_of_le hm h.underway.count_le) hmn]
    exact h.others m hm hmn

theorem decided_solveNode (hadm : Admitted g) (hwf : WellFormed g) (hu : Underway g p.graph)
    (hn : n < g.count) (hinputs : p.graph.inputs n = g.inputs n) :
    Step.Decided (solveNode n) p
      (fun p' => Underway g p'.graph ∧
        ∀ m < g.count, m ≠ n → p'.graph.inputs m = p.graph.inputs m)
      ((g.demandsOf n).findSome? (verdict g)) := by
  have hstart : AtNode g p.graph n ((g.inputs n).zip (g.requirements n)).zipIdx p := by
    have hasked : ∀ e ∈ ((g.inputs n).zip (g.requirements n)).zipIdx,
        (g.inputs n)[e.2]? = some e.1.1 ∧ (g.requirements n)[e.2]? = some e.1.2 := by
      rintro ⟨⟨x, required⟩, slot⟩ he
      rw [List.mem_zipIdx_iff_getElem?] at he
      simpa [List.zip, List.getElem?_zipWith_eq_some] using he
    refine ⟨hu, ?_, ?_, hasked, fun _ _ _ => rfl⟩
    · rw [List.zipIdx_map_snd]
      exact List.nodup_range'
    · intro e he
      rw [hinputs]
      exact (hasked e he).1
  -- the inputs and the requirements that the pass finds are those of the first graph
  have heq : solveNode n p =
      (((g.inputs n).zip (g.requirements n)).zipIdx.forM (meetSlot n) : Solver Unit) p := by
    unfold solveNode
    rw [Step.get_bind, hinputs, hu.requirements n hn]
  rw [Columns.demandsOf, List.findSome?_map]
  exact ((Step.decided_forM (decided_atNode hadm hwf) _ hstart).congr heq).imp
    fun p' h => ⟨h.underway, h.others⟩

/-! ## A whole pass -/

/-- What holds while the nodes of a list are still to be visited: they read what they read. -/
structure AtNodes (g : Graph) (nodes : List NodeId) (p : Pass) : Prop where
  underway : Underway g p.graph
  nodup : nodes.Nodup
  known : ∀ n ∈ nodes, n < g.count
  inputs : ∀ n ∈ nodes, p.graph.inputs n = g.inputs n

theorem decided_atNodes (hadm : Admitted g) (hwf : WellFormed g) (n : NodeId)
    (nodes : List NodeId) (p : Pass) (h : AtNodes g (n :: nodes) p) :
    Step.Decided (solveNode n) p (AtNodes g nodes) ((g.demandsOf n).findSome? (verdict g)) := by
  obtain ⟨hnot, hnodup⟩ := List.nodup_cons.1 h.nodup
  obtain ⟨hn, hknown⟩ := List.forall_mem_cons.1 h.known
  obtain ⟨hinputs, hrest⟩ := List.forall_mem_cons.1 h.inputs
  refine (decided_solveNode hadm hwf h.underway hn hinputs).imp ?_
  rintro p' ⟨hu, hothers⟩
  refine ⟨hu, hnodup, hknown, ?_⟩
  intro m hm
  have hmn : m ≠ n := by
    rintro rfl
    exact hnot hm
  rw [hothers m (hknown m hm) hmn, hrest m hm]

theorem findSome?_demands {f : Demand → Option Error} (nodes : List NodeId) :
    (g.demands nodes).findSome? f = nodes.findSome? fun n => (g.demandsOf n).findSome? f := by
  unfold Columns.demands
  induction nodes with
  | nil => rfl
  | cons n nodes ih =>
    rw [List.flatMap_cons, List.findSome?_append, List.findSome?_cons, ih]
    cases (g.demandsOf n).findSome? f <;> rfl

theorem findSome?_verdict (ds : List Demand) :
    ds.findSome? (verdict g) =
      (ds.find? fun d => decide (¬ g.Meetable d.input d.required)).map
        fun d => .type (g.complaint d) := by
  induction ds with
  | nil => rfl
  | cons d ds ih =>
    rw [List.findSome?_cons, List.find?_cons]
    by_cases hd : g.Meetable d.input d.required
    · have hverdict : verdict g d = none := if_pos hd
      simpa [hverdict, hd] using ih
    · have hverdict : verdict g d = some (.type (g.complaint d)) := if_neg hd
      simp [hverdict, hd]

/-- At the start of a pass all nodes are still to be visited. -/
theorem atNodes_order {order : List NodeId} (h : WellFormed g) (ht : Typed g)
    (horder : g.topologicalOrder = .ok order) : AtNodes g order ⟨g, {}, []⟩ := by
  have hperm := perm_of_topologicalOrder h.spans_length horder
  refine ⟨.refl h ht, ?_, ?_, fun _ _ => rfl⟩
  · exact hperm.nodup_iff.2 List.nodup_range
  · exact fun n hn => List.mem_range.1 (hperm.mem_iff.1 hn)

/-- The first demand that cannot be met decides what becomes of a pass. -/
theorem decided_solve {order : List NodeId} (hg : Added g)
    (horder : g.topologicalOrder = .ok order) :
    Step.Decided (order.forM solveNode : Solver Unit) ⟨g, {}, []⟩ (AtNodes g [])
      (((g.demands order).find? fun d => decide (¬ g.Meetable d.input d.required)).map
        fun d => .type (g.complaint d)) := by
  obtain ⟨hwf, ht⟩ := wellFormed_typed_of_built hg.built
  rw [← findSome?_verdict, findSome?_demands]
  exact Step.decided_forM (decided_atNodes (admitted_of_added hg) hwf) order
    (atNodes_order hwf ht horder)

theorem solve_result_of_ok {order : List NodeId} (horder : g.topologicalOrder = .ok order)
    (hrun : (order.forM solveNode : Solver Unit) ⟨g, {}, []⟩ = .ok () p) :
    (solve g).result = .ok p.report := by
  unfold solve solvePass
  rw [Step.get_bind, horder]
  simp only [bind, EStateM.bind, hrun]
  rfl

theorem solve_result_of_error {order : List NodeId} {e : Error}
    (horder : g.topologicalOrder = .ok order)
    (hrun : (order.forM solveNode : Solver Unit) ⟨g, {}, []⟩ = .error e p) :
    (solve g).result = .error e := by
  unfold solve solvePass
  rw [Step.get_bind, horder]
  simp only [bind, EStateM.bind, hrun]

theorem mem_demandsOf {d : Demand} : d ∈ g.demandsOf n ↔
    d.consumer = n ∧ (g.inputs n)[d.slot]? = some d.input ∧
      (g.requirements n)[d.slot]? = some d.required := by
  obtain ⟨consumer, slot, x, required⟩ := d
  simp only [Columns.demandsOf, List.mem_map, List.mem_zipIdx_iff_getElem?, List.zip,
    List.getElem?_zipWith_eq_some]
  constructor
  · rintro ⟨⟨⟨y, r⟩, i⟩, ⟨a, b, ha, hb, hab⟩, heq⟩
    cases hab
    cases heq
    exact ⟨rfl, ha, hb⟩
  · rintro ⟨rfl, hx, hr⟩
    exact ⟨((x, required), slot), ⟨x, required, hx, hr, rfl⟩, rfl⟩

/-- No demand of the nodes in order is out of reach exactly if every edge of the graph can be
met. -/
theorem find?_demands_eq_none {order : List NodeId} (hwf : WellFormed g)
    (hperm : order.Perm (List.range g.count)) :
    ((g.demands order).find? fun d => decide (¬ g.Meetable d.input d.required)) = none ↔
      ∀ (n : NodeId) (slot : Nat) (x : NodeId) (required : Requirement),
        (g.inputs n)[slot]? = some x → (g.requirements n)[slot]? = some required →
        g.Meetable x required := by
  rw [List.find?_eq_none]
  constructor
  · intro hall n slot x required hx hrequired
    have hn := hwf.lt_of_mem_inputs (List.mem_of_getElem? hx)
    have hmem : (⟨n, slot, x, required⟩ : Demand) ∈ g.demands order :=
      List.mem_flatMap.2
        ⟨n, hperm.mem_iff.2 (List.mem_range.2 hn), mem_demandsOf.2 ⟨rfl, hx, hrequired⟩⟩
    simpa using hall _ hmem
  · intro hall d hd
    obtain ⟨n, -, hd⟩ := List.mem_flatMap.1 hd
    obtain ⟨-, hx, hrequired⟩ := mem_demandsOf.1 hd
    simpa using hall n d.slot d.input d.required hx hrequired

/-- **A pass decides whether all demands can be met.**  In a graph made by adding nodes there is
an order of the nodes.  The pass succeeds exactly if every input of every node meets what is
asked of it or can be replaced, as the graph is before the pass; and else it complains about the
first input in this order that does not and cannot. -/
theorem solve_decides (hg : Added g) :
    ∃ order, g.topologicalOrder = .ok order ∧
      ((∃ report, (solve g).result = .ok report) ↔
        ∀ (n : NodeId) (slot : Nat) (x : NodeId) (required : Requirement),
          (g.inputs n)[slot]? = some x → (g.requirements n)[slot]? = some required →
          g.Meetable x required) ∧
      ∀ d, ((g.demands order).find? fun d => decide (¬ g.Meetable d.input d.required)) = some d →
        (solve g).result = .error (.type (g.complaint d)) := by
  obtain ⟨hwf, -⟩ := wellFormed_typed_of_built hg.built
  obtain ⟨order, horder⟩ := exists_topologicalOrder hwf.toConsistent (acyclic_of_built hg.built)
  refine ⟨order, horder, ?_⟩
  rw [← find?_demands_eq_none hwf (perm_of_topologicalOrder hwf.spans_length horder)]
  have hdecided := decided_solve hg horder
  generalize (g.demands order).find? (fun d => decide (¬ g.Meetable d.input d.required)) = first
    at hdecided ⊢
  cases first with
  | none =>
    obtain ⟨p, hrun, -⟩ := hdecided
    have hresult := solve_result_of_ok horder hrun
    exact ⟨⟨fun _ => rfl, fun _ => ⟨_, hresult⟩⟩, fun d hd => by cases hd⟩
  | some d =>
    obtain ⟨p, hrun⟩ := hdecided
    have hresult := solve_result_of_error horder hrun
    refine ⟨⟨?_, fun hnone => by cases hnone⟩, ?_⟩
    · rintro ⟨report, hok⟩
      cases hok.symm.trans hresult
    · intro d' hd
      cases hd
      exact hresult

namespace Clashing

/-- A draw that is zero or one is no probability, and a normal variable is no scale. -/
def nodes : List (NodeKind × List NodeId) :=
  [(.constant (.scalar 0.5) none, []), (.distribution .bernoulli, [0]), (.sample, [1]),
    (.constant (.scalar 2) none, []), (.distribution .normal, [2, 3]), (.sample, [4]),
    (.distribution .halfCauchy, [5]), (.distribution .bernoulli, [2])]

def graph : Graph := nodes.foldl (fun g node => (g.add node.1 node.2).state) .empty

theorem added_graph : Added graph := added_foldl_add nodes .empty

end Clashing

/-- Both distributions behind the normal variable ask for what they cannot have; the one that
comes first in order was added last. -/
theorem solve_decides_clashing :
    Added Clashing.graph ∧ ¬ Clashing.graph.Meetable 5 (.exact .positiveReal) ∧
      (solve Clashing.graph).result = .error (.type (.noConversion 7 0 .probability)) := by
  refine ⟨Clashing.added_graph, by decide +kernel, ?_⟩
  obtain ⟨order, horder, -, hfirst⟩ := solve_decides Clashing.added_graph
  have hlist : Clashing.graph.topologicalOrder.toOption = some [0, 3, 1, 2, 4, 7, 5, 6] := by
    decide +kernel
  rw [horder] at hlist
  cases hlist
  have hcomplaint : Clashing.graph.complaint ⟨7, 0, 2, .exact .probability⟩ =
      .noConversion 7 0 .probability := if_pos (by decide +kernel)
  rw [← hcomplaint]
  exact hfirst _ (by decide +kernel)

end Graph

end Stochastic
