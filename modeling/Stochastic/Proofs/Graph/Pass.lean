import Stochastic.Graph.Solve
import Stochastic.Proofs.Graph.Types
import Stochastic.Proofs.Node.Widening
import Stochastic.Proofs.Step

/-!
# What a pass does to a graph

A step of a pass adds a node that can stand in for an input, or puts it in the place of the
input.  Neither changes the type of a node: a node that stands in for an input is of the type
that is asked of the input, or it is a constant of the same type as the input.

## Main definitions

* `Graph.MeetsAt` — an input meets what is asked of it.
* `Graph.Advances` — what a step for a node does: it keeps all kinds and types, and the inputs
  of all other nodes.

## Main results

* `Graph.meet_eq_ok` — what meeting a requirement comes to.
* `Graph.advances_insert`, `Graph.advances_rewire` — the two kinds of step.
* `Graph.StandsIn.replaced` — putting a node in the place of an input.
* `Graph.meetSlot_advances` — one input.
* `Graph.EdgesFrom.later` — the inputs that come after it.
-/

namespace Stochastic.Graph

variable {g g' g₁ g₂ : Graph} {p p' : Pass} {kind : NodeKind} {xs : List NodeId}
variable {n m x slot : Nat} {t : ValueType} {required : Requirement}

/-! ## Steps that succeed -/

theorem add_eq_ok (h : Solver.add kind xs p = .ok n p') :
    p.graph.insert kind xs = .ok (p'.graph, n) := by
  unfold Solver.add Graph.add at h
  cases hi : p.graph.insert kind xs with
  | error e => simp [hi] at h
  | ok r =>
    rw [hi] at h
    cases h
    rfl

theorem materialize_eq_ok {value : Tensor Float} (h : materialize value t p = .ok n p') :
    p.graph.insert (.constant value (some t)) [] = .ok (p'.graph, n) := by
  unfold materialize at h
  simp only [Step.bind_eq_ok, Step.get_eq_ok, Step.modify_eq_ok, Step.pure_eq_ok] at h
  obtain ⟨_, _, ⟨rfl, rfl⟩, n', p₁, hadd, _, _, rfl, rfl, rfl⟩ := h
  have hgraph := add_eq_ok hadd
  split <;> exact hgraph

theorem convert_eq_ok {c : Conversion} (h : convert c x slot m p = .ok n p') :
    p.graph.insert (.conversion c) [x] = .ok (p'.graph, n) := by
  unfold convert at h
  simp only [Step.bind_eq_ok, Step.get_eq_ok, Step.modify_eq_ok, Step.pure_eq_ok] at h
  obtain ⟨_, _, ⟨rfl, rfl⟩, n', p₁, hadd, _, _, rfl, rfl, rfl⟩ := h
  have hgraph := add_eq_ok hadd
  split <;> exact hgraph

/-- A node is found or added to stand in for an input: the same constant with the type asked
for, or a conversion to this type if the input is no constant. -/
inductive StandsIn (g : Graph) (x : NodeId) (t : ValueType) (g' : Graph) (m : NodeId) : Prop
  | constant {value : Tensor Float} {declared : Option ValueType}
    (hx : g.kindOf x = .constant value declared)
    (hi : g.insert (.constant value (some t)) [] = .ok (g', m))
  | conversion {c : Conversion} (hc : c.target = t)
    (hi : g.insert (.conversion c) [x] = .ok (g', m))
    (hx : ∀ value declared, g.kindOf x ≠ .constant value declared)

theorem standIn_eq_ok (h : standIn n slot x t p = .ok m p') :
    StandsIn p.graph x t p'.graph m := by
  unfold standIn at h
  simp only [Step.bind_eq_ok, Step.get_eq_ok] at h
  obtain ⟨p, _, ⟨rfl, rfl⟩, h⟩ := h
  cases hk : p.graph.kindOf x with
  | constant value declared =>
    rw [hk] at h
    exact .constant hk (materialize_eq_ok h)
  | _ =>
    rw [hk] at h
    -- there is no conversion to the types below the positive reals
    cases t <;> first
      | exact absurd h Step.throw_ne_ok
      | exact .conversion rfl (convert_eq_ok h) (by simp [hk])

/-- An input meets the requirement, or it does not and a node stands in for it. -/
theorem meet_eq_ok {o : Option NodeId} (h : meet n slot x required p = .ok o p') :
    o = none ∧ p' = p ∧ required.satisfied (p.graph.carried x) (p.graph.typeOf x) = true ∨
      ∃ m t, o = some m ∧ required = .exact t ∧
        ¬ required.satisfied (p.graph.carried x) (p.graph.typeOf x) = true ∧
        p.graph.typeOf x ≤ t ∧ StandsIn p.graph x t p'.graph m := by
  unfold meet at h
  simp only [Step.bind_eq_ok, Step.get_eq_ok] at h
  obtain ⟨p, _, ⟨rfl, rfl⟩, h⟩ := h
  by_cases hsat : required.satisfied (p.graph.carried x) (p.graph.typeOf x) = true
  · rw [if_pos hsat] at h
    cases h
    exact .inl ⟨rfl, rfl, hsat⟩
  rw [if_neg hsat] at h
  cases required with
  | upperBound t => exact absurd h Step.throw_ne_ok
  | exact t =>
    dsimp only at h
    by_cases hle : (p.graph.typeOf x).le t = true
    · rw [if_pos hle] at h
      obtain ⟨m, p₁, hm, hp⟩ := Step.bind_eq_ok.1 h
      cases hp
      exact .inr ⟨m, t, rfl, rfl, hsat, hle, standIn_eq_ok hm⟩
    · rw [if_neg hle] at h
      exact absurd h Step.throw_ne_ok

/-! ## What a step keeps -/

/-- The input at a slot of a node meets what the node asks of it. -/
def MeetsAt (g : Graph) (n : NodeId) (slot : Nat) : Prop :=
  ∀ x required, (g.inputs n)[slot]? = some x → (g.requirements n)[slot]? = some required →
    required.satisfied (g.carried x) (g.typeOf x) = true

/-- Whether an input meets what is asked of it depends on what is asked, and on the kind and the
type of the input. -/
theorem MeetsAt.congr (hmet : g.MeetsAt n slot)
    (hinput : (g'.inputs n)[slot]? = (g.inputs n)[slot]?)
    (hrequirements : g'.requirements n = g.requirements n)
    (hsame : ∀ x ∈ g.inputs n, g'.kindOf x = g.kindOf x ∧ g'.typeOf x = g.typeOf x) :
    g'.MeetsAt n slot := by
  intro x required hx hrequired
  rw [hinput] at hx
  rw [hrequirements] at hrequired
  obtain ⟨hkind, htype⟩ := hsame x (List.mem_of_getElem? hx)
  unfold Columns.carried
  rw [hkind, htype]
  exact hmet x required hx hrequired

/-- What a step for a node `n` keeps: the kinds, the types and the requirements of all nodes,
and the inputs of all nodes but `n`.  The inputs of the nodes that it adds meet what is asked of
them. -/
structure Advances (g g' : Graph) (n : NodeId) : Prop where
  wellFormed : WellFormed g'
  typed : Typed g'
  count_le : g.count ≤ g'.count
  kindOf : ∀ m < g.count, g'.kindOf m = g.kindOf m
  typeOf : ∀ m < g.count, g'.typeOf m = g.typeOf m
  requirements : ∀ m < g.count, g'.requirements m = g.requirements m
  inputs : ∀ m < g.count, m ≠ n → g'.inputs m = g.inputs m
  added : ∀ m < g'.count, g.count ≤ m → ∀ slot, g'.MeetsAt m slot

namespace Advances

theorem refl (h : WellFormed g) (ht : Typed g) (n : NodeId) : Advances g g n where
  wellFormed := h
  typed := ht
  count_le := Nat.le_refl _
  kindOf _ _ := rfl
  typeOf _ _ := rfl
  requirements _ _ := rfl
  inputs _ _ _ := rfl
  added _ hm hle := absurd hm (Nat.not_lt.2 hle)

/-- An input that has not been replaced still meets what is asked of it. -/
theorem meetsAt (ha : Advances g g' n) (h : WellFormed g) (hm : m < g.count)
    (hinput : (g'.inputs m)[slot]? = (g.inputs m)[slot]?) (hmet : g.MeetsAt m slot) :
    g'.MeetsAt m slot :=
  hmet.congr hinput (ha.requirements m hm) fun x hx =>
    ⟨ha.kindOf x (h.input_lt hx), ha.typeOf x (h.input_lt hx)⟩

theorem trans (h₁ : Advances g g₁ n) (h₂ : Advances g₁ g₂ n) (hn : n < g.count) :
    Advances g g₂ n where
  wellFormed := h₂.wellFormed
  typed := h₂.typed
  count_le := Nat.le_trans h₁.count_le h₂.count_le
  kindOf m hm := (h₂.kindOf m (Nat.lt_of_lt_of_le hm h₁.count_le)).trans (h₁.kindOf m hm)
  typeOf m hm := (h₂.typeOf m (Nat.lt_of_lt_of_le hm h₁.count_le)).trans (h₁.typeOf m hm)
  requirements m hm :=
    (h₂.requirements m (Nat.lt_of_lt_of_le hm h₁.count_le)).trans (h₁.requirements m hm)
  inputs m hm hmn :=
    (h₂.inputs m (Nat.lt_of_lt_of_le hm h₁.count_le) hmn).trans (h₁.inputs m hm hmn)
  added m hm hle slot := by
    by_cases hlt : m < g₁.count
    · -- added by the first step, and not the node that the second one is for
      have hmn : m ≠ n := (Nat.ne_of_lt (Nat.lt_of_lt_of_le hn hle)).symm
      exact h₂.meetsAt h₁.wellFormed hlt (by rw [h₂.inputs m hlt hmn]) (h₁.added m hlt hle slot)
    · exact h₂.added m hm (Nat.le_of_not_lt hlt) slot

end Advances

/-! ## Adding a node that stands in -/

/-- Requirements depend on kinds and on the types of inputs. -/
theorem requirements_congr (hkind : g'.kindOf n = g.kindOf n) (hinputs : g'.inputs n = g.inputs n)
    (htypes : ∀ x ∈ g.inputs n, g'.typeOf x = g.typeOf x) :
    g'.requirements n = g.requirements n := by
  unfold Columns.requirements Columns.inputTypes
  rw [hkind, hinputs, List.map_congr_left htypes]

/-- The inputs of a node that is appended meet what it asks of them if they did before. -/
theorem meetsAt_append (h : WellFormed g) (hxs : ∀ x ∈ xs, x < g.count)
    (hmet : ∀ x required, xs[slot]? = some x →
      (kind.requirements (xs.map g.typeOf))[slot]? = some required →
      required.satisfied (g.carried x) (g.typeOf x) = true) :
    (g.append kind xs).MeetsAt g.count slot := by
  have htypes : ∀ x ∈ xs, (g.append kind xs).typeOf x = g.typeOf x := by
    intro x hx
    rw [typeOf_append h, if_neg (Nat.ne_of_lt (hxs x hx))]
  intro x required hx hrequired
  unfold Columns.requirements Columns.inputTypes at hrequired
  rw [kindOf_append, if_pos rfl, inputs_append h, if_pos rfl, List.map_congr_left htypes]
    at hrequired
  rw [inputs_append h, if_pos rfl] at hx
  have hmem : x ∈ xs := List.mem_of_getElem? hx
  unfold Columns.carried
  rw [htypes x hmem, kindOf_append, if_neg (Nat.ne_of_lt (hxs x hmem))]
  exact hmet x required hx hrequired

/-- Inserting a node whose inputs meet what it asks of them. -/
theorem advances_insert (h : WellFormed g) (ht : Typed g) (hi : g.insert kind xs = .ok (g', m))
    (hmet : ∀ (slot : Nat) (x : NodeId) (required : Requirement), xs[slot]? = some x →
      (kind.requirements (xs.map g.typeOf))[slot]? = some required →
      required.satisfied (g.carried x) (g.typeOf x) = true) (n : NodeId) : Advances g g' n where
  wellFormed := wellFormed_insert h hi
  typed := typed_insert h ht hi
  count_le := count_insert_le hi
  kindOf m hm := (same_insert h hi hm).1
  typeOf m hm := (same_insert h hi hm).2.1
  requirements m hm := by
    obtain ⟨hkind, -, hinputs⟩ := same_insert h hi hm
    exact requirements_congr hkind hinputs fun x hx => (same_insert h hi (h.input_lt hx)).2.1
  inputs m hm _ := (same_insert h hi hm).2.2
  added m hm hle slot := by
    obtain ⟨hxs, -, ⟨-, rfl⟩ | ⟨-, rfl⟩⟩ := insert_eq_ok hi
    · exact absurd hm (Nat.not_lt.2 hle)
    · rw [count_append] at hm
      obtain rfl : m = g.count := by omega
      exact meetsAt_append h hxs (hmet slot)

theorem constant_of_key {inputs : List NodeId} {declared : Option ValueType} {key : Tensor.Key}
    (h : NodeKey.of? kind inputs = some (.constant declared key)) :
    ∃ value, kind = .constant value declared ∧ value.key = key := by
  cases kind <;> simp_all [NodeKey.of?]

theorem conversion_of_key {inputs : List NodeId} {c : Conversion}
    (h : NodeKey.of? kind inputs = some (.conversion c x)) : kind = .conversion c := by
  cases kind <;> simp_all [NodeKey.of?]

/-- A node that stands in for an input carries the type that is asked for, and is of this type
or of the type of the input. -/
theorem StandsIn.types (hs : StandsIn g x t g' m) (h : WellFormed g) (ht : Typed g)
    (hx : x < g.count) :
    m < g'.count ∧ g'.carried m = t ∧ (g'.typeOf m = t ∨ g'.typeOf m = g.typeOf x) := by
  cases hs with
  | @constant value declared hkind hi =>
    obtain ⟨hm, hkey⟩ := key_insert h hi
    obtain ⟨value', hkind', hvalue⟩ := constant_of_key hkey
    refine ⟨hm, by rw [Columns.carried, hkind']; rfl, .inr ?_⟩
    -- constants with one key are of one type
    rw [(typed_insert h ht hi).eq hm, ht.eq hx, inferred, inferred, hkind', hkind]
    exact ValueType.classify_eq_of_key_eq hvalue
  | conversion hc hi =>
    obtain ⟨hm, hkey⟩ := key_insert h hi
    have hkind : g'.kindOf m = .conversion _ := conversion_of_key hkey
    have htype : g'.typeOf m = t := by
      rw [(typed_insert h ht hi).eq hm, inferred, hkind]
      exact hc
    refine ⟨hm, ?_, .inl htype⟩
    rw [Columns.carried, hkind]
    exact htype

theorem StandsIn.advances (hs : StandsIn g x t g' m) (h : WellFormed g) (ht : Typed g)
    (hle : g.typeOf x ≤ t) (n : NodeId) : Advances g g' n := by
  cases hs with
  | constant _ hi => exact advances_insert h ht hi (by simp) n
  | conversion hc hi =>
    refine advances_insert h ht hi ?_ n
    intro slot y required hy hrequired
    cases slot with
    | zero =>
      cases hy
      cases hrequired
      rw [← hc] at hle
      exact hle
    | succ slot => simp at hy

theorem StandsIn.inputs (hs : StandsIn g x t g' m) (h : WellFormed g) (hn : n < g.count) :
    g'.inputs n = g.inputs n := by
  cases hs with
  | constant _ hi => exact (same_insert h hi hn).2.2
  | conversion _ hi => exact (same_insert h hi hn).2.2

/-! ## Putting it in the place of the input -/

/-- After a replacement by a node that is of the type that is asked for, or of the same type as
before, a node asks the same as before and is of the same type. -/
theorem same_rewired (h : WellFormed g) (hx : (g.inputs n)[slot]? = some x)
    (hrequired : (g.requirements n)[slot]? = some (.exact t))
    (htype : g.typeOf m = t ∨ g.typeOf m = g.typeOf x) :
    (g.rewired n slot m).requirements n = g.requirements n ∧
      (g.rewired n slot m).inferred n = g.inferred n := by
  obtain ⟨hslot, rfl⟩ := List.getElem?_eq_some_iff.1 hx
  have htypes : (g.rewired n slot m).inputTypes n = (g.inputTypes n).set slot (g.typeOf m) := by
    unfold Columns.inputTypes
    rw [inputs_rewired h hslot, if_pos rfl]
    exact List.map_set
  unfold Columns.requirements inferred
  rw [htypes, kindOf_rewired]
  -- the input is widened to what is asked of it, or its type stays
  rcases htype with htype | htype
  · rw [htype]
    exact NodeKind.requirements_infer_set hrequired
  · have hset : (g.inputTypes n).set slot (g.typeOf m) = g.inputTypes n := by
      rw [htype, Columns.inputTypes, ← List.map_set, List.set_getElem_self]
    rw [hset]
    exact ⟨rfl, rfl⟩

theorem inputs_rewired_ne (h : WellFormed g) (hslot : slot < (g.inputs n).length) {a : Nat}
    (ha : a ≠ n) : (g.rewired n slot m).inputs a = g.inputs a := by
  rw [inputs_rewired h hslot, if_neg ha]

/-- The types are right as they are before any of them is inferred again. -/
theorem typed_rewired (h : WellFormed g) (ht : Typed g) (hx : (g.inputs n)[slot]? = some x)
    (hrequired : (g.requirements n)[slot]? = some (.exact t))
    (htype : g.typeOf m = t ∨ g.typeOf m = g.typeOf x) : Typed (g.rewired n slot m) := by
  obtain ⟨hslot, -⟩ := List.getElem?_eq_some_iff.1 hx
  obtain ⟨-, hinferred⟩ := same_rewired h hx hrequired htype
  intro a ha _
  rw [typeOf_rewired, ht.eq ha]
  by_cases han : a = n
  · rw [han, hinferred]
  · exact (inferred_congr kindOf_rewired (inputs_rewired_ne h hslot han)
      fun _ _ => typeOf_rewired).symm

/-- Replacing an input by a node that stands in for it. -/
theorem advances_rewire (h : WellFormed g) (ht : Typed g) (hx : (g.inputs n)[slot]? = some x)
    (hrequired : (g.requirements n)[slot]? = some (.exact t))
    (htype : g.typeOf m = t ∨ g.typeOf m = g.typeOf x) (hr : g.rewire n slot m = .ok g') :
    Advances g g' n ∧ g'.inputs n = (g.inputs n).set slot m := by
  obtain ⟨hslot, hm, rfl⟩ := (rewire_eq_ok h.toConsistent).1 hr
  have hw := wellFormed_rewired h hslot hm
  have htyped := typed_rewired h ht hx hrequired htype
  rw [refresh_of_typed n g.count hw.toConsistent htyped [n]]
  refine ⟨⟨hw, htyped, Nat.le_refl _, fun _ _ => rfl, fun _ _ => rfl, ?_,
    fun a _ => inputs_rewired_ne h hslot, fun a ha hle => absurd ha (Nat.not_lt.2 hle)⟩,
    by rw [inputs_rewired h hslot, if_pos rfl]⟩
  intro a _
  by_cases han : a = n
  · rw [han, (same_rewired h hx hrequired htype).1]
  · exact requirements_congr kindOf_rewired (inputs_rewired_ne h hslot han)
      fun _ _ => typeOf_rewired

/-- What is known of a replacement: a node that stands in is added or found, which changes nothing
about the node that asks for it, and then takes the place of the input, which afterwards meets
what is asked of it. -/
structure Replaced (g g₁ g' : Graph) (n : NodeId) (slot : Nat) (m : NodeId) : Prop where
  first : Advances g g₁ n
  second : Advances g₁ g' n
  kinds : g'.kinds = g₁.kinds
  inputs : g'.inputs n = (g.inputs n).set slot m
  meets : g'.MeetsAt n slot

theorem Replaced.count (h : Replaced g g₁ g' n slot m) : g'.count = g₁.count :=
  congrArg List.length h.kinds

theorem StandsIn.replaced (hs : StandsIn g x t g₁ m) (h : WellFormed g) (ht : Typed g)
    (hx : (g.inputs n)[slot]? = some x) (hrequired : (g.requirements n)[slot]? = some (.exact t))
    (hle : g.typeOf x ≤ t) (hr : g₁.rewire n slot m = .ok g') : Replaced g g₁ g' n slot m := by
  obtain ⟨hslot, -⟩ := List.getElem?_eq_some_iff.1 hx
  have hxlt := h.input_lt (List.mem_of_getElem? hx)
  have hn := h.lt_of_mem_inputs (List.mem_of_getElem? hx)
  have hfirst := hs.advances h ht hle n
  obtain ⟨hmlt, hcarried, htype⟩ := hs.types h ht hxlt
  have hinputs := hs.inputs h hn
  rw [← hinputs] at hx hslot
  rw [← hfirst.requirements n hn] at hrequired
  rw [← hfirst.typeOf x hxlt] at htype
  obtain ⟨hsecond, hset⟩ := advances_rewire hfirst.wellFormed hfirst.typed hx hrequired htype hr
  refine ⟨hfirst, hsecond, kinds_rewire hr, hinputs ▸ hset, ?_⟩
  intro y required hy hrequired'
  rw [hset, List.getElem?_set_self hslot] at hy
  rw [hsecond.requirements n (Nat.lt_of_lt_of_le hn hfirst.count_le), hrequired] at hrequired'
  cases hy
  cases hrequired'
  have hcarried' : g'.carried m = t := by
    rw [← hcarried, Columns.carried, hsecond.kindOf m hmlt, hsecond.typeOf m hmlt]
    rfl
  simp [Requirement.satisfied, hcarried']

/-! ## One input -/

theorem rewireStep_eq_ok (h : Solver.rewire n slot m p = .ok () p') :
    p.graph.rewire n slot m = .ok p'.graph := by
  unfold Solver.rewire at h
  cases hr : p.graph.rewire n slot m with
  | error e => simp [hr] at h
  | ok g =>
    rw [hr] at h
    cases h
    rfl

/-- After its turn an input meets what is asked of it, and the inputs at the other slots are
those that were there. -/
theorem meetSlot_advances (h : WellFormed p.graph) (ht : Typed p.graph)
    (hx : (p.graph.inputs n)[slot]? = some x)
    (hrequired : (p.graph.requirements n)[slot]? = some required)
    (hm : meetSlot n ((x, required), slot) p = .ok () p') :
    Advances p.graph p'.graph n ∧ p'.graph.MeetsAt n slot ∧
      ∀ i ≠ slot, (p'.graph.inputs n)[i]? = (p.graph.inputs n)[i]? := by
  unfold meetSlot at hm
  obtain ⟨o, p₁, hmeet, hrest⟩ := Step.bind_eq_ok.1 hm
  rcases meet_eq_ok hmeet with ⟨rfl, rfl, hsat⟩ | ⟨m, t, rfl, rfl, -, hle, hs⟩
  · cases hrest
    refine ⟨.refl h ht n, ?_, fun _ _ => rfl⟩
    intro y required' hy hrequired'
    cases hx.symm.trans hy
    cases hrequired.symm.trans hrequired'
    exact hsat
  · have hn := h.lt_of_mem_inputs (List.mem_of_getElem? hx)
    have hrep := hs.replaced h ht hx hrequired hle (rewireStep_eq_ok hrest)
    refine ⟨hrep.first.trans hrep.second hn, hrep.meets, fun i hi => ?_⟩
    rw [hrep.inputs, List.getElem?_set_ne (Ne.symm hi)]

/-! ## The inputs from a slot on -/

/-- From slot `k` on, the inputs of node `n` and what it asks of them are the given ones. -/
def EdgesFrom (g : Graph) (n : NodeId) (k : Nat) (edges : List (NodeId × Requirement)) : Prop :=
  ∀ (i x : Nat) (required : Requirement), edges[i]? = some (x, required) →
    (g.inputs n)[k + i]? = some x ∧ (g.requirements n)[k + i]? = some required

theorem edgesFrom_zero (g : Graph) (n : NodeId) :
    g.EdgesFrom n 0 ((g.inputs n).zip (g.requirements n)) := by
  intro i x required hi
  rw [Nat.zero_add]
  simpa [List.zip, List.getElem?_zipWith_eq_some] using hi

/-- The inputs that are still to come after a step for one are those that were there before. -/
theorem EdgesFrom.later {edge : NodeId × Requirement} {edges : List (NodeId × Requirement)}
    {k : Nat} (h : g.EdgesFrom n k (edge :: edges)) (ha : Advances g g' n) (hn : n < g.count)
    (hothers : ∀ i ≠ k, (g'.inputs n)[i]? = (g.inputs n)[i]?) : g'.EdgesFrom n (k + 1) edges := by
  intro i x required hi
  rw [hothers _ (by omega), ha.requirements n hn, Nat.add_right_comm, Nat.add_assoc]
  exact h (i + 1) x required hi

end Stochastic.Graph
