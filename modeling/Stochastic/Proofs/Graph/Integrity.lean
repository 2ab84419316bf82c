import Stochastic.Proofs.Graph.Pass
import Stochastic.Proofs.Graph.Soundness

/-!
# What a graph holds

A graph that is built node by node keeps its columns, its lists of consumers and its index in
step, and an addition answers with a node that is what was asked for.  The second follows from
the first: an entry of the index stands under the key of its node, as the node is now, and a
key leaves nothing open but what constants have in common.  The key of a constant does not
tell the two zeros apart, nor one NaN from another.

## Main definitions

* `SameNumber`, `NodeKind.Alike` — floats and kinds that a key does not tell apart.

## Main results

* `NodeKind.alike_of_key` — nodes with one key are of the same kind and read the same nodes.
* `Graph.alike_insert` — what an insertion comes to.
* `Graph.integrity_of_built` — every graph that is built is in order.
-/

namespace Stochastic

/-- Floats that are one number: they are equal, or both are zeros, or neither is a number. -/
def SameNumber (x y : Float) : Prop :=
  x = y ∨ (x == 0) = true ∧ (y == 0) = true ∨ x.isNaN = true ∧ y.isNaN = true

theorem sameNumber_of_floatKey {x y : Float} (h : floatKey x = floatKey y) : SameNumber x y := by
  by_cases hzero : (x == 0) = true
  · refine .inr (.inl ⟨hzero, ?_⟩)
    exact ValueType.beq_zero_of_floatKey (h ▸ ValueType.floatKey_of_beq_zero hzero)
  by_cases hnan : x.isNaN = true
  · refine .inr (.inr ⟨hnan, ?_⟩)
    exact ValueType.isNaN_of_floatKey (h ▸ ValueType.floatKey_of_isNaN hnan)
  -- the key of such a float is its bits, and no zero and no NaN has it
  have hzero' : ¬ (y == 0) = true := fun hy =>
    hzero (ValueType.beq_zero_of_floatKey (h.trans (ValueType.floatKey_of_beq_zero hy)))
  have hnan' : ¬ y.isNaN = true := fun hy =>
    hnan (ValueType.isNaN_of_floatKey (h.trans (ValueType.floatKey_of_isNaN hy)))
  rw [ValueType.floatKey_eq_toBits hzero hnan, ValueType.floatKey_eq_toBits hzero' hnan'] at h
  exact .inl (ValueType.eq_of_toBits_eq h)

theorem floatKey_of_sameNumber {x y : Float} (h : SameNumber x y) : floatKey x = floatKey y := by
  rcases h with rfl | ⟨hx, hy⟩ | ⟨hx, hy⟩
  · rfl
  · rw [ValueType.floatKey_of_beq_zero hx, ValueType.floatKey_of_beq_zero hy]
  · rw [ValueType.floatKey_of_isNaN hx, ValueType.floatKey_of_isNaN hy]

theorem forall₂_sameNumber {xs ys : List Float} :
    List.Forall₂ SameNumber xs ys ↔ xs.map floatKey = ys.map floatKey := by
  rw [← List.forall₂_eq_eq_eq, List.forall₂_map_left_iff, List.forall₂_map_right_iff]
  constructor
  · exact fun h => h.imp fun _ _ => floatKey_of_sameNumber
  · exact fun h => h.imp fun _ _ => sameNumber_of_floatKey

namespace NodeKind

/-- Kinds that are the same, or constants of one declared type with the same shape and, place by
place, the same numbers. -/
inductive Alike : NodeKind → NodeKind → Prop
  | refl (kind : NodeKind) : Alike kind kind
  | constant {v w : Tensor Float} (declared : Option ValueType) (shape : v.shape = w.shape)
    (data : List.Forall₂ SameNumber v.data w.data) :
    Alike (.constant v declared) (.constant w declared)

theorem alike_of_tensorKey {v w : Tensor Float} (h : v.key = w.key) (declared : Option ValueType) :
    Alike (.constant v declared) (.constant w declared) :=
  .constant declared (congrArg Tensor.Key.shape h)
    (forall₂_sameNumber.2 (congrArg Tensor.Key.bits h))

theorem key_of_alike {kind kind' : NodeKind} (h : Alike kind kind') (xs : List NodeId) :
    NodeKey.of? kind xs = NodeKey.of? kind' xs := by
  cases h with
  | refl => rfl
  | constant declared shape data =>
    rw [NodeKey.of?, NodeKey.of?, Tensor.key, Tensor.key, shape, forall₂_sameNumber.1 data]

/-- Nodes with one key are of the same kind and read the same nodes.  The number of inputs
matters: the key of a conversion has only the first. -/
theorem alike_of_key {kind kind' : NodeKind} {xs ys : List NodeId} {k : NodeKey}
    (hxs : kind.arity.allows xs.length = true) (hys : kind'.arity.allows ys.length = true)
    (h : NodeKey.of? kind xs = some k) (h' : NodeKey.of? kind' ys = some k) :
    Alike kind kind' ∧ xs = ys := by
  cases kind with
  | constant v declared =>
    cases h
    obtain ⟨w, rfl, hw⟩ := Graph.constant_of_key h'
    refine ⟨alike_of_tensorKey hw.symm declared, ?_⟩
    have hx : xs = [] := by simpa [arity, Arity.allows] using hxs
    have hy : ys = [] := by simpa [arity, Arity.allows] using hys
    rw [hx, hy]
  | distribution f =>
    cases h
    cases kind' <;> simp_all [NodeKey.of?]
    exact .refl _
  | operator op =>
    cases h
    cases kind' <;> simp_all [NodeKey.of?]
    exact .refl _
  | conversion c =>
    have hx : xs.length = 1 := by simpa [arity, Arity.allows] using hxs
    obtain ⟨x, rfl⟩ := List.length_eq_one_iff.1 hx
    cases h
    cases Graph.conversion_of_key h'
    have hy : ys.length = 1 := by simpa [arity, Arity.allows] using hys
    obtain ⟨y, rfl⟩ := List.length_eq_one_iff.1 hy
    cases h'
    exact ⟨.refl _, rfl⟩
  | sample | observation _ | query => cases h

end NodeKind

namespace Graph

variable {g g' : Graph} {kind : NodeKind} {xs : List NodeId} {n : Nat}

/-- An insertion comes to a node that is there and is what was to be inserted, also where the
node was made for something else and came to this by replacements. -/
theorem alike_insert (h : WellFormed g) (hi : g.insert kind xs = .ok (g', n)) :
    n < g'.count ∧ NodeKind.Alike (g'.kindOf n) kind ∧ g'.inputs n = xs := by
  obtain ⟨hxs, harity, ⟨hshared, rfl⟩ | ⟨rfl, rfl⟩⟩ := insert_eq_ok hi
  · obtain ⟨k, hk, hget⟩ := Option.bind_eq_some_iff.1 hshared
    obtain ⟨hn, hkey⟩ := h.indexed hget
    exact ⟨hn, NodeKind.alike_of_key (h.arities n hn) harity hkey hk⟩
  · rw [count_append, kindOf_append, inputs_append h, if_pos rfl, if_pos rfl]
    exact ⟨Nat.lt_succ_self _, .refl kind, rfl⟩

theorem add_result (h : (g.add kind xs).result = .ok n) :
    g.insert kind xs = .ok ((g.add kind xs).state, n) := by
  unfold add at h ⊢
  cases hi : g.insert kind xs with
  | error e => simp [hi] at h
  | ok p =>
    rw [hi] at h
    cases h
    rfl

theorem WellFormed.key_of_entry (h : WellFormed g) {k : NodeKey} (he : (k, n) ∈ g.index.entries) :
    n < g.count ∧ NodeKey.of? (g.kindOf n) (g.inputs n) = some k :=
  h.indexed (g.index.get?_eq_some_iff.2 ⟨k, beq_self_eq_true k, he⟩)

/-- **Every graph that is built is in order.**  The columns and the lists of consumers have one
entry per node; the spans lie inside the input column and those of different nodes share no
cell; every input is a node; a node is listed as a consumer as often as it reads; every entry
of the index is under the key that its node has now; and so what an addition answers with is of
the kind and reads the nodes that were asked for. -/
theorem integrity_of_built (h : Built g) :
    (g.spans.length = g.kinds.length ∧ g.types.length = g.kinds.length ∧
      g.consumers.length = g.kinds.length) ∧
    (∀ s ∈ g.spans, s.start + s.length ≤ g.cells.length) ∧
    (∀ {a b : Nat} {s t : Span}, g.spans[a]? = some s → g.spans[b]? = some t → a ≠ b →
      List.Disjoint s.cells t.cells) ∧
    (∀ x ∈ g.cells, x < g.count) ∧
    (∀ a b, (g.consumersOf a).count b = (g.inputs b).count a) ∧
    (∀ k n, (k, n) ∈ g.index.entries →
      n < g.count ∧ NodeKey.of? (g.kindOf n) (g.inputs n) = some k) ∧
    ∀ kind xs n, (g.add kind xs).result = .ok n →
      n < (g.add kind xs).state.count ∧ NodeKind.Alike ((g.add kind xs).state.kindOf n) kind ∧
        (g.add kind xs).state.inputs n = xs := by
  obtain ⟨hw, -⟩ := wellFormed_typed_of_built h
  refine ⟨⟨hw.spans_length, hw.types_length, hw.consumers_length⟩, hw.within,
    hw.apart, cells_lt_of_built h, hw.mirrored, fun k n => hw.key_of_entry, ?_⟩
  intro kind xs n hadd
  exact alike_insert hw (add_result hadd)

/-- The sum of a blend was added with the inputs 2 and 3 and has come to read 2 and 8; asked for
with these it is found, and with those it is not. -/
theorem integrity_of_built_blend :
    Built Blend.graph ∧
      (Blend.graph.add (.operator .addition) [2, 8]).result.toOption = some 4 ∧
      (Blend.graph.add (.operator .addition) [2, 3]).result.toOption = some 9 ∧
      ∀ kind xs n, (Blend.graph.add kind xs).result = .ok n →
        n < (Blend.graph.add kind xs).state.count ∧
          NodeKind.Alike ((Blend.graph.add kind xs).state.kindOf n) kind ∧
          (Blend.graph.add kind xs).state.inputs n = xs :=
  ⟨Blend.built_graph, by decide +kernel, by decide +kernel,
    (integrity_of_built Blend.built_graph).2.2.2.2.2.2⟩

end Graph

end Stochastic
