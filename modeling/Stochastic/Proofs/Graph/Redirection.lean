import Stochastic.Proofs.Graph.Index
import Stochastic.Proofs.Graph.Reload

/-!
# What becomes of an input

A pass leaves an input alone or puts one particular node in its place: the constant of the same
value with the type asked for, or the conversion of the input to this type.  It does so once at
most, since the node that is put there meets what is asked, and it never does so where the input
met what was asked before the pass.

## Main definitions

* `Insertion`, `Columns.insertion?` — what a node that stands in for another is.
* `Columns.wanted` — what is to stand in for a node where a type is asked of it.
* `Graph.Redirects` — a node has taken the place of an input.
* `Graph.Redirected` — all inputs are as they were, or a node has taken their place.
* `Graph.Corrects` — an adjustment, as it looks from the graph that the pass began with.

## Main results

* `Graph.StandsIn.insertion?` — the node that stands in is the one that is wanted.
* `Graph.redirected_adjusts`, `Graph.redirected_solve` — one adjustment, and the whole pass.
* `Graph.Redirected.redirects` — an input that meets what is asked only after the pass has been
  replaced.
-/

namespace Stochastic

theorem Conversion.target_inj {c c' : Conversion} (h : c.target = c'.target) : c = c' := by
  cases c <;> cases c' <;> first | rfl | cases h

/-- A node that stands in for another: a conversion of it, or a constant with a declared type. -/
inductive Insertion where
  | conversion (source : NodeId) (target : ValueType)
  | constant (value : Tensor.Key) (declared : ValueType)
  deriving DecidableEq, Repr

namespace Insertion

/-- The type that the node carries. -/
def type : Insertion → ValueType
  | .conversion _ t => t
  | .constant _ t => t

/-- The nodes that stand in for others, by their keys. -/
def ofKey? : NodeKey → Option Insertion
  | .constant (some t) value => some (.constant value t)
  | .conversion c x => some (.conversion x c.target)
  | _ => none

theorem ofKey?_inj {k k' : NodeKey} {w : Insertion} (h : ofKey? k = some w)
    (h' : ofKey? k' = some w) : k = k' := by
  unfold ofKey? at h h'
  split at h
  · obtain rfl := Option.some.inj h
    split at h' <;> simp_all
  · obtain rfl := Option.some.inj h
    split at h'
    · simp at h'
    · obtain ⟨hx, htarget⟩ : _ ∧ _ := by simpa using h'
      rw [hx, Conversion.target_inj htarget]
    · cases h'
  · cases h

end Insertion

namespace Columns

variable {c : Columns} {n x slot : Nat} {t : ValueType} {w : Insertion}

/-- What a node is, if it can stand in for another. -/
def insertion? (c : Columns) (n : NodeId) : Option Insertion :=
  match c.kindOf n, c.inputs n with
  | .constant value (some t), _ => some (.constant value.key t)
  | .conversion conv, x :: _ => some (.conversion x conv.target)
  | _, _ => none

/-- What is to stand in for a node where it should be of another type: a constant is declared to
be of this type, and any other node is converted to it. -/
def wanted (c : Columns) (x : NodeId) (t : ValueType) : Insertion :=
  match c.kindOf x with
  | .constant value _ => .constant value.key t
  | _ => .conversion x t

theorem wanted_of_constant {value : Tensor Float} {declared : Option ValueType}
    (h : c.kindOf x = .constant value declared) : c.wanted x t = .constant value.key t := by
  rw [wanted, h]

theorem wanted_of_ne_constant (h : ∀ value declared, c.kindOf x ≠ .constant value declared) :
    c.wanted x t = .conversion x t := by
  unfold wanted
  split
  · rename_i value declared hk
    exact absurd hk (h value declared)
  · rfl

theorem type_wanted : (c.wanted x t).type = t := by
  unfold wanted
  split <;> rfl

/-- What stands in for others can be told by its key. -/
theorem insertion?_eq : c.insertion? n = (c.keyOf? n).bind Insertion.ofKey? := by
  unfold insertion? keyOf?
  cases hk : c.kindOf n with
  | constant value declared => cases declared <;> rfl
  | conversion conv => cases c.inputs n <;> rfl
  | _ => rfl

/-- A node that can stand in for another is a conversion or a typed constant. -/
theorem kindOf_of_insertion? (h : c.insertion? n = some w) :
    (∃ conv, c.kindOf n = .conversion conv ∧ conv.target = w.type) ∨
      ∃ value, c.kindOf n = .constant value (some w.type) := by
  unfold insertion? at h
  split at h
  · rename_i hk
    cases h
    exact .inr ⟨_, hk⟩
  · rename_i hk _
    cases h
    exact .inl ⟨_, hk, rfl⟩
  · cases h

/-- A node that asks for a type cannot stand in for another. -/
theorem insertion?_eq_none (h : (c.requirements n)[slot]? = some (.exact t)) :
    c.insertion? n = none := by
  rw [Option.eq_none_iff_forall_ne_some]
  intro w hw
  unfold requirements at h
  rcases kindOf_of_insertion? hw with ⟨conv, hk, -⟩ | ⟨value, hk⟩
  · rw [hk, NodeKind.requirements, List.getElem?_map] at h
    cases hs : (c.inputTypes n)[slot]? <;> simp [hs] at h
  · simp [hk, NodeKind.requirements] at h

end Columns

namespace Graph

variable {base g g' g₁ : Graph} {n m x slot : Nat} {t : ValueType} {required : Requirement}
variable {w : Insertion}

theorem carried_of_insertion? (ht : Typed g) (hn : n < g.count) (h : g.insertion? n = some w) :
    g.carried n = w.type := by
  unfold Columns.carried
  rcases Columns.kindOf_of_insertion? h with ⟨conv, hk, htarget⟩ | ⟨value, hk⟩
  · rw [ht.eq hn, inferred, hk]
    exact htarget
  · rw [hk]
    rfl

/-- A node that stands in is found or added under the key of what is wanted. -/
theorem StandsIn.exists_key (hs : StandsIn g x t g₁ m) : ∃ kind xs k,
    g.insert kind xs = .ok (g₁, m) ∧ NodeKey.of? kind xs = some k ∧
      Insertion.ofKey? k = some (g.wanted x t) := by
  cases hs with
  | constant hx hi => exact ⟨_, _, _, hi, rfl, by rw [Columns.wanted_of_constant hx]; rfl⟩
  | conversion hc hi hx =>
    exact ⟨_, _, _, hi, rfl, by rw [Columns.wanted_of_ne_constant hx, ← hc]; rfl⟩

/-- **The node that stands in is the one that is wanted.** -/
theorem StandsIn.insertion? (hs : StandsIn g x t g₁ m) (h : WellFormed g) :
    g₁.insertion? m = some (g.wanted x t) := by
  obtain ⟨kind, xs, k, hi, hk, hwanted⟩ := hs.exists_key
  have hkey : g₁.keyOf? m = NodeKey.of? kind xs := (key_insert h hi).2
  rw [Columns.insertion?_eq, hkey, hk]
  exact hwanted

/-! ## One adjustment -/

/-- A node asks for a type at a slot, its input there does not have it, and the node that is
wanted has taken the place of the input. -/
structure Redirects (base g : Graph) (n : NodeId) (slot : Nat) (x : NodeId) (t : ValueType)
    (m : NodeId) : Prop where
  required : (base.requirements n)[slot]? = some (.exact t)
  unmet : ¬ (Requirement.exact t).satisfied (base.carried x) (base.typeOf x) = true
  input : (g.inputs n)[slot]? = some m
  insertion : g.insertion? m = some (base.wanted x t)

/-- A graph in the middle of a pass over another one: each input is as it was, or the node that
is wanted has taken its place. -/
structure Redirected (base g : Graph) : Prop where
  underway : Underway base g
  inserted : Inserted base.count g
  edges : ∀ {n slot x : Nat}, (base.inputs n)[slot]? = some x →
    (g.inputs n)[slot]? = some x ∨ ∃ t m, Redirects base g n slot x t m

theorem Redirected.refl (h : WellFormed g) (ht : Typed g) : Redirected g g where
  underway := .refl h ht
  inserted :=
    ⟨fun _ ha hge => absurd ha (Nat.not_lt.2 hge), fun _ ha hge => absurd ha (Nat.not_lt.2 hge)⟩
  edges hx := .inl hx

/-- A node has as many inputs as before the pass. -/
theorem Underway.length_inputs (hu : Underway base g) (hb : WellFormed base) (hn : n < base.count) :
    (g.inputs n).length = (base.inputs n).length := by
  rw [← length_requirements hu.wellFormed (Nat.lt_of_lt_of_le hn hu.count_le),
    hu.requirements n hn, length_requirements hb hn]

/-- An adjustment is for a node that was there before the pass, and for the input that it had
then: what has taken the place of an input meets what is asked. -/
theorem Redirected.first (hb : WellFormed base) (h : Redirected base g)
    (hx : (g.inputs n)[slot]? = some x) (hrequired : (g.requirements n)[slot]? = some (.exact t))
    (hunmet : ¬ (Requirement.exact t).satisfied (g.carried x) (g.typeOf x) = true) :
    n < base.count ∧ (base.inputs n)[slot]? = some x := by
  have hw := h.underway.wellFormed
  have hn : n < base.count := by
    by_contra hge
    exact h.inserted.asks n (hw.lt_of_mem_inputs (List.mem_of_getElem? hx)) (Nat.not_lt.1 hge) slot
      t hrequired
  refine ⟨hn, ?_⟩
  obtain ⟨hslot, -⟩ := List.getElem?_eq_some_iff.1 hx
  rw [h.underway.length_inputs hb hn] at hslot
  have hy := List.getElem?_eq_getElem hslot
  rcases h.edges hy with hsame | ⟨t', m, hr⟩
  · rw [hy, ← hx, hsame]
  · exfalso
    cases hx.symm.trans hr.input
    rw [h.underway.requirements n hn, hr.required] at hrequired
    cases hrequired
    have hcarried := carried_of_insertion? h.underway.typed
      (hw.input_lt (List.mem_of_getElem? hx)) hr.insertion
    rw [Columns.type_wanted] at hcarried
    exact hunmet (by simp [Requirement.satisfied, hcarried])

/-- An adjustment does not change what can stand in for others: the node whose input is replaced
asks for a type. -/
theorem insertion?_rewire (h : WellFormed g) (hr : g.rewire n slot m = .ok g')
    (hrequired : (g.requirements n)[slot]? = some (.exact t))
    (hrequired' : (g'.requirements n)[slot]? = some (.exact t)) (a : Nat) :
    g'.insertion? a = g.insertion? a := by
  by_cases ha : a = n
  · subst ha
    rw [Columns.insertion?_eq_none hrequired, Columns.insertion?_eq_none hrequired']
  · rw [Columns.insertion?_eq, Columns.insertion?_eq, keyOf?_rewire h hr ha]

theorem insertion?_insert {kind : NodeKind} {xs : List NodeId} (h : WellFormed g)
    (hi : g.insert kind xs = .ok (g', m)) (hn : n < g.count) :
    g'.insertion? n = g.insertion? n := by
  obtain ⟨hkind, -, hinputs⟩ := same_insert h hi hn
  unfold Columns.insertion?
  rw [hkind, hinputs]

/-- What an adjustment does to the nodes that can stand in for others: those that were there are
what they were, and one is there that is wanted. -/
theorem StandsIn.insertions (hs : StandsIn g x t g₁ m) (h : WellFormed g) (ht : Typed g)
    (hx : (g.inputs n)[slot]? = some x) (hrequired : (g.requirements n)[slot]? = some (.exact t))
    (hle : g.typeOf x ≤ t) (hr : g₁.rewire n slot m = .ok g') :
    (∀ a < g.count, g'.insertion? a = g.insertion? a) ∧
      g'.insertion? m = some (g.wanted x t) := by
  have hn := h.lt_of_mem_inputs (List.mem_of_getElem? hx)
  have hrep := hs.replaced h ht hx hrequired hle hr
  have hfirst := (hrep.first.requirements n hn).symm ▸ hrequired
  have hsecond : (g'.requirements n)[slot]? = some (.exact t) := by
    rw [hrep.second.requirements n (Nat.lt_of_lt_of_le hn hrep.first.count_le)]
    exact hfirst
  have hsame := insertion?_rewire hrep.first.wellFormed hr hfirst hsecond
  obtain ⟨kind, xs, hi⟩ := hs.exists_insert
  exact ⟨fun a ha => (hsame a).trans (insertion?_insert h hi ha), (hsame m).trans (hs.insertion? h)⟩

/-- An adjustment in the middle of a pass, as it looks from the graph that the pass began with: a
node that was there is given the node that is wanted, in place of an input that it had and that
did not meet what was asked. -/
structure Corrects (base g g₁ g' : Graph) (n : NodeId) (slot : Nat) (x : NodeId) (t : ValueType)
    (m : NodeId) : Prop where
  lt : n < base.count
  input : (base.inputs n)[slot]? = some x
  current : (g.inputs n)[slot]? = some x
  required : (base.requirements n)[slot]? = some (.exact t)
  unmet : ¬ (Requirement.exact t).satisfied (base.carried x) (base.typeOf x) = true
  standsIn : StandsIn g x t g₁ m
  rewired : g₁.rewire n slot m = .ok g'
  replaced : Replaced g g₁ g' n slot m
  kept : ∀ a < g.count, g'.insertion? a = g.insertion? a
  wanted : g.wanted x t = base.wanted x t
  insertion : g'.insertion? m = some (base.wanted x t)

theorem Redirected.exists_corrects (hb : WellFormed base) (h : Redirected base g)
    (ha : Adjusts g g') : ∃ g₁ n slot x t m, Corrects base g g₁ g' n slot x t m := by
  obtain ⟨hx, hrequired, hunmet, hle, hs, hr⟩ := ha
  rename_i g₁ n slot x m t
  have hu := h.underway
  obtain ⟨hn, hxbase⟩ := h.first hb hx hrequired hunmet
  have hxlt := hb.input_lt (List.mem_of_getElem? hxbase)
  have hwanted : g.wanted x t = base.wanted x t := by
    rw [Columns.wanted, Columns.wanted, hu.kindOf x hxlt]
  obtain ⟨hkept, hm⟩ := hs.insertions hu.wellFormed hu.typed hx hrequired hle hr
  refine ⟨g₁, n, slot, x, t, m, hn, hxbase, hx, ?_, ?_, hs, hr,
    hs.replaced hu.wellFormed hu.typed hx hrequired hle hr, hkept, hwanted, hwanted ▸ hm⟩
  · rwa [← hu.requirements n hn]
  · rwa [← hu.carried hxlt, ← hu.typeOf x hxlt]

theorem redirected_adjusts (hb : WellFormed base) (hred : Redirected base g)
    (ha : Adjusts g g') : Redirected base g' := by
  obtain ⟨g₁, n, slot, x, t, m, hc⟩ := hred.exists_corrects hb ha
  have hu := hred.underway
  have hrep := hc.replaced
  have hadv := hrep.first.trans hrep.second (Nat.lt_of_lt_of_le hc.lt hu.count_le)
  refine ⟨hu.advance hadv, inserted_adjusts hu.wellFormed hu.typed hred.inserted ha, ?_⟩
  intro b slot' y hy
  by_cases hedge : b = n ∧ slot' = slot
  · -- the input at hand, which has not been replaced before
    obtain ⟨rfl, rfl⟩ := hedge
    cases hy.symm.trans hc.input
    obtain ⟨hslot, -⟩ := List.getElem?_eq_some_iff.1 hc.current
    refine .inr ⟨t, m, hc.required, hc.unmet, ?_, hc.insertion⟩
    rw [hrep.inputs, List.getElem?_set_self hslot]
  · -- any other input is what it was
    have hsame : (g'.inputs b)[slot']? = (g.inputs b)[slot']? := by
      by_cases hbn : b = n
      · subst hbn
        have hslot : slot ≠ slot' := fun heq => hedge ⟨rfl, heq.symm⟩
        rw [hrep.inputs, List.getElem?_set_ne hslot]
      · have hblt := hb.lt_of_mem_inputs (List.mem_of_getElem? hy)
        rw [hadv.inputs b (Nat.lt_of_lt_of_le hblt hu.count_le) hbn]
    rw [hsame]
    refine (hred.edges hy).imp_right ?_
    rintro ⟨t', m', hr⟩
    have hm' := hu.wellFormed.input_lt (List.mem_of_getElem? hr.input)
    exact ⟨t', m', hr.required, hr.unmet, hsame.trans hr.input,
      (hc.kept m' hm').trans hr.insertion⟩

/-! ## A whole pass -/

/-- **A pass leaves each input as it was, or puts the node that is wanted in its place**, however
it ends. -/
theorem redirected_solve (h : WellFormed g) (ht : Typed g) : Redirected g (solve g).state :=
  (solve_keeps h ht (.refl h ht) fun _ _ hred ha => redirected_adjusts h hred ha).2.2

/-- An input that does not meet what is asked, at a slot where the input meets it later, has been
replaced. -/
theorem Redirected.redirects (hb : WellFormed base) (h : Redirected base g)
    (hx : (base.inputs n)[slot]? = some x) (hrequired : (base.requirements n)[slot]? = some required)
    (hunmet : ¬ required.satisfied (base.carried x) (base.typeOf x) = true)
    (hmeets : g.MeetsAt n slot) : ∃ m, Redirects base g n slot x required.target m := by
  have hxlt := hb.input_lt (List.mem_of_getElem? hx)
  have hn := hb.lt_of_mem_inputs (List.mem_of_getElem? hx)
  rcases h.edges hx with hsame | ⟨t, m, hr⟩
  · have hmet := hmeets x required hsame (by rw [h.underway.requirements n hn]; exact hrequired)
    rw [h.underway.carried hxlt, h.underway.typeOf x hxlt] at hmet
    exact absurd hmet hunmet
  · cases hrequired.symm.trans hr.required
    exact ⟨m, hr⟩

end Graph

end Stochastic
