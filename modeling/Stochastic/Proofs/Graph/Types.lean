import Mathlib.Data.Finset.Card
import Mathlib.Data.Finset.Filter
import Mathlib.Logic.Relation
import Stochastic.Proofs.Graph.WellFormed

/-!
# Types that are up to date

The type of every node of a graph is the one that follows from the types of its inputs.  A new
node is typed when it is added.  After a replacement types are inferred again in rounds, and a
node that is not looked at in a round has the right type unless one of its inputs was changed
in that round, in which case the next round looks at it.  The nodes of a round have more
ancestors than those of the round before, so in a graph without cycles the rounds come to an
end before they run out.

## Main definitions

* `Graph.Feeds`, `Graph.Acyclic` — which node reads which, and that none reads itself through
  others.
* `Graph.Typed`, `Graph.TypedBut` — all types are right, or all but those of some nodes.
* `Graph.Built` — the graphs made by adding nodes and by replacing inputs without making a
  cycle.

## Main results

* `Graph.typed_refresh` — inferring types again makes them right.
* `Graph.rewire_eq_ok` — when a replacement succeeds, and what it comes to.
* `Graph.wellFormed_typed_of_built` — graphs that are built fit together and are typed.
-/

namespace Stochastic.Graph

variable {g g' : Graph} {kind : NodeKind} {xs : List NodeId} {n m x start : Nat}

/-! ## Cycles -/

/-- Whether a node is an input of another. -/
def Feeds (g : Graph) (a b : NodeId) : Prop := a ∈ g.inputs b

/-- No node reads itself, directly or through others. -/
def Acyclic (g : Graph) : Prop := ∀ n, ¬ Relation.TransGen g.Feeds n n

open Classical in
/-- The nodes that a node reads, directly or through others. -/
noncomputable def ancestors (g : Graph) (n : NodeId) : Finset Nat :=
  (Finset.range g.count).filter fun a => Relation.TransGen g.Feeds a n

theorem mem_ancestors : m ∈ g.ancestors n ↔ m < g.count ∧ Relation.TransGen g.Feeds m n := by
  simp [ancestors]

/-- An input has fewer ancestors than the node that reads it. -/
theorem card_ancestors_lt (h : Acyclic g) (hm : m < g.count) (hmn : m ∈ g.inputs n) :
    (g.ancestors m).card < (g.ancestors n).card := by
  apply Finset.card_lt_card
  refine Finset.ssubset_iff_subset_ne.2 ⟨?_, ?_⟩
  · intro a ha
    obtain ⟨hlt, ham⟩ := mem_ancestors.1 ha
    exact mem_ancestors.2 ⟨hlt, ham.tail hmn⟩
  · intro heq
    have hself : m ∈ g.ancestors m := heq ▸ mem_ancestors.2 ⟨hm, .single hmn⟩
    exact h m (mem_ancestors.1 hself).2

theorem card_ancestors_lt_count (h : Acyclic g) (hn : n < g.count) :
    (g.ancestors n).card < g.count := by
  have hsub : g.ancestors n ⊂ Finset.range g.count := by
    refine Finset.ssubset_iff_subset_ne.2 ⟨?_, ?_⟩
    · exact fun a ha => Finset.mem_range.2 (mem_ancestors.1 ha).1
    · intro heq
      have hself : n ∈ g.ancestors n := heq ▸ Finset.mem_range.2 hn
      exact h n (mem_ancestors.1 hself).2
  simpa using Finset.card_lt_card hsub

/-- A graph has no cycles if every node with a span ranks above its inputs. -/
theorem acyclic_of_spans (rank : Nat → Nat)
    (h : ∀ n < g.spans.length, ∀ x ∈ g.inputs n, rank x < rank n) : Acyclic g := by
  have hfeeds : ∀ {a b}, g.Feeds a b → rank a < rank b := by
    intro a b hab
    by_cases hb : b < g.spans.length
    · exact h b hb a hab
    · rw [Feeds, inputs_eq_nil (Nat.not_lt.1 hb)] at hab
      cases hab
  have hlt : ∀ {a b}, Relation.TransGen g.Feeds a b → rank a < rank b := by
    intro a b hab
    induction hab with
    | single hab => exact hfeeds hab
    | tail _ hab ih => exact ih.trans (hfeeds hab)
  exact fun n hn => Nat.lt_irrefl _ (hlt hn)

theorem acyclic_of_rank (rank : Nat → Nat) (h : ∀ n < g.count, ∀ x ∈ g.inputs n, rank x < rank n)
    (hg : Consistent g) : Acyclic g :=
  acyclic_of_spans rank (hg.spans_length ▸ h)

/-! ## Types -/

/-- The types of all nodes, except possibly for some, follow from those of their inputs. -/
def TypedBut (g : Graph) (pending : List NodeId) : Prop :=
  ∀ n < g.count, n ∉ pending → g.typeOf n = g.inferred n

/-- The types of all nodes follow from those of their inputs. -/
def Typed (g : Graph) : Prop := g.TypedBut []

theorem Typed.eq (h : Typed g) (hn : n < g.count) : g.typeOf n = g.inferred n :=
  h n hn List.not_mem_nil

/-- The inferred type of a node depends on its kind and on the types of its inputs. -/
theorem inferred_congr (hkind : g'.kindOf n = g.kindOf n) (hinputs : g'.inputs n = g.inputs n)
    (htypes : ∀ x ∈ g.inputs n, g'.typeOf x = g.typeOf x) : g'.inferred n = g.inferred n := by
  unfold inferred Columns.inputTypes
  rw [hkind, hinputs, List.map_congr_left htypes]

theorem typed_append (h : WellFormed g) (ht : Typed g) (hxs : ∀ x ∈ xs, x < g.count) :
    Typed (g.append kind xs) := by
  -- the types of all nodes that were there are kept, and all inputs are such nodes
  have htypes : ∀ x < g.count, (g.append kind xs).typeOf x = g.typeOf x := by
    intro x hx
    rw [typeOf_append h, if_neg (Nat.ne_of_lt hx)]
  intro n hn _
  by_cases hcount : n = g.count
  · unfold inferred Columns.inputTypes
    rw [typeOf_append h, kindOf_append, inputs_append h, if_pos hcount, if_pos hcount,
      if_pos hcount, List.map_congr_left fun x hx => htypes x (hxs x hx)]
  · rw [count_append] at hn
    have hlt : n < g.count := by omega
    have hinferred : (g.append kind xs).inferred n = g.inferred n := by
      apply inferred_congr
      · rw [kindOf_append, if_neg hcount]
      · rw [inputs_append h, if_neg hcount]
      · exact fun x hx => htypes x (h.input_lt hx)
    rw [htypes n hlt, hinferred, ht.eq hlt]

/-! ## Inferring types again -/

/-- A graph that differs from another in its types only. -/
def Retyped (g g' : Graph) : Prop :=
  ∃ ts, ts.length = g.types.length ∧ g' = { g with types := ts }

theorem Retyped.refl (g : Graph) : Retyped g g := ⟨g.types, rfl, rfl⟩

theorem Retyped.trans {g₁ g₂ g₃ : Graph} (h₁ : Retyped g₁ g₂) (h₂ : Retyped g₂ g₃) :
    Retyped g₁ g₃ := by
  obtain ⟨ts, hts, rfl⟩ := h₁
  obtain ⟨us, hus, rfl⟩ := h₂
  exact ⟨us, hus.trans hts, rfl⟩

theorem Retyped.consistent (h : Retyped g g') (hg : Consistent g) : Consistent g' := by
  obtain ⟨ts, hts, rfl⟩ := h
  exact hg.withTypes hts

theorem Retyped.wellFormed (h : Retyped g g') (hg : WellFormed g) : WellFormed g' := by
  refine ⟨h.consistent hg.toConsistent, ?_⟩
  obtain ⟨ts, -, rfl⟩ := h
  exact hg.apart

theorem Retyped.inputs (h : Retyped g g') (n : Nat) : g'.inputs n = g.inputs n := by
  obtain ⟨ts, -, rfl⟩ := h
  rfl

theorem Retyped.kindOf (h : Retyped g g') (n : Nat) : g'.kindOf n = g.kindOf n := by
  obtain ⟨ts, -, rfl⟩ := h
  rfl

theorem Retyped.kinds (h : Retyped g g') : g'.kinds = g.kinds := by
  obtain ⟨ts, -, rfl⟩ := h
  rfl

theorem Retyped.count (h : Retyped g g') : g'.count = g.count := congrArg List.length h.kinds

/-- Cycles do not depend on types. -/
theorem Retyped.acyclic_iff (h : Retyped g g') : Acyclic g' ↔ Acyclic g := by
  obtain ⟨ts, -, rfl⟩ := h
  rfl

theorem retyped_foldl_refreshNode (start : Nat) (round : List NodeId) (s : Graph × List NodeId) :
    Retyped s.1 (round.foldl (refreshNode start) s).1 := by
  induction round generalizing s with
  | nil => exact .refl s.1
  | cons n round ih =>
    refine .trans ?_ (ih (refreshNode start s n))
    unfold refreshNode
    dsimp only
    split
    · exact ⟨_, List.length_set, rfl⟩
    · exact .refl s.1

/-- Inferring types again changes nothing but types. -/
theorem retyped_refresh (start rounds : Nat) (g : Graph) (round : List NodeId) :
    Retyped g (refresh start rounds g round) := by
  induction rounds generalizing g round with
  | zero => exact .refl g
  | succ rounds ih =>
    unfold refresh
    split
    · exact .refl g
    · exact (retyped_foldl_refreshNode start round (g, [])).trans (ih _ _)

/-- The type of a node set to the inferred one is right, and so are those of all nodes that do
not read it and had the right type. -/
theorem typedBut_setType {rest next : List NodeId} (h : Consistent g)
    (ht : TypedBut g (n :: (rest ++ next))) :
    TypedBut { g with types := g.types.set n (g.inferred n) }
      (rest ++ (next ++ g.consumersOf n)) := by
  intro m hm hmem
  -- a node that is not put off does not read the node whose type is set
  have hnot : n ∉ g.inputs m := by
    rw [← h.mem_consumersOf]
    intro hcons
    exact hmem (by simp [hcons])
  have htypes : ∀ x, x ≠ n →
      ({ g with types := g.types.set n (g.inferred n) } : Graph).typeOf x = g.typeOf x := by
    intro x hx
    simp [Columns.typeOf, List.getElem?_set_ne (Ne.symm hx)]
  have hinferred :
      ({ g with types := g.types.set n (g.inferred n) } : Graph).inferred m = g.inferred m :=
    inferred_congr rfl rfl fun x hx => htypes x (ne_of_mem_of_not_mem hx hnot)
  rw [hinferred]
  by_cases hmn : m = n
  · subst hmn
    have hlt : m < g.types.length := h.types_length ▸ hm
    simp [Columns.typeOf, hlt]
  · rw [htypes m hmn]
    exact ht m hm (by simp_all)

/-- Looking at one node.  What may not have the right type any more is put off to the next
round. -/
theorem refreshNode_spec (start : Nat) (h : Consistent g) (next : List NodeId) (n : Nat) :
    ∃ g' next', refreshNode start (g, next) n = (g', next') ∧ Retyped g g' ∧
      (∀ m ∈ next', m ∈ next ∨ n ∈ g.inputs m) ∧
      ∀ rest, TypedBut g (n :: (rest ++ next)) → TypedBut g' (rest ++ next') := by
  by_cases hc : g.inferred n ≠ g.typeOf n ∨ n = start
  · refine ⟨_, _, if_pos hc, ⟨_, List.length_set, rfl⟩, ?_, fun rest => typedBut_setType h⟩
    intro m hm
    rw [List.mem_append, h.mem_consumersOf] at hm
    exact hm
  · refine ⟨_, _, if_neg hc, .refl g, fun m hm => .inl hm, ?_⟩
    intro rest ht m hm hmem
    by_cases hmn : m = n
    · subst hmn
      by_contra hne
      exact hc (.inl (Ne.symm hne))
    · exact ht m hm (by simp_all)

/-- After a round the types are right but for those of the nodes of the next round, each of
which reads a node of this one. -/
theorem refresh_round (start : Nat) (h : Consistent g) (round next : List NodeId) :
    ∃ g' next', round.foldl (refreshNode start) (g, next) = (g', next') ∧ Retyped g g' ∧
      (∀ m ∈ next', m ∈ next ∨ ∃ n ∈ round, n ∈ g.inputs m) ∧
      (TypedBut g (round ++ next) → TypedBut g' next') := by
  induction round generalizing g next with
  | nil => exact ⟨g, next, rfl, .refl g, fun m hm => .inl hm, id⟩
  | cons n round ih =>
    obtain ⟨g₁, next₁, heq, hre, hnext, htyped⟩ := refreshNode_spec start h next n
    obtain ⟨g₂, next₂, heq₂, hre₂, hnext₂, htyped₂⟩ := ih (hre.consistent h) next₁
    refine ⟨g₂, next₂, by rw [List.foldl_cons, heq, heq₂], hre.trans hre₂, ?_,
      fun ht => htyped₂ (htyped round ht)⟩
    intro m hm
    rcases hnext₂ m hm with hm | ⟨a, ha, ham⟩
    · rcases hnext m hm with hm | hm
      · exact .inl hm
      · exact .inr ⟨n, List.mem_cons_self, hm⟩
    · exact .inr ⟨a, List.mem_cons_of_mem _ ha, hre.inputs m ▸ ham⟩

theorem refresh_nil (start rounds : Nat) (g : Graph) : refresh start rounds g [] = g := by
  cases rounds <;> rfl

theorem refresh_succ (start rounds : Nat) (g : Graph) (round : List NodeId) :
    refresh start (rounds + 1) g round =
      refresh start rounds (round.foldl (refreshNode start) (g, [])).1
        (round.foldl (refreshNode start) (g, [])).2 := by
  cases round with
  | nil => exact (refresh_nil start rounds g).symm
  | cons n round => rfl

/-- No node has as many ancestors as there are nodes. -/
theorem eq_nil_of_count_le (hac : Acyclic g) {round : List NodeId}
    (hround : ∀ m ∈ round, m < g.count ∧ g.count ≤ (g.ancestors m).card) : round = [] := by
  apply List.eq_nil_iff_forall_not_mem.2
  intro m hm
  obtain ⟨hlt, hcard⟩ := hround m hm
  have := card_ancestors_lt_count hac hlt
  omega

/-- The nodes of a round have more ancestors than those of the round before. -/
theorem ancestors_next (h : Consistent g) (hac : Acyclic g) {k : Nat} {round next : List NodeId}
    (hround : ∀ m ∈ round, m < g.count ∧ k ≤ (g.ancestors m).card)
    (hnext : ∀ m ∈ next, m ∈ [] ∨ ∃ n ∈ round, n ∈ g.inputs m) :
    ∀ m ∈ next, m < g.count ∧ k + 1 ≤ (g.ancestors m).card := by
  intro m hm
  rcases hnext m hm with hm | ⟨a, ha, ham⟩
  · cases hm
  · refine ⟨h.lt_of_mem_inputs ham, ?_⟩
    exact Nat.lt_of_le_of_lt (hround a ha).2 (card_ancestors_lt hac (hround a ha).1 ham)

/-- Types are inferred again until they are right.  The nodes of the `k`-th round have at least
`k` ancestors, so there is none left after as many rounds as there are nodes. -/
theorem typed_refresh (h : Consistent g) (hac : Acyclic g) (rounds k : Nat) (round : List NodeId)
    (hk : rounds + k = g.count) (ht : TypedBut g round)
    (hround : ∀ m ∈ round, m < g.count ∧ k ≤ (g.ancestors m).card) :
    Typed (refresh start rounds g round) := by
  induction rounds generalizing g k round with
  | zero =>
    obtain rfl : k = g.count := by omega
    obtain rfl := eq_nil_of_count_le hac hround
    exact ht
  | succ rounds ih =>
    obtain ⟨_, next, heq, ⟨ts, hts, rfl⟩, hnext, htyped⟩ := refresh_round start h round []
    have hk' : rounds + (k + 1) = g.count := by omega
    rw [refresh_succ, heq]
    exact ih (h.withTypes hts) hac (k + 1) next hk' (htyped (by simpa using ht))
      (ancestors_next h hac hround hnext)

theorem foldl_refreshNode_of_typed (start : Nat) (h : Consistent g) (ht : Typed g)
    (round next : List NodeId) :
    ∃ next', round.foldl (refreshNode start) (g, next) = (g, next') := by
  induction round generalizing next with
  | nil => exact ⟨next, rfl⟩
  | cons n round ih =>
    -- the type that is set is the one that is there
    have hset : g.types.set n (g.inferred n) = g.types := by
      by_cases hn : n < g.count
      · have hlt : n < g.types.length := h.types_length ▸ hn
        rw [← ht.eq hn]
        simp [Columns.typeOf, hlt]
      · exact List.set_eq_of_length_le (h.types_length ▸ Nat.le_of_not_lt hn)
    rw [List.foldl_cons]
    unfold refreshNode
    by_cases hc : g.inferred n ≠ g.typeOf n ∨ n = start
    · simp only [if_pos hc, hset]
      exact ih _
    · simp only [if_neg hc]
      exact ih _

/-- Inferring types again changes nothing in a graph whose types are right. -/
theorem refresh_of_typed (start rounds : Nat) (h : Consistent g) (ht : Typed g)
    (round : List NodeId) : refresh start rounds g round = g := by
  induction rounds generalizing round with
  | zero => rfl
  | succ rounds ih =>
    obtain ⟨next, heq⟩ := foldl_refreshNode_of_typed start h ht round []
    rw [refresh_succ, heq]
    exact ih next

/-! ## Replacing an input -/

variable {c r slot : Nat}

/-- A replacement succeeds if there is such a slot and such a node. -/
theorem rewire_eq_ok (h : Consistent g) :
    g.rewire c slot r = .ok g' ↔ slot < (g.inputs c).length ∧ r < g.count ∧
      g' = refresh c g.count (g.rewired c slot r) [c] := by
  unfold rewire
  by_cases hc : g.count ≤ c
  · simp [hc, inputs_eq_nil (h.spans_length ▸ hc)]
  by_cases hr : g.count ≤ r
  · simp [hc, hr, Nat.not_lt.2 hr]
  have hlt : c < g.spans.length := by rw [h.spans_length]; omega
  have hs : g.spans[c]? = some g.spans[c] := List.getElem?_eq_getElem hlt
  have hlength : (g.inputs c).length = g.spans[c].length := by
    have hle := h.within _ (List.getElem_mem hlt)
    rw [inputs_of_span hs, Columns.slice, List.length_take, List.length_drop]
    omega
  rw [if_neg hc, if_neg hr, hlength, rewired, hs]
  by_cases hslot : g.spans[c].length ≤ slot
  · simp [hslot, Nat.not_lt.2 hslot]
  · simp only [Option.getD_some, if_neg hslot, Except.ok.injEq]
    constructor
    · intro hg'
      exact ⟨by omega, by omega, hg'.symm⟩
    · exact fun hg' => hg'.2.2.symm

theorem kinds_rewire (hr : g.rewire c slot r = .ok g') : g'.kinds = g.kinds := by
  unfold rewire at hr
  split at hr
  · cases hr
  split at hr
  · cases hr
  dsimp only at hr
  split at hr
  · cases hr
  · cases hr
    exact (retyped_refresh c _ _ [c]).kinds

/-- Inferring types again after a replacement makes them right, unless there is a cycle. -/
theorem typed_refresh_rewired (h : Consistent g) (ht : Typed g)
    (hslot : slot < (g.inputs c).length) (hr : r < g.count)
    (hinputs : ∀ n, (g.rewired c slot r).inputs n =
      if n = c then (g.inputs c).set slot r else g.inputs n)
    (hac : Acyclic (refresh c g.count (g.rewired c slot r) [c])) :
    Typed (refresh c g.count (g.rewired c slot r) [c]) := by
  have hg := consistent_rewired h hslot hr hinputs
  have hre := retyped_refresh c g.count (g.rewired c slot r) [c]
  -- there were no cycles when types began to be inferred
  apply typed_refresh hg (hre.acyclic_iff.1 hac) g.count 0 [c] rfl
  · intro n hn hmem
    rw [List.mem_singleton] at hmem
    rw [typeOf_rewired, ht.eq hn]
    symm
    apply inferred_congr
    · exact kindOf_rewired
    · rw [hinputs, if_neg hmem]
    · exact fun x _ => typeOf_rewired
  · intro m hm
    rw [List.mem_singleton] at hm
    subst hm
    exact ⟨h.lt_of_mem_inputs (List.getElem_mem hslot), Nat.zero_le _⟩

/-- Replacing an input leaves the types right, unless it makes a cycle. -/
theorem typed_rewire (h : WellFormed g) (ht : Typed g) (hr : g.rewire c slot r = .ok g')
    (hac : Acyclic g') : Typed g' := by
  obtain ⟨hslot, hrc, rfl⟩ := (rewire_eq_ok h.toConsistent).1 hr
  exact typed_refresh_rewired h.toConsistent ht hslot hrc (inputs_rewired h hslot) hac

theorem wellFormed_rewire (h : WellFormed g) (hr : g.rewire c slot r = .ok g') :
    WellFormed g' := by
  obtain ⟨hslot, hrc, rfl⟩ := (rewire_eq_ok h.toConsistent).1 hr
  have hw := wellFormed_rewired h hslot hrc
  exact (retyped_refresh c g.count _ [c]).wellFormed hw

theorem typed_insert (h : WellFormed g) (ht : Typed g) (hi : g.insert kind xs = .ok (g', n)) :
    Typed g' := by
  obtain ⟨hxs, -, ⟨-, rfl⟩ | ⟨-, rfl⟩⟩ := insert_eq_ok hi
  · exact ht
  · exact typed_append h ht hxs

/-! ## Graphs that are built -/

/-- The graphs made from the empty one by adding nodes and by replacing inputs without making a
cycle.  An addition that fails leaves the graph as it was. -/
inductive Built : Graph → Prop
  | empty : Built .empty
  | add {g : Graph} (kind : NodeKind) (inputs : List NodeId) :
    Built g → Built (g.add kind inputs).state
  | rewire {g g' : Graph} {consumer slot replacement : Nat} :
    Built g → g.rewire consumer slot replacement = .ok g' → Acyclic g' → Built g'

theorem built_foldl_add (nodes : List (NodeKind × List NodeId)) (h : Built g) :
    Built (nodes.foldl (fun g node => (g.add node.1 node.2).state) g) := by
  induction nodes generalizing g with
  | nil => exact h
  | cons node nodes ih => exact ih (.add node.1 node.2 h)

theorem wellFormed_typed_of_built (h : Built g) : WellFormed g ∧ Typed g := by
  induction h with
  | empty => exact ⟨.empty, fun n hn => absurd hn (Nat.not_lt_zero n)⟩
  | @add g kind xs _ ih =>
    obtain ⟨hw, ht⟩ := ih
    unfold add
    cases hi : g.insert kind xs with
    | error e => exact ⟨hw, ht⟩
    | ok p => exact ⟨wellFormed_insert hw hi, typed_insert hw ht hi⟩
  | rewire _ hr hac ih => exact ⟨wellFormed_rewire ih.1 hr, typed_rewire ih.1 ih.2 hr hac⟩

theorem cells_lt_of_built (h : Built g) : ∀ x ∈ g.cells, x < g.count := by
  induction h with
  | empty => simp [Graph.empty]
  | @add g kind xs _ ih =>
    rcases state_add g kind xs with hstate | ⟨-, hxs, -, hstate⟩
    · rwa [hstate]
    · rw [hstate, count_append]
      intro x hx
      rcases List.mem_append.1 hx with hx | hx
      · exact Nat.lt_succ_of_lt (ih x hx)
      · exact Nat.lt_succ_of_lt (hxs x hx)
  | @rewire g g' c slot r hg hr _ ih =>
    obtain ⟨hw, -⟩ := wellFormed_typed_of_built hg
    obtain ⟨hslot, hrc, rfl⟩ := (rewire_eq_ok hw.toConsistent).1 hr
    obtain ⟨ts, -, heq⟩ :=
      retyped_refresh c g.count (g.rewired c slot r) [c]
    rw [heq]
    intro x hx
    rcases List.mem_or_eq_of_mem_set hx with hx | rfl
    · exact ih x hx
    · exact hrc

end Stochastic.Graph
