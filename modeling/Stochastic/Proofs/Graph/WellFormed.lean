import Mathlib.Data.List.Basic
import Mathlib.Tactic.ByContra
import Stochastic.Graph.Rewire

/-!
# Graphs that fit together

The columns of a graph, its lists of consumers and its index say the same things in different
ways.  They do so in every graph that is made by adding nodes and by replacing inputs: the
spans of different nodes lie apart, so that a replacement shows at one slot of one node only,
the consumers of a node are those that read it, once per input, and every node of the index
stands under its own key.

A graph can agree with itself although some of its spans overlap.  Then a replacement shows
wherever the cell is read, and nowhere else.

## Main definitions

* `Graph.Consistent` — columns, consumers and index agree.
* `Graph.WellFormed` — besides, different nodes have different cells.
* `Graph.rewired` — a graph with an input replaced, before types are inferred again.

## Main results

* `Graph.insert_eq_ok`, `Graph.key_insert` — an addition, and the node that it comes to.
* `Graph.inputs_rewired_of_mem`, `Graph.inputs_rewired_of_not_mem`, `Graph.inputs_rewired` —
  what a replacement changes.
* `Graph.wellFormed_append`, `Graph.wellFormed_rewired` — adding and replacing keep graphs
  well formed.
-/

namespace Stochastic

/-- The numbers of the cells in a span. -/
def Span.cells (s : Span) : List Nat := List.range' s.start s.length

theorem Span.mem_cells {s : Span} {i : Nat} :
    i ∈ s.cells ↔ s.start ≤ i ∧ i < s.start + s.length :=
  List.mem_range'_1

namespace Graph

variable {g g' : Graph} {kind : NodeKind} {xs : List NodeId} {n m x : Nat}

/-- Columns, consumers and index agree. -/
structure Consistent (g : Graph) : Prop where
  spans_length : g.spans.length = g.count
  types_length : g.types.length = g.count
  consumers_length : g.consumers.length = g.count
  within : ∀ s ∈ g.spans, s.start + s.length ≤ g.cells.length
  input_lt : ∀ {n x : Nat}, x ∈ g.inputs n → x < g.count
  arities : ∀ n < g.count, (g.kindOf n).arity.allows (g.inputs n).length = true
  mirrored : ∀ a b, (g.consumersOf a).count b = (g.inputs b).count a
  indexed : ∀ {k n}, g.index.get? k = some n →
    n < g.count ∧ NodeKey.of? (g.kindOf n) (g.inputs n) = some k

/-- Columns, consumers and index agree, and different nodes have different cells. -/
structure WellFormed (g : Graph) : Prop extends Consistent g where
  apart : ∀ {a b : Nat} {s t : Span}, g.spans[a]? = some s → g.spans[b]? = some t → a ≠ b →
    List.Disjoint s.cells t.cells

/-! ## Reading a node -/

theorem inputs_of_span {s : Span} (h : g.spans[n]? = some s) : g.inputs n = g.slice s := by
  simp [Columns.inputs, h]

theorem inputs_eq_nil (h : g.spans.length ≤ n) : g.inputs n = [] := by
  simp [Columns.inputs, List.getElem?_eq_none h]

namespace Consistent

theorem lt_of_mem_inputs (h : Consistent g) (hx : x ∈ g.inputs n) : n < g.count := by
  by_contra hn
  rw [inputs_eq_nil (by rw [h.spans_length]; omega)] at hx
  cases hx

theorem mem_consumersOf (h : Consistent g) : n ∈ g.consumersOf x ↔ x ∈ g.inputs n := by
  rw [← List.count_pos_iff, ← List.count_pos_iff, h.mirrored]

/-- Every node has a span, which lies inside the input column. -/
theorem exists_span (h : Consistent g) (hn : n < g.count) :
    ∃ s, g.spans[n]? = some s ∧ s.start + s.length ≤ g.cells.length := by
  have hs := List.getElem?_eq_getElem (h.spans_length ▸ hn : n < g.spans.length)
  exact ⟨_, hs, h.within _ (List.mem_of_getElem? hs)⟩

/-- Types do not bear on how a graph fits together. -/
theorem withTypes (h : Consistent g) {ts : List ValueType} (hts : ts.length = g.types.length) :
    Consistent { g with types := ts } :=
  { h with types_length := hts.trans h.types_length }

end Consistent

theorem WellFormed.empty : WellFormed .empty where
  spans_length := rfl
  types_length := rfl
  consumers_length := rfl
  within := by simp [Graph.empty]
  input_lt := by simp [Graph.empty, Columns.inputs]
  arities := by simp [Graph.empty, Columns.count]
  mirrored := by simp [Graph.empty, consumersOf, Columns.inputs]
  indexed := by simp [Graph.empty]
  apart := by simp [Graph.empty]

/-! ## The index -/

/-- What stands under a key stays, and the node is added where nothing stands. -/
theorem get?_enlist_eq (index : Table NodeKey NodeId) (key : Option NodeKey) (n : NodeId)
    (k : NodeKey) :
    (enlist index key n).get? k = (index.get? k).or (if key = some k then some n else none) := by
  unfold enlist
  cases key with
  | none => simp
  | some k' =>
    dsimp only
    by_cases hk : k' = k
    · subst hk
      cases hget : index.get? k' with
      | some m => simp [Table.contains, hget]
      | none => simp [Table.contains, hget, Table.get?_insert]
    · by_cases hc : index.contains k' = true
      · simp [hc, hk]
      · simp [hc, hk, Table.get?_insert]

theorem get?_enlist {index : Table NodeKey NodeId} {key : Option NodeKey} {k : NodeKey}
    (h : (enlist index key n).get? k = some m) :
    index.get? k = some m ∨ m = n ∧ key = some k := by
  rw [get?_enlist_eq, Option.or_eq_some_iff] at h
  refine h.imp_right fun hnew => ?_
  by_cases hk : key = some k
  · rw [if_pos hk] at hnew
    exact ⟨(Option.some.inj hnew.2).symm, hk⟩
  · rw [if_neg hk] at hnew
    cases hnew.2

/-- What a node has under its old key goes, what else stands under a key stays, and the node is
added under its new key where nothing stands. -/
theorem get?_relist_eq (index : Table NodeKey NodeId) (old new : Option NodeKey) (n : NodeId)
    (k : NodeKey) :
    (relist index old new n).get? k =
      (if old = some k ∧ index.get? k = some n then none else index.get? k).or
        (if new = some k then some n else none) := by
  unfold relist
  rw [get?_enlist_eq]
  congr 1
  cases old with
  | none => simp
  | some k' =>
    dsimp only
    by_cases hk : k' = k
    · subst hk
      by_cases hn : index.get? k' = some n
      · simp [hn, Table.get?_erase]
      · simp [hn]
    · by_cases hn : index.get? k' = some n
      · simp [hn, hk, Table.get?_erase]
      · simp [hn, hk]

theorem get?_relist {index : Table NodeKey NodeId} {old new : Option NodeKey} {k : NodeKey}
    (h : (relist index old new n).get? k = some m) :
    index.get? k = some m ∧ (m = n → old ≠ some k) ∨ m = n ∧ new = some k := by
  rw [get?_relist_eq, Option.or_eq_some_iff] at h
  rcases h with hkept | ⟨-, hnew⟩
  · by_cases hold : old = some k ∧ index.get? k = some n
    · simp [hold] at hkept
    · rw [if_neg hold] at hkept
      refine .inl ⟨hkept, ?_⟩
      rintro rfl hkey
      exact hold ⟨hkey, hkept⟩
  · by_cases hk : new = some k
    · rw [if_pos hk] at hnew
      exact .inr ⟨(Option.some.inj hnew).symm, hk⟩
    · simp [hk] at hnew

/-! ## Adding a node -/

theorem getElem?_snoc {α : Type} (l : List α) (a : α) (i : Nat) :
    (l ++ [a])[i]? = if i = l.length then some a else l[i]? := by
  rw [List.getElem?_append]
  rcases Nat.lt_trichotomy i l.length with hi | hi | hi
  · rw [if_pos hi, if_neg (by omega)]
  · simp [hi]
  · rw [if_neg (by omega), if_neg (by omega), List.getElem?_eq_none (by simp; omega),
      List.getElem?_eq_none (by omega)]

@[simp] theorem count_append : (g.append kind xs).count = g.count + 1 := by
  simp [append, Columns.count]

theorem kindOf_append (n : Nat) :
    (g.append kind xs).kindOf n = if n = g.count then kind else g.kindOf n := by
  simp only [Columns.kindOf, append, getElem?_snoc, Columns.count]
  by_cases hn : n = g.kinds.length <;> simp [hn]

theorem typeOf_append (h : WellFormed g) (n : Nat) :
    (g.append kind xs).typeOf n =
      if n = g.count then kind.infer (xs.map g.typeOf) else g.typeOf n := by
  simp only [Columns.typeOf, append, getElem?_snoc, h.types_length]
  by_cases hn : n = g.count <;> simp [hn]

theorem inputs_append (h : WellFormed g) (n : Nat) :
    (g.append kind xs).inputs n = if n = g.count then xs else g.inputs n := by
  unfold Columns.inputs
  rw [append, getElem?_snoc, h.spans_length]
  by_cases hn : n = g.count
  · simp [hn, Columns.slice]
  · rw [if_neg hn, if_neg hn]
    cases hs : g.spans[n]? with
    | none => rfl
    | some s =>
      have hle := h.within s (List.mem_of_getElem? hs)
      dsimp only [Columns.slice]
      rw [List.drop_append_of_le_length (by omega),
        List.take_append_of_le_length (by rw [List.length_drop]; omega)]

theorem length_connect (c : NodeId) (xs : List NodeId) (cs : List (List NodeId)) :
    (connect c xs cs).length = cs.length := by
  unfold connect
  induction xs generalizing cs with
  | nil => rfl
  | cons x xs ih => rw [List.foldl_cons, ih, List.length_modify]

theorem count_connect {cs : List (List NodeId)} (hxs : ∀ x ∈ xs, x < cs.length) (c a b : Nat) :
    (((connect c xs cs)[a]?).getD []).count b =
      ((cs[a]?).getD []).count b + if b = c then xs.count a else 0 := by
  induction xs generalizing cs with
  | nil => simp [connect]
  | cons x xs ih =>
    obtain ⟨hx, hxs⟩ := List.forall_mem_cons.1 hxs
    change (((connect c xs (cs.modify x (· ++ [c])))[a]?).getD []).count b = _
    rw [ih (by simpa using hxs), List.getElem?_modify]
    by_cases hxa : x = a
    · subst hxa
      by_cases hbc : b = c
      · simp [hx, hbc]
        omega
      · have hcb : c ≠ b := Ne.symm hbc
        simp [hx, hbc, hcb]
    · simp [hxa]

theorem count_consumersOf_append (h : WellFormed g) (hxs : ∀ x ∈ xs, x < g.count) (a b : Nat) :
    ((g.append kind xs).consumersOf a).count b =
      (g.consumersOf a).count b + if b = g.count then xs.count a else 0 := by
  rw [← h.consumers_length] at hxs
  unfold consumersOf
  rw [← count_connect hxs, append, getElem?_snoc, length_connect]
  by_cases ha : a = g.consumers.length
  · simp [ha, length_connect]
  · rw [if_neg ha]

/-- A node behind the others fits if it reads nodes that are there, as many as it has to. -/
theorem wellFormed_append (h : WellFormed g) (hxs : ∀ x ∈ xs, x < g.count)
    (harity : kind.arity.allows xs.length = true) : WellFormed (g.append kind xs) where
  spans_length := by simp [append, Columns.count, h.spans_length]
  types_length := by simp [append, Columns.count, h.types_length]
  consumers_length := by simp [append, Columns.count, length_connect, h.consumers_length]
  within := by
    intro s hs
    simp only [append, List.mem_append, List.mem_singleton, List.length_append] at hs ⊢
    rcases hs with hs | rfl
    · have := h.within s hs
      omega
    · exact Nat.le_refl _
  input_lt := by
    intro n x hx
    rw [count_append]
    rw [inputs_append h] at hx
    split at hx
    · exact Nat.lt_succ_of_lt (hxs x hx)
    · exact Nat.lt_succ_of_lt (h.input_lt hx)
  arities := by
    intro n hn
    rw [count_append] at hn
    rw [kindOf_append, inputs_append h]
    by_cases hcount : n = g.count
    · simpa [hcount] using harity
    · simpa [hcount] using h.arities n (by omega)
  mirrored := by
    intro a b
    rw [count_consumersOf_append h hxs, inputs_append h, h.mirrored]
    by_cases hb : b = g.count
    · -- the new number stood for no node, so it had no inputs
      simp [hb, inputs_eq_nil (Nat.le_of_eq h.spans_length)]
    · simp [hb]
  indexed := by
    intro k n hk
    rw [count_append, kindOf_append, inputs_append h]
    rcases get?_enlist hk with hold | ⟨rfl, hnew⟩
    · obtain ⟨hn, hkey⟩ := h.indexed hold
      have hne : n ≠ g.count := Nat.ne_of_lt hn
      rw [if_neg hne, if_neg hne]
      exact ⟨Nat.lt_succ_of_lt hn, hkey⟩
    · simpa using hnew
  apart := by
    intro a b s t hs ht hab i his hit
    rw [append, getElem?_snoc, h.spans_length] at hs ht
    -- the new span begins behind all cells that there were
    by_cases ha : a = g.count
    · rw [if_neg (fun hb => hab (ha.trans hb.symm))] at ht
      have hle := h.within t (List.mem_of_getElem? ht)
      rw [if_pos ha] at hs
      cases hs
      rw [Span.mem_cells] at his hit
      dsimp only at his
      omega
    · rw [if_neg ha] at hs
      by_cases hb : b = g.count
      · have hle := h.within s (List.mem_of_getElem? hs)
        rw [if_pos hb] at ht
        cases ht
        rw [Span.mem_cells] at his hit
        dsimp only at hit
        omega
      · rw [if_neg hb] at ht
        exact h.apart hs ht hab his hit

theorem checkSlots_eq_ok {c : Columns} (slot : Nat) : checkSlots c kind slot xs = .ok () ↔
    ∀ x ∈ xs, (slotKind kind).admits (c.kindOf x) = true := by
  induction xs generalizing slot with
  | nil => simp [checkSlots]
  | cons x xs ih =>
    unfold checkSlots
    by_cases hx : (slotKind kind).admits (c.kindOf x) = true
    · rw [if_pos hx, ih, List.forall_mem_cons]
      exact ⟨fun h => ⟨hx, h⟩, fun h => h.2⟩
    · rw [if_neg hx]
      exact ⟨nofun, fun h => absurd (h x List.mem_cons_self) hx⟩

/-- A node passes the checks if it reads as many nodes as it has to, each of the kind it expects,
and its own value or type fits. -/
theorem check_eq_ok {c : Columns} : check c kind xs = .ok () ↔
    kind.arity.allows xs.length = true ∧
      (∀ x ∈ xs, (slotKind kind).admits (c.kindOf x) = true) ∧
      checkValue kind (xs.map c.typeOf) = .ok () := by
  rw [← checkSlots_eq_ok 0]
  unfold check checkArity
  by_cases harity : kind.arity.allows xs.length = true
  · rw [if_pos harity]
    cases hslots : checkSlots c kind 0 xs with
    | error e => exact ⟨nofun, nofun⟩
    | ok _ => exact ⟨fun h => ⟨harity, rfl, h⟩, fun h => h.2.2⟩
  · rw [if_neg harity]
    exact ⟨nofun, fun h => absurd h.1 harity⟩

/-- The checks look at the kinds and the types of the inputs only. -/
theorem check_congr {c c' : Columns} (hkinds : ∀ x ∈ xs, c'.kindOf x = c.kindOf x)
    (htypes : ∀ x ∈ xs, c'.typeOf x = c.typeOf x) : check c' kind xs = check c kind xs := by
  have hslots : ∀ slot, checkSlots c' kind slot xs = checkSlots c kind slot xs := by
    clear htypes
    induction xs with
    | nil => exact fun _ => rfl
    | cons x xs ih =>
      intro slot
      rw [checkSlots, checkSlots, hkinds x (by simp), ih fun y hy => hkinds y (by simp [hy])]
  rw [check, check, hslots, List.map_congr_left htypes]

/-- A node is inserted if its inputs are there and it passes the checks.  Then it is shared,
or it stands behind the others. -/
theorem insert_eq_ok (hi : g.insert kind xs = .ok (g', n)) :
    (∀ x ∈ xs, x < g.count) ∧ kind.arity.allows xs.length = true ∧
      (g.shared? kind xs = some n ∧ g' = g ∨ n = g.count ∧ g' = g.append kind xs) := by
  unfold insert at hi
  cases hfind : xs.find? fun x => decide (g.count ≤ x) with
  | some missing => simp [hfind] at hi
  | none =>
    rw [hfind] at hi
    have hxs : ∀ x ∈ xs, x < g.count := by simpa using hfind
    cases hcheck : check g.toColumns kind xs with
    | error e => simp [hcheck] at hi
    | ok _ =>
      refine ⟨hxs, (check_eq_ok.1 hcheck).1, ?_⟩
      rw [hcheck] at hi
      cases hshared : g.shared? kind xs with
      | some m =>
        rw [hshared] at hi
        cases hi
        exact .inl ⟨rfl, rfl⟩
      | none =>
        rw [hshared] at hi
        cases hi
        exact .inr ⟨rfl, rfl⟩

/-- An addition leaves the graph as it was, or with a node behind the others that has passed the
checks. -/
theorem state_add (g : Graph) (kind : NodeKind) (xs : List NodeId) :
    (g.add kind xs).state = g ∨
      check g.toColumns kind xs = .ok () ∧ (∀ x ∈ xs, x < g.count) ∧
        g.shared? kind xs = none ∧ (g.add kind xs).state = g.append kind xs := by
  unfold add insert
  cases hfind : xs.find? fun x => decide (g.count ≤ x) with
  | some missing => exact .inl rfl
  | none =>
    cases hcheck : check g.toColumns kind xs with
    | error e => exact .inl rfl
    | ok _ =>
      cases g.shared? kind xs with
      | some m => exact .inl rfl
      | none => exact .inr ⟨rfl, by simpa using hfind, rfl, rfl⟩

theorem wellFormed_insert (h : WellFormed g) (hi : g.insert kind xs = .ok (g', n)) :
    WellFormed g' := by
  obtain ⟨hxs, harity, ⟨-, rfl⟩ | ⟨-, rfl⟩⟩ := insert_eq_ok hi
  · exact h
  · exact wellFormed_append h hxs harity

theorem count_insert_le (hi : g.insert kind xs = .ok (g', m)) : g.count ≤ g'.count := by
  obtain ⟨-, -, ⟨-, rfl⟩ | ⟨-, rfl⟩⟩ := insert_eq_ok hi
  · exact Nat.le_refl _
  · rw [count_append]
    exact Nat.le_succ _

/-- An insertion does not show in the nodes that were there. -/
theorem same_insert (h : WellFormed g) (hi : g.insert kind xs = .ok (g', m)) (hn : n < g.count) :
    g'.kindOf n = g.kindOf n ∧ g'.typeOf n = g.typeOf n ∧ g'.inputs n = g.inputs n := by
  obtain ⟨-, -, ⟨-, rfl⟩ | ⟨-, rfl⟩⟩ := insert_eq_ok hi
  · exact ⟨rfl, rfl, rfl⟩
  · have hne : n ≠ g.count := Nat.ne_of_lt hn
    rw [kindOf_append, typeOf_append h, inputs_append h, if_neg hne, if_neg hne, if_neg hne]
    exact ⟨rfl, rfl, rfl⟩

/-- The node that an insertion comes to has the key of the node that was to be inserted. -/
theorem key_insert (h : WellFormed g) (hi : g.insert kind xs = .ok (g', m)) :
    m < g'.count ∧ NodeKey.of? (g'.kindOf m) (g'.inputs m) = NodeKey.of? kind xs := by
  obtain ⟨-, -, ⟨hshared, rfl⟩ | ⟨rfl, rfl⟩⟩ := insert_eq_ok hi
  · obtain ⟨k, hk, hget⟩ := Option.bind_eq_some_iff.1 hshared
    obtain ⟨hlt, hkey⟩ := h.indexed hget
    exact ⟨hlt, hkey.trans hk.symm⟩
  · rw [count_append, kindOf_append, inputs_append h, if_pos rfl, if_pos rfl]
    exact ⟨Nat.lt_succ_self _, rfl⟩

/-! ## Replacing an input -/

/-- The graph with an input of a node replaced, before types are inferred again. -/
def rewired (g : Graph) (consumer : NodeId) (slot : Nat) (replacement : NodeId) : Graph :=
  let span := (g.spans[consumer]?).getD ⟨0, 0⟩
  let g' := g.setCell consumer (span.start + slot) replacement
  { g' with
    index := relist g.index (NodeKey.of? (g.kindOf consumer) (g.inputs consumer))
      (NodeKey.of? (g.kindOf consumer) (g'.inputs consumer)) consumer }

variable {c r slot : Nat}

@[simp] theorem count_rewired : (g.rewired c slot r).count = g.count := rfl

@[simp] theorem kindOf_rewired : (g.rewired c slot r).kindOf n = g.kindOf n := rfl

@[simp] theorem typeOf_rewired : (g.rewired c slot r).typeOf n = g.typeOf n := rfl

/-- The cell in which a node has its input at a slot. -/
def cellOf (g : Graph) (c : NodeId) (slot : Nat) : Nat :=
  ((g.spans[c]?).getD ⟨0, 0⟩).start + slot

theorem cells_rewired : (g.rewired c slot r).cells = g.cells.set (g.cellOf c slot) r := rfl

theorem spans_rewired : (g.rewired c slot r).spans = g.spans := rfl

theorem cellOf_eq {s : Span} (hs : g.spans[c]? = some s) :
    g.cellOf c slot = s.start + slot := by
  rw [cellOf, hs, Option.getD_some]

/-- A replacement shows at every node that has the cell. -/
theorem inputs_rewired_of_mem {s : Span} (hs : g.spans[n]? = some s)
    (hcell : g.cellOf c slot ∈ s.cells) :
    (g.rewired c slot r).inputs n = (g.inputs n).set (g.cellOf c slot - s.start) r := by
  rw [Span.mem_cells] at hcell
  rw [inputs_of_span hs, inputs_of_span (g := g.rewired c slot r) hs, Columns.slice,
    Columns.slice, cells_rewired, List.drop_set, if_neg (by omega), List.take_set]

/-- A replacement does not show at a node that does not have the cell. -/
theorem inputs_rewired_of_not_mem {s : Span} (hs : g.spans[n]? = some s)
    (hcell : g.cellOf c slot ∉ s.cells) : (g.rewired c slot r).inputs n = g.inputs n := by
  rw [Span.mem_cells] at hcell
  rw [inputs_of_span hs, inputs_of_span (g := g.rewired c slot r) hs, Columns.slice,
    Columns.slice, cells_rewired, List.drop_set]
  by_cases hlt : g.cellOf c slot < s.start
  · rw [if_pos hlt]
  · rw [if_neg hlt, List.take_set, List.set_eq_of_length_le]
    rw [List.length_take]
    omega

/-- A node with a slot has a span, and the slot lies in it. -/
theorem Consistent.span_of_slot (h : Consistent g) (hslot : slot < (g.inputs c).length) :
    ∃ s, g.spans[c]? = some s ∧ slot < s.length ∧ s.start + s.length ≤ g.cells.length := by
  unfold Columns.inputs at hslot
  cases hs : g.spans[c]? with
  | none => simp [hs] at hslot
  | some s =>
    have hle := h.within s (List.mem_of_getElem? hs)
    simp only [hs, Columns.slice, List.length_take, List.length_drop] at hslot
    exact ⟨s, rfl, by omega, hle⟩

/-- No other node has the cell of a slot. -/
def Unshared (g : Graph) (c : NodeId) (slot : Nat) : Prop :=
  ∀ n ≠ c, ∀ s, g.spans[n]? = some s → g.cellOf c slot ∉ s.cells

theorem WellFormed.unshared (h : WellFormed g) (hslot : slot < (g.inputs c).length) :
    g.Unshared c slot := by
  intro n hn t ht hcell
  obtain ⟨s, hs, hlt, -⟩ := h.span_of_slot hslot
  refine h.apart hs ht (Ne.symm hn) ?_ hcell
  rw [cellOf_eq hs, Span.mem_cells]
  omega

/-- A replacement in a cell that no other node has shows at one slot of one node. -/
theorem Consistent.inputs_rewired (h : Consistent g) (hslot : slot < (g.inputs c).length)
    (hcell : g.Unshared c slot) (n : Nat) :
    (g.rewired c slot r).inputs n = if n = c then (g.inputs c).set slot r else g.inputs n := by
  by_cases hn : n = c
  · subst hn
    obtain ⟨s, hs, hlt, -⟩ := h.span_of_slot hslot
    have hmem : g.cellOf n slot ∈ s.cells := by
      rw [cellOf_eq hs, Span.mem_cells]
      omega
    rw [if_pos rfl, inputs_rewired_of_mem hs hmem, cellOf_eq hs, Nat.add_sub_cancel_left]
  · rw [if_neg hn]
    cases hs : g.spans[n]? with
    | none =>
      have hle : g.spans.length ≤ n := List.getElem?_eq_none_iff.1 hs
      rw [inputs_eq_nil hle, inputs_eq_nil (g := g.rewired c slot r) hle]
    | some s => exact inputs_rewired_of_not_mem hs (hcell n hn s hs)

theorem inputs_rewired (h : WellFormed g) (hslot : slot < (g.inputs c).length) (n : Nat) :
    (g.rewired c slot r).inputs n = if n = c then (g.inputs c).set slot r else g.inputs n :=
  h.toConsistent.inputs_rewired hslot (h.unshared hslot) n

/-- The cell of a slot holds the input at the slot. -/
theorem getElem?_cells {s : Span} (hs : g.spans[c]? = some s) (hlt : slot < s.length) :
    g.cells[s.start + slot]? = (g.inputs c)[slot]? := by
  rw [inputs_of_span hs, Columns.slice, List.getElem?_take, if_pos hlt, List.getElem?_drop]

theorem count_consumersOf_rewired (h : Consistent g) (hslot : slot < (g.inputs c).length)
    (hr : r < g.count) (a b : Nat) :
    ((g.rewired c slot r).consumersOf a).count b =
      ((g.consumersOf a).count b - if b = c ∧ (g.inputs c)[slot] = a then 1 else 0) +
        if b = c ∧ r = a then 1 else 0 := by
  obtain ⟨s, hs, hlt, -⟩ := h.span_of_slot hslot
  have hcell : g.cells[s.start + slot]? = some (g.inputs c)[slot] := by
    rw [getElem?_cells hs hlt, List.getElem?_eq_getElem hslot]
  simp only [rewired, setCell, consumersOf, hs, Option.getD_some, hcell, List.getElem?_modify]
  cases ha : g.consumers[a]? with
  | none =>
    have hra : r ≠ a := by
      rintro rfl
      rw [List.getElem?_eq_none_iff, h.consumers_length] at ha
      omega
    simp [hra]
  | some l =>
    -- the old input loses one occurrence of the consumer, the new one gets one
    by_cases hb : b = c
    · subst hb
      by_cases hra : r = a <;> by_cases hpa : (g.inputs b)[slot] = a <;>
        simp [hra, hpa]
    · by_cases hra : r = a <;> by_cases hpa : (g.inputs c)[slot] = a <;>
        simp [hra, hpa, hb, Ne.symm hb]

/-- A graph agrees with itself after a replacement by a node that is there, if it shows at one
slot of one node. -/
theorem consistent_rewired (h : Consistent g) (hslot : slot < (g.inputs c).length)
    (hr : r < g.count) (hinputs : ∀ n, (g.rewired c slot r).inputs n =
      if n = c then (g.inputs c).set slot r else g.inputs n) : Consistent (g.rewired c slot r) where
  spans_length := h.spans_length
  types_length := h.types_length
  consumers_length := by
    rw [count_rewired, ← h.consumers_length]
    simp [rewired, setCell]
  within := by
    intro s hs
    simpa [rewired, setCell] using h.within s hs
  input_lt := by
    intro n x hx
    rw [hinputs] at hx
    split at hx
    · rcases List.mem_or_eq_of_mem_set hx with hx | rfl
      · exact h.input_lt hx
      · exact hr
    · exact h.input_lt hx
  arities := by
    intro n hn
    rw [hinputs]
    by_cases hnc : n = c
    · simpa [hnc] using h.arities n hn
    · simpa [hnc] using h.arities n hn
  mirrored := by
    intro a b
    -- both sides lose one occurrence of the old input and get one of the new
    rw [count_consumersOf_rewired h hslot hr, hinputs]
    by_cases hb : b = c
    · simp [hb, List.count_set hslot, h.mirrored]
    · simp [hb, h.mirrored]
  indexed := by
    intro k n hk
    rcases get?_relist hk with ⟨hold, hkept⟩ | ⟨rfl, hnew⟩
    · obtain ⟨hn, hkey⟩ := h.indexed hold
      -- the entry of the consumer under its old key has been taken out
      have hnc : n ≠ c := by
        rintro rfl
        exact hkept rfl hkey
      rw [hinputs, if_neg hnc]
      exact ⟨hn, hkey⟩
    · exact ⟨h.lt_of_mem_inputs (List.getElem_mem hslot), hnew⟩

/-- A graph fits after a replacement by a node that is there. -/
theorem wellFormed_rewired (h : WellFormed g) (hslot : slot < (g.inputs c).length)
    (hr : r < g.count) : WellFormed (g.rewired c slot r) :=
  ⟨consistent_rewired h.toConsistent hslot hr (inputs_rewired h hslot), h.apart⟩

end Graph

end Stochastic
