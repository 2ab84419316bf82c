import Mathlib.Order.Bounds.Defs
import Stochastic.Proofs.Graph.Sorting
import Stochastic.Proofs.Graph.Stored

/-!
# Loading a graph

Stored columns are taken over node by node.  What there is after `k` nodes does not depend on
the checks, so loading is the checks of all nodes, each against what there is when its turn
comes, and then the result.  The stored types are not looked at.  Every node has been found to
read nodes before it only, so that it was checked against the types that these nodes keep.

## Main definitions

* `Graph.restored` — the graph of stored columns after the first nodes.
* `Graph.vet` — the checks of a node when its turn comes.
* `Graph.Restored` — a graph that was loaded from columns.

## Main results

* `Graph.rebuild_eq_ok`, `Graph.rebuild_eq_error` — when loading succeeds, and how it fails.
* `Graph.Restored.consistent`, `Graph.Restored.typed`, `Graph.Restored.acyclic` — what is loaded
  fits together.
* `Graph.sound_of_ofText` — what is loaded from any text is sound.
-/

namespace Stochastic.Graph

variable {c : Columns} {g g' : Graph} {kind : NodeKind} {xs : List NodeId} {n m k : Nat}

/-! ## Taking over nodes -/

/-- The graph of stored columns before any node has been taken over. -/
def blank (c : Columns) : Graph :=
  { c with types := [], consumers := List.replicate c.count [], index := .empty }

/-- Takes over the next node: infers its type and lists it. -/
def adopt (g : Graph) (kind : NodeKind) (xs : List NodeId) : Graph :=
  { g with
    types := g.types ++ [kind.infer (xs.map g.typeOf)]
    consumers := connect g.types.length xs g.consumers
    index := enlist g.index (NodeKey.of? kind xs) g.types.length }

/-- The graph of stored columns after its first nodes have been taken over. -/
def restored (c : Columns) : Nat → Graph
  | 0 => blank c
  | k + 1 => (restored c k).adopt (c.kindOf k) (c.inputs k)

@[simp] theorem kinds_restored (c : Columns) (k : Nat) : (restored c k).kinds = c.kinds := by
  induction k with
  | zero => rfl
  | succ k ih => exact ih

@[simp] theorem cells_restored (c : Columns) (k : Nat) : (restored c k).cells = c.cells := by
  induction k with
  | zero => rfl
  | succ k ih => exact ih

@[simp] theorem spans_restored (c : Columns) (k : Nat) : (restored c k).spans = c.spans := by
  induction k with
  | zero => rfl
  | succ k ih => exact ih

@[simp] theorem count_restored (c : Columns) (k : Nat) : (restored c k).count = c.count := by
  simp [Columns.count]

@[simp] theorem kindOf_restored (c : Columns) (k n : Nat) :
    (restored c k).kindOf n = c.kindOf n := by
  simp [Columns.kindOf]

@[simp] theorem inputs_restored (c : Columns) (k n : Nat) :
    (restored c k).inputs n = c.inputs n := by
  simp [Columns.inputs, Columns.slice]

@[simp] theorem types_length_restored (c : Columns) (k : Nat) :
    (restored c k).types.length = k := by
  induction k with
  | zero => rfl
  | succ k ih => simp [restored, adopt, ih]

@[simp] theorem consumers_length_restored (c : Columns) (k : Nat) :
    (restored c k).consumers.length = c.count := by
  induction k with
  | zero => simp [restored, blank]
  | succ k ih => simpa [restored, adopt, length_connect] using ih

/-- The type of a node is inferred when its turn comes, and kept. -/
theorem typeOf_restored (h : n < k) :
    (restored c k).typeOf n = (c.kindOf n).infer ((c.inputs n).map (restored c n).typeOf) := by
  induction k with
  | zero => exact absurd h (Nat.not_lt_zero n)
  | succ k ih =>
    have hnext : (restored c (k + 1)).typeOf n =
        if n = k then (c.kindOf k).infer ((c.inputs k).map (restored c k).typeOf)
        else (restored c k).typeOf n := by
      simp only [Columns.typeOf, restored, adopt, getElem?_snoc, types_length_restored]
      by_cases hn : n = k <;> simp [hn]
    rw [hnext]
    by_cases hn : n = k
    · rw [if_pos hn, hn]
    · rw [if_neg hn, ih (by omega)]

theorem typeOf_restored_of_lt (hn : n < k) (hm : n < m) :
    (restored c m).typeOf n = (restored c k).typeOf n := by
  rw [typeOf_restored hn, typeOf_restored hm]

theorem consumers_restored_succ (c : Columns) (k : Nat) :
    (restored c (k + 1)).consumers = connect k (c.inputs k) (restored c k).consumers := by
  simp [restored, adopt]

/-- The nodes taken over are listed at the nodes that they read. -/
theorem count_consumersOf_restored (h : ∀ n < k, ∀ x ∈ c.inputs n, x < c.count) (a b : Nat) :
    ((restored c k).consumersOf a).count b = if b < k then (c.inputs b).count a else 0 := by
  induction k with
  | zero =>
    have hnil : (restored c 0).consumersOf a = [] := by
      simp only [restored, blank, consumersOf, List.getElem?_replicate]
      split <;> rfl
    simp [hnil]
  | succ k ih =>
    have hxs : ∀ x ∈ c.inputs k, x < (restored c k).consumers.length := by
      rw [consumers_length_restored]
      exact h k (Nat.lt_succ_self k)
    have hbefore := ih fun n hn => h n (by omega)
    unfold consumersOf at hbefore ⊢
    rw [consumers_restored_succ, count_connect hxs, hbefore]
    by_cases hb : b = k
    · simp [hb]
    · by_cases hlt : b < k
      · simp [hb, hlt, Nat.lt_succ_of_lt hlt]
      · simp [hb, hlt, show ¬ b < k + 1 by omega]

/-- Of the nodes taken over with a key the first is found under it. -/
theorem get?_restored (c : Columns) (k : Nat) (key : NodeKey) :
    (restored c k).index.get? key =
      (List.range k).find? fun n => NodeKey.of? (c.kindOf n) (c.inputs n) = some key := by
  induction k with
  | zero => rfl
  | succ k ih =>
    rw [restored, adopt, get?_enlist_eq, ih, List.range_succ, List.find?_append,
      types_length_restored]
    by_cases hk : NodeKey.of? (c.kindOf k) (c.inputs k) = some key <;> simp [hk]

/-! ## Loading as checks and a result -/

/-- The checks of a node when its turn comes. -/
def vet (c : Columns) (n : NodeId) : Except Error Unit := do
  checkSpan c n ((c.spans[n]?).getD ⟨0, 0⟩)
  check (restored c n).toColumns (c.kindOf n) (c.inputs n)

theorem restoreNode_restored {s : Span} (hkind : c.kinds[n]? = some kind)
    (hspan : c.spans[n]? = some s) :
    restoreNode c (restored c n) (kind, s) = do vet c n; return restored c (n + 1) := by
  have hk : c.kindOf n = kind := by simp [Columns.kindOf, hkind]
  have hi : c.inputs n = c.slice s := by simp [Columns.inputs, hspan]
  simp only [restoreNode, vet, types_length_restored, hspan, Option.getD_some, hk, hi,
    bind_assoc]
  simp only [restored, adopt, types_length_restored, hk, hi]

/-- The nodes that stored columns have, in order. -/
theorem take_nodes (hspans : c.spans.length = c.count) (hn : n < c.count) :
    ∃ kind s, c.kinds[n]? = some kind ∧ c.spans[n]? = some s ∧
      (c.kinds.zip c.spans).take (n + 1) = (c.kinds.zip c.spans).take n ++ [(kind, s)] := by
  have hkind : c.kinds[n]? = some c.kinds[n] := List.getElem?_eq_getElem hn
  have hspan : c.spans[n]? = some c.spans[n] := List.getElem?_eq_getElem (hspans ▸ hn)
  refine ⟨_, _, hkind, hspan, ?_⟩
  have hnode : (c.kinds.zip c.spans)[n]? = some (c.kinds[n], c.spans[n]) :=
    List.getElem?_zip_eq_some.2 ⟨hkind, hspan⟩
  rw [List.take_add_one, hnode]
  rfl

/-- As long as the checks succeed, the nodes are taken over. -/
theorem foldlM_take (hspans : c.spans.length = c.count) (hk : k ≤ c.count)
    (hvet : ∀ n < k, vet c n = .ok ()) :
    ((c.kinds.zip c.spans).take k).foldlM (restoreNode c) (blank c) = .ok (restored c k) := by
  induction k with
  | zero => rfl
  | succ k ih =>
    obtain ⟨kind, s, hkind, hspan, htake⟩ := take_nodes hspans hk
    rw [htake, List.foldlM_append, ih (by omega) fun n hn => hvet n (by omega)]
    change ([(kind, s)] : List (NodeKind × Span)).foldlM (restoreNode c) (restored c k) = _
    rw [List.foldlM_cons, restoreNode_restored hkind hspan, hvet k (by omega)]
    rfl

/-- Columns of the right lengths. -/
structure Aligned (c : Columns) : Prop where
  spans : c.spans.length = c.count
  types : c.types.length = c.count

theorem rebuild_of_aligned (h : Aligned c) :
    rebuild c = (c.kinds.zip c.spans).foldlM (restoreNode c) (blank c) := by
  rw [rebuild, if_neg (by simp [h.spans, h.types])]
  rfl

/-- Loading fails at the first node that does not pass its checks. -/
theorem rebuild_eq_error (h : Aligned c) {e : Error} (hn : n < c.count)
    (hbefore : ∀ m < n, vet c m = .ok ()) (hat : vet c n = .error e) :
    rebuild c = .error e := by
  obtain ⟨kind, s, hkind, hspan, htake⟩ := take_nodes h.spans hn
  rw [rebuild_of_aligned h, ← List.take_append_drop (n + 1) (c.kinds.zip c.spans), htake,
    List.append_assoc, List.foldlM_append, foldlM_take h.spans (Nat.le_of_lt hn) hbefore]
  change ((kind, s) :: (c.kinds.zip c.spans).drop (n + 1)).foldlM (restoreNode c) (restored c n) = _
  rw [List.foldlM_cons, restoreNode_restored hkind hspan, hat]
  rfl

/-- A graph that is loaded from columns: all nodes pass their checks. -/
structure Restored (c : Columns) (g : Graph) : Prop where
  aligned : Aligned c
  vetted : ∀ n < c.count, vet c n = .ok ()
  eq : g = restored c c.count

theorem rebuild_of_vetted (h : Aligned c) (hvet : ∀ n < c.count, vet c n = .ok ()) :
    rebuild c = .ok (restored c c.count) := by
  have hall : (c.kinds.zip c.spans).take c.count = c.kinds.zip c.spans := by
    apply List.take_of_length_le
    simp [Columns.count]
  rw [rebuild_of_aligned h, ← hall]
  exact foldlM_take h.spans (Nat.le_refl _) hvet

theorem aligned_of_rebuild (hok : rebuild c = .ok g) : Aligned c := by
  unfold rebuild at hok
  split at hok
  · cases hok
  · rename_i hlengths
    rw [not_or, not_not, not_not] at hlengths
    exact ⟨hlengths.1, hlengths.2⟩

/-- Loading succeeds exactly if all nodes pass their checks. -/
theorem rebuild_eq_ok : rebuild c = .ok g ↔ Restored c g := by
  constructor
  · intro hok
    have haligned := aligned_of_rebuild hok
    have hvet : ∀ n < c.count, vet c n = .ok () := by
      intro n
      -- the first node that fails would make loading fail
      induction n using Nat.strongRecOn with
      | ind n ih =>
        intro hn
        cases hat : vet c n with
        | ok _ => rfl
        | error e =>
          rw [rebuild_eq_error haligned hn (fun m hm => ih m hm (by omega)) hat] at hok
          cases hok
    exact ⟨haligned, hvet, Except.ok.inj (hok.symm.trans (rebuild_of_vetted haligned hvet))⟩
  · rintro ⟨haligned, hvet, rfl⟩
    exact rebuild_of_vetted haligned hvet

/-! ## What the checks say -/

theorem checkSpan_eq_ok {s : Span} : checkSpan c n s = .ok () ↔
    s.start + s.length ≤ c.cells.length ∧ ∀ x ∈ c.slice s, x < n := by
  unfold checkSpan
  by_cases hout : c.cells.length < s.start + s.length
  · simp [hout]
  · rw [if_neg hout]
    cases hfind : (c.slice s).find? fun x => decide (n ≤ x) with
    | none =>
      have hlt : ∀ x ∈ c.slice s, x < n := by simpa using hfind
      exact ⟨fun _ => ⟨by omega, hlt⟩, fun _ => rfl⟩
    | some x =>
      have hx := List.find?_some hfind
      have hmem := List.mem_of_find?_eq_some hfind
      simp only [decide_eq_true_eq] at hx
      exact ⟨nofun, fun h => absurd (h.2 x hmem) (Nat.not_lt.2 hx)⟩

theorem vet_eq_ok : vet c n = .ok () ↔
    checkSpan c n ((c.spans[n]?).getD ⟨0, 0⟩) = .ok () ∧
      check (restored c n).toColumns (c.kindOf n) (c.inputs n) = .ok () := by
  unfold vet
  cases checkSpan c n ((c.spans[n]?).getD ⟨0, 0⟩) with
  | error e => exact ⟨nofun, nofun⟩
  | ok _ => exact ⟨fun h => ⟨rfl, h⟩, fun h => h.2⟩

namespace Restored

variable {c : Columns} {g : Graph}

theorem kinds (h : Restored c g) : g.kinds = c.kinds := by rw [h.eq, kinds_restored]

theorem cells (h : Restored c g) : g.cells = c.cells := by rw [h.eq, cells_restored]

theorem spans (h : Restored c g) : g.spans = c.spans := by rw [h.eq, spans_restored]

theorem count (h : Restored c g) : g.count = c.count := by rw [h.eq, count_restored]

theorem kindOf (h : Restored c g) (n : Nat) : g.kindOf n = c.kindOf n := by
  rw [h.eq, kindOf_restored]

theorem inputs (h : Restored c g) (n : Nat) : g.inputs n = c.inputs n := by
  rw [h.eq, inputs_restored]

/-- A node reads nodes before it. -/
theorem earlier (h : Restored c g) (hn : n < g.count) : ∀ x ∈ g.inputs n, x < n := by
  rw [h.count] at hn
  obtain ⟨s, hspan⟩ : ∃ s, c.spans[n]? = some s :=
    ⟨_, List.getElem?_eq_getElem (h.aligned.spans ▸ hn)⟩
  have hcheck := (checkSpan_eq_ok.1 (vet_eq_ok.1 (h.vetted n hn)).1).2
  rw [hspan] at hcheck
  rw [h.inputs, Columns.inputs, hspan]
  exact hcheck

/-- A node passes its checks against the whole graph. -/
theorem checks (h : Restored c g) (hn : n < g.count) :
    check g.toColumns (g.kindOf n) (g.inputs n) = .ok () := by
  have hearlier := h.earlier hn
  have hcheck := (vet_eq_ok.1 (h.vetted n (h.count ▸ hn))).2
  rw [h.kindOf, h.inputs, ← hcheck]
  apply check_congr
  · intro x _
    rw [h.kindOf, kindOf_restored]
  · intro x hx
    have hlt := hearlier x (h.inputs n ▸ hx)
    rw [h.eq]
    exact typeOf_restored_of_lt hlt (h.count ▸ Nat.lt_trans hlt hn)

/-- The type of a node follows from those of its inputs. -/
theorem typed (h : Restored c g) : Typed g := by
  intro n hn _
  have hearlier := h.earlier hn
  rw [inferred, Columns.inputTypes, h.kindOf, h.inputs]
  rw [h.inputs] at hearlier
  rw [h.count] at hn
  rw [h.eq, typeOf_restored hn]
  congr 1
  apply List.map_congr_left
  intro x hx
  exact typeOf_restored_of_lt (Nat.lt_trans (hearlier x hx) hn) (hearlier x hx)

theorem mirrored (h : Restored c g) (a b : Nat) :
    (g.consumersOf a).count b = (g.inputs b).count a := by
  have hinputs : ∀ n < c.count, ∀ x ∈ c.inputs n, x < c.count := by
    intro n hn x hx
    exact Nat.lt_trans (h.earlier (h.count ▸ hn) x (h.inputs n ▸ hx)) hn
  rw [h.eq, count_consumersOf_restored hinputs, inputs_restored]
  by_cases hb : b < c.count
  · rw [if_pos hb]
  · have hnil : c.inputs b = [] := by
      have hle : c.spans.length ≤ b := h.aligned.spans ▸ Nat.not_lt.1 hb
      simp [Columns.inputs, List.getElem?_eq_none hle]
    rw [if_neg hb, hnil, List.count_nil]

/-- Under a key stands the first node that has it. -/
theorem get?_index (h : Restored c g) (key : NodeKey) (m : NodeId) :
    g.index.get? key = some m ↔
      IsLeast {n | n < g.count ∧ NodeKey.of? (g.kindOf n) (g.inputs n) = some key} m := by
  have hkey : ∀ n,
      NodeKey.of? (g.kindOf n) (g.inputs n) = NodeKey.of? (c.kindOf n) (c.inputs n) := by
    intro n
    rw [h.kindOf, h.inputs]
  have hget : g.index.get? key = (restored c c.count).index.get? key := by rw [h.eq]
  rw [hget, get?_restored, List.find?_range_eq_some]
  simp only [h.count, hkey, IsLeast, lowerBounds, Set.mem_ofPred_eq, decide_eq_true_eq,
    List.mem_range, Bool.not_eq_true', decide_eq_false_iff_not]
  constructor
  · rintro ⟨hm, hlt, hfirst⟩
    refine ⟨⟨hlt, hm⟩, fun n hn => ?_⟩
    exact Nat.not_lt.1 fun hnm => hfirst n hnm hn.2
  · rintro ⟨⟨hlt, hm⟩, hfirst⟩
    refine ⟨hm, hlt, fun n hnm hn => ?_⟩
    exact Nat.not_lt.2 (hfirst ⟨Nat.lt_trans hnm hlt, hn⟩) hnm

/-- Columns, consumers and index of a graph that is loaded agree. -/
theorem consistent (h : Restored c g) : Consistent g where
  spans_length := by rw [h.spans, h.aligned.spans, h.count]
  types_length := by rw [h.eq, types_length_restored, count_restored]
  consumers_length := by rw [h.eq, consumers_length_restored, count_restored]
  within := by
    intro s hs
    rw [h.spans] at hs
    rw [h.cells]
    obtain ⟨n, hn⟩ := List.mem_iff_getElem?.1 hs
    have hlt : n < c.count := h.aligned.spans ▸ (List.getElem?_eq_some_iff.1 hn).1
    have hcheck := (checkSpan_eq_ok.1 (vet_eq_ok.1 (h.vetted n hlt)).1).1
    rwa [hn] at hcheck
  input_lt := by
    intro n x hx
    have hn : n < g.count := by
      by_contra hge
      rw [h.inputs, Columns.inputs, List.getElem?_eq_none] at hx
      · cases hx
      · rw [h.aligned.spans, ← h.count]
        omega
    exact Nat.lt_trans (h.earlier hn x hx) hn
  arities := fun n hn => (check_eq_ok.1 (h.checks hn)).1
  mirrored := h.mirrored
  indexed := fun hget => ((h.get?_index _ _).1 hget).1

theorem acyclic (h : Restored c g) : Acyclic g :=
  acyclic_of_rank id (fun _ hn => h.earlier hn) h.consistent

end Restored

/-! ## Loading a text -/

theorem ofText_eq_ok {s : String} :
    ofText s = .ok g ↔ ∃ c, JsonForm.ofText? Columns s = some c ∧ Restored c g := by
  unfold ofText
  cases JsonForm.ofText? Columns s with
  | none => exact ⟨nofun, nofun⟩
  | some c =>
    constructor
    · exact fun hok => ⟨c, rfl, rebuild_eq_ok.1 hok⟩
    · rintro ⟨c', hc, hrestored⟩
      cases hc
      exact rebuild_eq_ok.2 hrestored

/-- Columns that fit the stored form and pass all checks are loaded from their text. -/
theorem ofText_text_eq_ok (hstorable : c.Storable) (hok : (rebuild c).isOk) :
    ofText (JsonForm.text c) = .ok (restored c c.count) := by
  rw [ofText_text hstorable]
  cases hrebuild : rebuild c with
  | error e =>
    rw [hrebuild] at hok
    cases hok
  | ok g => rw [(rebuild_eq_ok.1 hrebuild).eq]

/-- Two texts that store the same in all fields but the types. -/
def SameButTypes (s s' : String) : Prop :=
  ∃ j j' kinds cells spans types types',
    Json.parse? s = some j ∧ Json.parse? s' = some j' ∧
    j.members? ["kinds", "inputs_flat", "inputs_ranges", "inf_types"] =
      some [kinds, cells, spans, types] ∧
    j'.members? ["kinds", "inputs_flat", "inputs_ranges", "inf_types"] =
      some [kinds, cells, spans, types']

/-- The fields from which columns are read. -/
theorem fields_of_ofJson? {j : Json} {kinds cells spans types : Option Json}
    (hj : j.members? ["kinds", "inputs_flat", "inputs_ranges", "inf_types"] =
      some [kinds, cells, spans, types]) (h : Columns.ofJson? j = some c) :
    kinds.bind JsonForm.ofJson? = some c.kinds ∧
      (cells.bind Json.items?).bind (·.mapM (Json.natBelow? Columns.numberLimit)) = some c.cells ∧
      (spans.bind Json.items?).bind (·.mapM Columns.spanOfJson?) = some c.spans := by
  rw [Columns.ofJson?, hj] at h
  cases kinds with
  | none => cases h
  | some kinds =>
    cases cells with
    | none => cases h
    | some cells =>
      cases spans with
      | none => cases h
      | some spans =>
        cases types with
        | none => cases h
        | some types =>
          simp only [bind, Option.bind_some, Option.bind_eq_some_iff, pure] at h
          obtain ⟨ks, hks, is, his, xs, hxs, js, hjs, ss, hss, ts, hts, h⟩ := h
          cases h
          exact ⟨hks, by simp [his, hxs], by simp [hjs, hss]⟩

/-- Stored types are not looked at. -/
theorem restored_types (c : Columns) (ts : List ValueType) (k : Nat) :
    restored { c with types := ts } k = restored c k := by
  induction k with
  | zero => rfl
  | succ k ih => rw [restored, restored, ih]; rfl

theorem eq_of_sameButTypes {s s' : String} (hs : SameButTypes s s') (h : ofText s = .ok g)
    (h' : ofText s' = .ok g') : g' = g := by
  obtain ⟨c, hc, hg⟩ := ofText_eq_ok.1 h
  obtain ⟨c', hc', hg'⟩ := ofText_eq_ok.1 h'
  obtain ⟨j, j', kinds, cells, spans, types, types', hj, hj', hfields, hfields'⟩ := hs
  rw [JsonForm.ofText?, hj, Option.bind_some] at hc
  rw [JsonForm.ofText?, hj', Option.bind_some] at hc'
  obtain ⟨hkinds, hcells, hspans⟩ := fields_of_ofJson? hfields hc
  obtain ⟨hkinds', hcells', hspans'⟩ := fields_of_ofJson? hfields' hc'
  rw [hkinds] at hkinds'
  rw [hcells] at hcells'
  rw [hspans] at hspans'
  have hcolumns : c' = { c with types := c'.types } := by
    cases c'
    cases hkinds'
    cases hcells'
    cases hspans'
    rfl
  rw [hg.eq, hg'.eq, hcolumns]
  exact restored_types c c'.types c.count

/-- **What is loaded from any text is sound.**  The graph has the nodes and inputs that the text
stores.  Each node reads nodes before it only and passes all checks of an addition, against the
graph that was loaded; its type follows from those of its inputs; nodes are listed as consumers
as often as they read; under the key of a shared node stands the first node that has it; an
order of evaluation exists.  The stored types have no say in any of this. -/
theorem sound_of_ofText {s : String} (h : ofText s = .ok g) :
    (∃ c, JsonForm.ofText? Columns s = some c ∧
      g.kinds = c.kinds ∧ g.cells = c.cells ∧ g.spans = c.spans) ∧
    (∀ n < g.count, ∀ x ∈ g.inputs n, x < n) ∧
    (∀ n < g.count, check g.toColumns (g.kindOf n) (g.inputs n) = .ok ()) ∧
    (∀ n < g.count, g.typeOf n = (g.kindOf n).infer ((g.inputs n).map g.typeOf)) ∧
    (∀ a b, (g.consumersOf a).count b = (g.inputs b).count a) ∧
    (∀ k m, g.index.get? k = some m ↔
      IsLeast {n | n < g.count ∧ NodeKey.of? (g.kindOf n) (g.inputs n) = some k} m) ∧
    (∃ order, g.topologicalOrder = .ok order) ∧
    ∀ s' g', SameButTypes s s' → ofText s' = .ok g' → g' = g := by
  obtain ⟨c, hc, hg⟩ := ofText_eq_ok.1 h
  refine ⟨⟨c, hc, hg.kinds, hg.cells, hg.spans⟩, fun n => hg.earlier, fun n => hg.checks,
    fun n => hg.typed.eq, hg.mirrored, hg.get?_index,
    exists_topologicalOrder hg.consistent hg.acyclic, fun s' g' hs h' => ?_⟩
  exact eq_of_sameButTypes hs h h'

/-! ## Columns that no additions make -/

/-- Two equal constants and two equal sums of them, which have the same span; the first cell
belongs to no node, the spans stand in no order, and the stored types are wrong. -/
def Doubled.columns : Columns where
  kinds := [.constant ⟨[], [0.5]⟩ none, .constant ⟨[], [0.5]⟩ none, .operator .addition,
    .operator .addition]
  cells := [9, 0, 1]
  spans := [⟨3, 0⟩, ⟨0, 0⟩, ⟨1, 2⟩, ⟨1, 2⟩]
  types := [.tensor, .bool, .natural, .real]

theorem Doubled.storable : Doubled.columns.Storable where
  values := by
    have hhalf : (⟨[], [0.5]⟩ : Tensor Float).Storable := ⟨nofun, by decide +kernel⟩
    simp [columns, NodeKind.value?, hhalf]
  cells := by decide
  spans := by decide

/-- The columns load with the types that follow from the constants, and of two equal sums the
first is indexed. -/
theorem sound_of_ofText_doubled : ∃ g, ofText (JsonForm.text Doubled.columns) = .ok g ∧
    g.types = [.probability, .probability, .positiveReal, .positiveReal] ∧
    (∀ n < g.count, ∀ x ∈ g.inputs n, x < n) ∧
    IsLeast {n | n < g.count ∧ NodeKey.of? (g.kindOf n) (g.inputs n) =
      some (.operator .addition [0, 1])} 2 ∧
    (∃ order, g.topologicalOrder = .ok order) ∧
    ∀ s' g', SameButTypes (JsonForm.text Doubled.columns) s' → ofText s' = .ok g' → g' = g := by
  have hload := ofText_text_eq_ok Doubled.storable (by decide +kernel)
  obtain ⟨-, hearlier, -, -, -, hindex, horder, htypes⟩ := sound_of_ofText hload
  exact ⟨_, hload, by decide +kernel, hearlier, (hindex _ 2).1 (by decide +kernel), horder, htypes⟩

end Stochastic.Graph
