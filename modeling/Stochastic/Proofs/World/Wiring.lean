import Mathlib.Data.Finset.Card
import Mathlib.Order.ConditionallyCompleteLattice.Basic
import Stochastic.Proofs.World.Move

/-!
# Edges while they are being changed

The two records of an edge are written one after the other, so in the middle of a step they
disagree.  `World.Wired` says by how much they may: a *surplus* edge is listed by the variable
read and not (or no longer) recorded by the reader, a *missing* one is recorded by the reader
and not yet listed.  Detaching a reader removes one surplus edge; if it marks the variable, the
edges of that variable become surplus and are removed in turn.  Reviving a variable makes its
edges missing and then lists them one by one.  So both leave the balance as it was, and with
nothing surplus and nothing missing the edges are symmetric.

Both chains are cut off at a length, which is never reached: every link of a chain of deletions
marks a live variable, and every link of a chain of revivals takes a mark away.

## Main definitions

* `World.Wired` — the edges agree up to surplus and missing ones.
* `World.liveKeys`, `World.markedKeys` — what bounds the chains.

## Main results

* `World.wired_detach` — detaching removes one surplus edge, and nothing else.
* `World.wired_revive` — reviving keeps the balance, and the variable is live afterwards.
-/

namespace Stochastic.World

variable {w w' : World} {r r' : Run} {n k c p : Ident} {v : Variable}

/-- The edge from reader `c₀` to the variable `p₀`. -/
def Edge (c₀ p₀ : Ident) : Ident → Ident → Prop := fun c p => (c == c₀) = true ∧ (p == p₀) = true

/-- The edges from reader `c₀` to the variables of a list. -/
def EdgesTo (c₀ : Ident) (ps : List Ident) : Ident → Ident → Prop :=
  fun c p => (c == c₀) = true ∧ ps.contains p = true

/-- Both records of every edge of the live view agree, up to surplus and missing edges, and a
marked variable is there and has no readers. -/
structure Wired (w : World) (surplus missing : Ident → Ident → Prop) : Prop where
  listed : ∀ {c p}, w.Reads c p → w.Lists p c ∨ missing c p
  read : ∀ {c p}, w.Lists p c → w.Reads c p ∨ surplus c p
  barren : ∀ {n}, w.overlay.isMarked n = true →
    ∃ v, w.lookup? n = some v ∧ v.children.toList = []

variable {surplus missing : Ident → Ident → Prop}

theorem Wired.mono {surplus' missing' : Ident → Ident → Prop} (h : w.Wired surplus missing)
    (hs : ∀ {c p}, surplus c p → w.Reads c p ∨ surplus' c p)
    (hm : ∀ {c p}, missing c p → w.Lists p c ∨ missing' c p) : w.Wired surplus' missing' where
  listed hr := (h.listed hr).elim .inl hm
  read hl := (h.read hl).elim .inl hs
  barren := h.barren

theorem Wired.symmetric (h : w.Wired ⊥ ⊥) : w.Symmetric :=
  fun _ _ => ⟨fun hr => (h.listed hr).resolve_right id, fun hl => (h.read hl).resolve_right id⟩

theorem Symmetric.wired (h : w.Symmetric) (hm : ∀ n, w.overlay.isMarked n = false) :
    w.Wired ⊥ ⊥ where
  listed hr := .inl ((h _ _).1 hr)
  read hl := .inl ((h _ _).2 hl)
  barren hn := by
    rw [hm] at hn
    cases hn

theorem contains_eq_false_of_toList {s : OrderedSet Ident} (h : s.toList = []) (n : Ident) :
    s.contains n = false := by
  rw [OrderedSet.contains, h]
  rfl

/-! ## Changing the readers of a variable -/

theorem reads_relist (h : r.world.lookup? n = some v) (readers : OrderedSet Ident) (c p : Ident) :
    (r.relist n v readers).world.Reads c p ↔ r.world.Reads c p := by
  rw [reads_iff, reads_iff, isMarked_relist, lookup?_relist]
  by_cases hc : (n == c) = true
  · rw [if_pos hc, ← lookup?_congr _ hc, h]
    simp
  · rw [if_neg hc]

theorem lists_relist (r : Run) (n : Ident) (v : Variable) (readers : OrderedSet Ident)
    (p c : Ident) : (r.relist n v readers).world.Lists p c ↔
      if n == p then r.world.overlay.isMarked p = false ∧ readers.contains c = true
      else r.world.Lists p c := by
  rw [lists_iff, lists_iff, isMarked_relist, lookup?_relist]
  by_cases hp : (n == p) = true <;> simp [hp]

/-- With a reader inserted, one more edge is listed. -/
theorem lists_relist_insert (h : r.world.lookup? n = some v)
    (hn : r.world.overlay.isMarked n = false) (k p c : Ident) :
    (r.relist n v (v.children.insert k)).world.Lists p c ↔ r.world.Lists p c ∨ Edge k n c p := by
  rw [lists_relist]
  by_cases hp : (n == p) = true
  · have hmp : r.world.overlay.isMarked p = false := isMarked_congr r.world hp ▸ hn
    have hvp : r.world.lookup? p = some v := lookup?_congr r.world hp ▸ h
    rw [if_pos hp, OrderedSet.contains_insert, lists_of_lookup? hmp hvp, Bool.or_eq_true, Edge]
    exact ⟨fun ⟨_, hc⟩ => hc.imp_right fun hc => ⟨hc, BEq.symm hp⟩,
      fun hc => ⟨hmp, hc.imp_right And.left⟩⟩
  · rw [if_neg hp]
    refine ⟨.inl, fun hc => hc.resolve_right fun he => hp (BEq.symm he.2)⟩

/-- With a reader erased, one edge less is listed. -/
theorem lists_relist_erase (h : r.world.lookup? n = some v) (k p c : Ident) :
    (r.relist n v (v.children.erase k)).world.Lists p c ↔ r.world.Lists p c ∧ ¬ Edge k n c p := by
  rw [lists_relist]
  by_cases hp : (n == p) = true
  · have hvp : r.world.lookup? p = some v := lookup?_congr r.world hp ▸ h
    rw [if_pos hp, OrderedSet.contains_erase, Bool.and_eq_true, Bool.not_eq_true']
    constructor
    · rintro ⟨hm, hc, hk⟩
      refine ⟨(lists_of_lookup? hm hvp).2 hc, fun he => ?_⟩
      rw [he.1] at hk
      cases hk
    · rintro ⟨hl, he⟩
      have hm := (lists_iff.1 hl).1
      refine ⟨hm, (lists_of_lookup? hm hvp).1 hl, Bool.eq_false_iff.2 fun hk => ?_⟩
      exact he ⟨hk, BEq.symm hp⟩
  · rw [if_neg hp]
    exact ⟨fun hl => ⟨hl, fun he => hp (BEq.symm he.2)⟩, And.left⟩

theorem barren_relist (v : Variable) (readers : OrderedSet Ident)
    (hr : r.world.overlay.isMarked n = true → readers.toList = [])
    (hb : ∀ {k}, r.world.overlay.isMarked k = true →
      ∃ v, r.world.lookup? k = some v ∧ v.children.toList = []) {k : Ident}
    (hk : (r.relist n v readers).world.overlay.isMarked k = true) :
    ∃ v', (r.relist n v readers).world.lookup? k = some v' ∧ v'.children.toList = [] := by
  rw [isMarked_relist] at hk
  rw [lookup?_relist]
  by_cases hn : (n == k) = true
  · rw [if_pos hn]
    exact ⟨_, rfl, hr (isMarked_congr r.world hn ▸ hk)⟩
  · rw [if_neg hn]
    exact hb hk

/-! ## Attaching a reader -/

/-- An attached reader is listed by the variable, which is live; what is read stays. -/
theorem attach_eq_ok (h : attach c p r = .ok () r') (hp : r.world.overlay.isMarked p = false) :
    (∀ c' p', r'.world.Reads c' p' ↔ r.world.Reads c' p') ∧
      (∀ p' c', r'.world.Lists p' c' ↔ r.world.Lists p' c' ∨ Edge c p c' p') ∧
      ∀ {missing surplus}, r.world.Wired surplus missing →
        ∀ {n}, r'.world.overlay.isMarked n = true →
          ∃ v, r'.world.lookup? n = some v ∧ v.children.toList = [] := by
  rw [attach_eq] at h
  cases hv : r.world.lookup? p with
  | none =>
    rw [hv] at h
    cases h
  | some v =>
    rw [hv] at h
    simp only at h
    -- a reader that is listed already is not listed again
    by_cases hc : v.children.contains c = true
    · rw [if_pos hc] at h
      cases h
      refine ⟨fun _ _ => Iff.rfl, fun p' c' => ⟨.inl, fun hl => hl.elim id fun he => ?_⟩,
        fun hw => hw.barren⟩
      exact (lists_congr r.world he.2 he.1).2 ((lists_of_lookup? hp hv).2 hc)
    · rw [if_neg hc] at h
      cases h
      refine ⟨reads_relist hv _, fun p' c' => lists_relist_insert hv hp c p' c',
        fun hw => barren_relist v _ (fun hm => ?_) hw.barren⟩
      rw [hp] at hm
      cases hm

/-- Attaching a reader puts a missing edge right. -/
theorem wired_attach_missing (h : attach c p r = .ok () r')
    (hp : r.world.overlay.isMarked p = false) (hr : r.world.Reads c p)
    (hw : r.world.Wired surplus (missing ⊔ Edge c p)) :
    r'.world.Wired surplus missing := by
  obtain ⟨hreads, hlists, hbarren⟩ := attach_eq_ok h hp
  refine ⟨fun {c' p'} hr' => ?_, fun {c' p'} hl => ?_, hbarren hw⟩
  · rw [hlists]
    rcases hw.listed ((hreads c' p').1 hr') with hl | hm | he
    · exact .inl (.inl hl)
    · exact .inr hm
    · exact .inl (.inr he)
  · rw [hreads]
    rcases (hlists p' c').1 hl with hl | he
    · exact hw.read hl
    · exact .inl ((reads_congr r.world he.1 he.2).2 hr)

/-- Attaching a reader that does not record the edge yet makes it surplus. -/
theorem wired_attach_surplus (h : attach c p r = .ok () r')
    (hp : r.world.overlay.isMarked p = false) (hw : r.world.Wired surplus missing) :
    r'.world.Wired (surplus ⊔ Edge c p) missing := by
  obtain ⟨hreads, hlists, hbarren⟩ := attach_eq_ok h hp
  refine ⟨fun {c' p'} hr => ?_, fun {c' p'} hl => ?_, hbarren hw⟩
  · rw [hlists]
    exact (hw.listed ((hreads c' p').1 hr)).imp_left .inl
  · rw [hreads]
    rcases (hlists p' c').1 hl with hl | he
    · exact (hw.read hl).imp_right .inl
    · exact .inr (.inr he)

/-! ## Detaching a reader -/

/-- The keys of the live variables. -/
def liveKeys (w : World) : Finset Ident.Key :=
  (((w.overlay.staged.keys ++ w.committed.keys).filter fun n => !w.overlay.isMarked n).map
    Ident.key).toFinset

theorem mem_keys_iff {t : Table Ident Variable} :
    (∃ k ∈ t.keys, (k == n) = true) ↔ ∃ v, t.get? n = some v := by
  simp only [Table.get?_eq_some_iff, Table.keys, List.mem_map]
  constructor
  · rintro ⟨_, ⟨⟨k, v⟩, he, rfl⟩, hk⟩
    exact ⟨v, k, hk, he⟩
  · rintro ⟨v, k, hk, he⟩
    exact ⟨k, ⟨(k, v), he, rfl⟩, hk⟩

theorem lookup?_isSome_iff : (∃ v, w.lookup? n = some v) ↔
    (∃ v, w.overlay.staged.get? n = some v) ∨ ∃ v, w.committed.get? n = some v := by
  unfold lookup?
  cases w.overlay.staged.get? n <;> simp

theorem mem_liveKeys : n.key ∈ w.liveKeys ↔ ∃ v, w.live? n = some v := by
  simp only [live?_eq_some, exists_and_left, lookup?_isSome_iff, ← mem_keys_iff]
  simp only [liveKeys, List.mem_toFinset, List.mem_map, List.mem_filter, List.mem_append,
    Bool.not_eq_true', ← Ident.beq_iff]
  constructor
  · rintro ⟨k, ⟨hk, hm⟩, hn⟩
    refine ⟨isMarked_congr w hn ▸ hm, hk.imp (fun h => ⟨k, h, hn⟩) fun h => ⟨k, h, hn⟩⟩
  · rintro ⟨hm, ⟨k, hk, hn⟩ | ⟨k, hk, hn⟩⟩
    · exact ⟨k, ⟨.inl hk, isMarked_congr w hn ▸ hm⟩, hn⟩
    · exact ⟨k, ⟨.inr hk, isMarked_congr w hn ▸ hm⟩, hn⟩

theorem exists_of_mem_liveKeys {key : Ident.Key} (h : key ∈ w.liveKeys) :
    ∃ n : Ident, n.key = key := by
  simp only [liveKeys, List.mem_toFinset, List.mem_map] at h
  exact h.imp fun _ hn => hn.2

theorem card_liveKeys_le (w : World) : w.liveKeys.card ≤ w.size := by
  refine (List.toFinset_card_le _).trans ?_
  rw [List.length_map]
  refine (List.length_filter_le ..).trans (le_of_eq ?_)
  rw [List.length_append, Table.keys, Table.keys, List.length_map, List.length_map, size,
    Table.size, Table.size, Nat.add_comm]

/-- With more marks fewer variables are live. -/
theorem Sheds.liveKeys_subset (h : Sheds r r') : r'.world.liveKeys ⊆ r.world.liveKeys := by
  intro k hk
  obtain ⟨n, rfl⟩ := exists_of_mem_liveKeys hk
  obtain ⟨v, hv⟩ := mem_liveKeys.1 hk
  obtain ⟨hm, hv⟩ := live?_eq_some.1 hv
  obtain ⟨v', hv', -⟩ := h.cores.symm.exists_core hv
  refine mem_liveKeys.2 ⟨v', live?_eq_some.2 ⟨Bool.eq_false_iff.2 fun hn => ?_, hv'⟩⟩
  rw [h.marks n hn] at hm
  cases hm

/-- Marking a live variable leaves fewer of them. -/
theorem Sheds.card_liveKeys_lt (h : Sheds r r') (hv : r.world.live? n = some v)
    (hn : r'.world.overlay.isMarked n = true) :
    r'.world.liveKeys.card < r.world.liveKeys.card := by
  refine Finset.card_lt_card (Finset.ssubset_iff_of_subset h.liveKeys_subset |>.2
    ⟨n.key, mem_liveKeys.2 ⟨v, hv⟩, fun hk => ?_⟩)
  obtain ⟨v', hv'⟩ := mem_liveKeys.1 hk
  rw [(live?_eq_some.1 hv').1] at hn
  cases hn

/-- A variable that goes with its last reader leaves one live variable less. -/
theorem card_liveKeys_marking {readers : OrderedSet Ident} (hv : r.world.lookup? p = some v)
    (hr : v.children = readers) (ha : r.abandons p readers = true) :
    ((r.marking p).write (markLine p)).world.liveKeys.card < r.world.liveKeys.card := by
  have hs := sheds_marking hv hr ha
  simp only [Run.abandons, Bool.and_eq_true, Bool.not_eq_true'] at ha
  refine hs.card_liveKeys_lt (live?_eq_some.2 ⟨ha.2, hv⟩) ?_
  rw [Run.world_write, Run.world_marking, isMarked_marking, BEq.refl, Bool.or_true]

/-- A step for each of several variables, each of which removes one surplus edge, removes them
all. -/
theorem wired_forM_detach {f : Ident → Step Unit} {qs : List Ident}
    (hs : ∀ q r, Sheds r ((f q).after r))
    (hf : ∀ {q r₁ r₂} {surplus : Ident → Ident → Prop}, Sheds r r₁ → f q r₁ = .ok () r₂ →
      ¬ r₁.world.Reads p q → r₁.world.Wired (surplus ⊔ Edge p q) missing →
      r₂.world.Wired surplus missing)
    (h : (qs.forM f : Step Unit) r = .ok () r') (hr : ∀ q ∈ qs, ¬ r.world.Reads p q)
    (hw : r.world.Wired (surplus ⊔ EdgesTo p qs) missing) : r'.world.Wired surplus missing := by
  induction qs generalizing r with
  | nil =>
    obtain rfl := Step.forM_nil_eq_ok.1 h
    exact hw.mono (fun he => .inr (he.resolve_right fun he => Bool.false_ne_true he.2)) .inr
  | cons q qs ih =>
    obtain ⟨r₁, hq, h⟩ := Step.forM_cons_eq_ok.1 h
    have hs₁ : Sheds r r₁ := Step.after_eq_of_ok hq ▸ hs q r
    -- the surplus edges of the later variables are carried along
    refine ih (fun h₁ => hf (hs₁.trans h₁)) h (fun q' hq' hr' => ?_) ?_
    · exact hr q' (List.mem_cons_of_mem _ hq') (hs₁.cores.reads_of_reads hs₁.marks hr')
    · refine hf (Sheds.refl r) hq (hr q List.mem_cons_self)
        (hw.mono (fun {c' p'} he => .inr ?_) .inr)
      rcases he with he | ⟨hc, hp⟩
      · exact .inl (.inl he)
      · rw [List.contains_cons, Bool.or_eq_true] at hp
        exact hp.elim (fun hp => .inr ⟨hc, hp⟩) fun hp => .inl (.inr ⟨hc, hp⟩)

/-- Taking a reader from a list removes a surplus edge. -/
theorem wired_relist_erase (hv : r.world.lookup? p = some v) (hr : ¬ r.world.Reads c p)
    (hw : r.world.Wired (surplus ⊔ Edge c p) missing) :
    (r.relist p v (v.children.erase c)).world.Wired surplus missing := by
  refine ⟨fun {c' p'} hr' => ?_, fun {c' p'} hl => ?_, barren_relist v _ (fun hm => ?_) hw.barren⟩
  · rw [reads_relist hv] at hr'
    rw [lists_relist_erase hv]
    refine (hw.listed hr').imp_left fun hl => ⟨hl, fun he => hr ?_⟩
    exact (reads_congr r.world he.1 he.2).1 hr'
  · rw [lists_relist_erase hv] at hl
    rw [reads_relist hv]
    exact (hw.read hl.1).imp_right fun he => he.resolve_right hl.2
  · obtain ⟨v', hv', hc⟩ := hw.barren hm
    obtain rfl : v = v' := Option.some.inj (hv.symm.trans hv')
    rw [OrderedSet.toList_erase, hc]
    rfl

/-- Marking a variable that nothing reads makes its own edges surplus. -/
theorem wired_marking (hv : w.lookup? n = some v) (hn : w.overlay.isMarked n = false)
    (hc : v.children.toList = []) (hw : w.Wired surplus missing) :
    (w.marking n).Wired (surplus ⊔ EdgesTo n v.parents.toList) missing := by
  refine ⟨fun {c' p'} hr => ?_, fun {c' p'} hl => ?_, fun {k} hk => ?_⟩
  · obtain ⟨hr, -⟩ := (reads_marking ..).1 hr
    -- the marked variable lists nobody, so no list is lost with it
    refine (hw.listed hr).imp_left fun hl => (lists_marking ..).2 ⟨hl, ?_⟩
    refine Bool.eq_false_iff.2 fun hp => ?_
    have hl := (lists_of_lookup? hn hv).1 ((lists_congr w hp (BEq.refl c')).1 hl)
    rw [contains_eq_false_of_toList hc] at hl
    cases hl
  · obtain ⟨hl, -⟩ := (lists_marking ..).1 hl
    rcases hw.read hl with hr | he
    · by_cases hcn : (c' == n) = true
      · have hp := (reads_of_lookup? hn hv).1 ((reads_congr w hcn (BEq.refl p')).1 hr)
        exact .inr (.inr ⟨hcn, hp⟩)
      · exact .inl ((reads_marking ..).2 ⟨hr, Bool.eq_false_iff.2 hcn⟩)
    · exact .inr (.inl he)
  · rw [isMarked_marking, Bool.or_eq_true] at hk
    rcases hk with hk | hk
    · exact hw.barren hk
    · exact ⟨v, by rw [lookup?_marking, lookup?_congr w hk, hv], hc⟩

/-- Detaching removes a surplus edge, if the chain of deletions is not cut off. -/
theorem wired_detachWithin {depth : Nat} (h : detachWithin depth c p r = .ok () r')
    (hd : r.world.liveKeys.card < depth) (hr : ¬ r.world.Reads c p)
    (hw : r.world.Wired (surplus ⊔ Edge c p) missing) : r'.world.Wired surplus missing := by
  induction depth generalizing c p r r' surplus with
  | zero => exact absurd hd (Nat.not_lt_zero _)
  | succ depth ih =>
    rw [detachWithin_succ] at h
    cases hv : r.world.lookup? p with
    | none =>
      rw [hv] at h
      cases h
    | some v =>
      rw [hv] at h
      simp only at h
      have hw₁ := wired_relist_erase hv hr hw
      have hs₁ := sheds_relist hv (v.children.erase c)
      have hv₁ := lookup?_relist_self r p v (v.children.erase c)
      generalize r.relist p v (v.children.erase c) = r₁ at h hw₁ hs₁ hv₁
      by_cases ha : r₁.abandons p (v.children.erase c) = true
      · rw [if_pos ha] at h
        have hless := card_liveKeys_marking hv₁ rfl ha
        simp only [Run.abandons, Bool.and_eq_true, Bool.not_eq_true'] at ha
        obtain ⟨⟨he, -⟩, hm⟩ := ha
        have hw₂ := wired_marking hv₁ hm (List.isEmpty_iff.1 he) hw₁
        rw [← Run.world_marking] at hw₂
        have hp : (r₁.marking p).world.overlay.isMarked p = true := by
          rw [Run.world_marking, isMarked_marking, BEq.refl, Bool.or_true]
        -- The chain goes on from a world with one live variable less.
        have hlt : ((r₁.marking p).write (markLine p)).world.liveKeys.card < depth := by
          have hle := Finset.card_le_card hs₁.liveKeys_subset
          omega
        refine wired_forM_detach (fun q r => sheds_detachWithin depth p q r)
          (fun h₁ hq => ih hq (lt_of_le_of_lt (Finset.card_le_card h₁.liveKeys_subset) hlt))
          h (fun q _ hq => ?_) hw₂
        obtain ⟨hm', -⟩ := reads_iff.1 hq
        rw [Run.world_write, hp] at hm'
        cases hm'
      · rw [if_neg ha] at h
        cases h
        exact hw₁

/-- **Detaching removes one surplus edge**, and nothing else becomes surplus or missing. -/
theorem wired_detach (h : detach c p r = .ok () r') (hr : ¬ r.world.Reads c p)
    (hw : r.world.Wired (surplus ⊔ Edge c p) missing) : r'.world.Wired surplus missing :=
  wired_detachWithin h (Nat.lt_succ_of_le (card_liveKeys_le _)) hr hw

/-! ## Reviving a variable -/

/-- The keys of the marked variables. -/
def markedKeys (w : World) : Finset Ident.Key := (w.overlay.marked.toList.map Ident.key).toFinset

theorem mem_markedKeys : n.key ∈ w.markedKeys ↔ w.overlay.isMarked n = true := by
  simp only [markedKeys, List.mem_toFinset, List.mem_map, ← Ident.beq_iff, Overlay.isMarked,
    OrderedSet.contains, List.contains_iff_exists_mem_beq]
  constructor
  · rintro ⟨k, hk, h⟩
    exact ⟨k, hk, BEq.symm h⟩
  · rintro ⟨k, hk, h⟩
    exact ⟨k, hk, BEq.symm h⟩

theorem card_markedKeys_le (w : World) : w.markedKeys.card ≤ w.overlay.marked.size := by
  refine (List.toFinset_card_le _).trans (le_of_eq ?_)
  rw [List.length_map, OrderedSet.size]

theorem Restores.markedKeys_subset (h : Restores r r') :
    r'.world.markedKeys ⊆ r.world.markedKeys := by
  intro k hk
  obtain ⟨n, rfl⟩ : ∃ n : Ident, n.key = k := by
    simp only [markedKeys, List.mem_toFinset, List.mem_map] at hk
    exact hk.imp fun _ hn => hn.2
  exact mem_markedKeys.2 (h.marks n (mem_markedKeys.1 hk))

/-- Taking a mark away leaves fewer of them. -/
theorem Restores.card_markedKeys_lt (h : Restores r r')
    (hn : r.world.overlay.isMarked n = true) (hn' : r'.world.overlay.isMarked n = false) :
    r'.world.markedKeys.card < r.world.markedKeys.card := by
  refine Finset.card_lt_card (Finset.ssubset_iff_of_subset h.markedKeys_subset |>.2
    ⟨n.key, mem_markedKeys.2 hn, fun hk => ?_⟩)
  rw [mem_markedKeys.1 hk] at hn'
  cases hn'

theorem Restores.isMarked_eq_false (h : Restores r r') (hn : r.world.overlay.isMarked n = false) :
    r'.world.overlay.isMarked n = false := by
  refine Bool.eq_false_iff.2 fun hm => ?_
  rw [h.marks n hm] at hn
  cases hn

/-- What is read stays read when marks go away. -/
theorem Restores.reads (h : Restores r r') (hr : r.world.Reads c p) : r'.world.Reads c p := by
  obtain ⟨hm, v, hv, hp⟩ := reads_iff.1 hr
  obtain ⟨v', hv', hcore⟩ := h.cores.exists_core hv
  refine reads_iff.2 ⟨h.isMarked_eq_false hm, v', hv', ?_⟩
  rw [parents_of_core hcore]
  exact hp

/-- What is listed stays listed when marks go away and no reader does. -/
theorem Restores.lists (h : Restores r r') (hl : r.world.Lists p c) : r'.world.Lists p c := by
  obtain ⟨hm, v, hv, hc⟩ := lists_iff.1 hl
  obtain ⟨v', hv', hc'⟩ := h.readers hv
  exact lists_iff.2 ⟨h.isMarked_eq_false hm, v', hv', hc' c hc⟩

/-- Taking the mark from a variable makes its own edges missing. -/
theorem wired_unmarking (hv : w.lookup? n = some v) (hn : w.overlay.isMarked n = true)
    (hw : w.Wired surplus missing) :
    (w.unmarking n).Wired surplus (missing ⊔ EdgesTo n v.parents.toList) := by
  obtain ⟨v', hv', hc⟩ := hw.barren hn
  obtain rfl : v = v' := Option.some.inj (hv.symm.trans hv')
  refine ⟨fun {c' p'} hr => ?_, fun {c' p'} hl => ?_, fun {k} hk => ?_⟩
  · rcases (reads_unmarking hv c' p').1 hr with hr | he
    · exact (hw.listed hr).imp (fun hl => (lists_unmarking hv p' c').2 (.inl hl)) .inl
    · exact .inr (.inr he)
  · rcases (lists_unmarking hv p' c').1 hl with hl | ⟨-, hl⟩
    · exact (hw.read hl).imp_left fun hr => (reads_unmarking hv c' p').2 (.inl hr)
    · rw [contains_eq_false_of_toList hc] at hl
      cases hl
  · rw [isMarked_unmarking, Bool.and_eq_true] at hk
    exact hw.barren hk.1

/-- Attaching a revived variable to each variable it reads, after reviving that one if it is
marked, puts all its missing edges right. -/
theorem wired_forM_attach {f : Ident → Step Unit} {ps : List Ident}
    (hs : ∀ p r, Restores r ((f p).after r))
    (hf : ∀ {p r₁ r₂} {missing : Ident → Ident → Prop}, Restores r r₁ → f p r₁ = .ok () r₂ →
      r₁.world.overlay.isMarked p = true → r₁.world.Wired surplus missing →
      r₂.world.Wired surplus missing ∧ r₂.world.overlay.isMarked p = false)
    (h : (ps.forM fun p => do
      if (← get).world.overlay.isMarked p then f p
      attach n p : Step Unit) r = .ok () r')
    (hr : ∀ p ∈ ps, r.world.Reads n p)
    (hw : r.world.Wired surplus (missing ⊔ EdgesTo n ps)) : r'.world.Wired surplus missing := by
  induction ps generalizing r with
  | nil =>
    obtain rfl := Step.forM_nil_eq_ok.1 h
    exact hw.mono .inr fun he => .inr (he.resolve_right fun he => Bool.false_ne_true he.2)
  | cons p ps ih =>
    obtain ⟨r₂, hp, h⟩ := Step.forM_cons_eq_ok.1 h
    have hw : r.world.Wired surplus ((missing ⊔ EdgesTo n ps) ⊔ Edge n p) := by
      refine hw.mono .inr fun {c' p'} he => .inr ?_
      rcases he with he | ⟨hc, hp⟩
      · exact .inl (.inl he)
      · rw [List.contains_cons, Bool.or_eq_true] at hp
        exact hp.elim (fun hp => .inr ⟨hc, hp⟩) fun hp => .inl (.inr ⟨hc, hp⟩)
    -- Whether it was marked or not, the variable is live when the reader is attached.
    obtain ⟨r₁, hs₁, hw₁, hm₁, ha⟩ : ∃ r₁, Restores r r₁ ∧
        r₁.world.Wired surplus ((missing ⊔ EdgesTo n ps) ⊔ Edge n p) ∧
        r₁.world.overlay.isMarked p = false ∧ attach n p r₁ = .ok () r₂ := by
      change (ite (r.world.overlay.isMarked p = true) _ _ : Step Unit) r = _ at hp
      by_cases hm : r.world.overlay.isMarked p = true
      · rw [if_pos hm] at hp
        obtain ⟨⟨⟩, r₁, hp, ha⟩ := Step.bind_eq_ok.1 hp
        obtain ⟨hw₁, hm₁⟩ := hf (Restores.refl r) hp hm hw
        exact ⟨r₁, Step.after_eq_of_ok hp ▸ hs p r, hw₁, hm₁, ha⟩
      · rw [if_neg hm] at hp
        exact ⟨r, Restores.refl r, hw, Bool.eq_false_iff.2 hm, hp⟩
    have hs₂ : Restores r r₂ := hs₁.trans (Step.after_eq_of_ok ha ▸ restores_attach n p r₁)
    refine ih (fun h₁ => hf (hs₂.trans h₁)) h
      (fun p' hp' => hs₂.reads (hr p' (List.mem_cons_of_mem _ hp'))) ?_
    exact wired_attach_missing ha hm₁ (hs₁.reads (hr p List.mem_cons_self)) hw₁

/-- Reviving a marked variable keeps the balance, if the chain of revivals is not cut off. -/
theorem wired_reviveWithin {depth : Nat} (h : reviveWithin depth n r = .ok () r')
    (hd : r.world.markedKeys.card < depth) (hn : r.world.overlay.isMarked n = true)
    (hw : r.world.Wired surplus missing) :
    r'.world.Wired surplus missing ∧ r'.world.overlay.isMarked n = false := by
  induction depth generalizing n r r' missing with
  | zero => exact absurd hd (Nat.not_lt_zero _)
  | succ depth ih =>
    rw [reviveWithin_succ] at h
    cases hv : r.world.lookup? n with
    | none =>
      rw [hv] at h
      cases h
    | some v =>
      rw [hv] at h
      simp only at h
      have hs₁ := restores_unmark r n
      have hw₁ := wired_unmarking hv hn hw
      have hn₁ : (r.world.unmarking n).overlay.isMarked n = false := by
        rw [isMarked_unmarking, BEq.refl, Bool.not_true, Bool.and_false]
      have hr₁ : ∀ p ∈ v.parents.toList, (r.world.unmarking n).Reads n p := fun p hp =>
        (reads_unmarking hv n p).2 (.inr ⟨BEq.refl n,
          List.contains_iff_exists_mem_beq.2 ⟨p, hp, BEq.refl p⟩⟩)
      -- Further links of the chain start from a world with one mark less.
      have hlt := hs₁.card_markedKeys_lt hn hn₁
      have hsn : Restores ((r.mapOverlay (·.unmark n)).write (reviveLine n)) r' :=
        Step.after_eq_of_ok h ▸ Step.after_forM Restores.refl Restores.trans
          (fun p r => restores_reviveLink (restores_reviveWithin depth) n p r) _
      refine ⟨wired_forM_attach (fun p r => restores_reviveWithin depth p r)
        (fun h₁ hp hm hw => ih hp ?_ hm hw) h hr₁ hw₁, hsn.isMarked_eq_false hn₁⟩
      have hle := Finset.card_le_card h₁.markedKeys_subset
      omega

/-- **Reviving keeps the balance** of a marked variable's edges, and the variable is live
afterwards. -/
theorem wired_revive (h : revive n r = .ok () r') (hn : r.world.overlay.isMarked n = true)
    (hw : r.world.Wired surplus missing) :
    r'.world.Wired surplus missing ∧ r'.world.overlay.isMarked n = false :=
  wired_reviveWithin h (Nat.lt_succ_of_le (card_markedKeys_le _)) hn hw

end Stochastic.World
