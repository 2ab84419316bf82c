import Stochastic.Proofs.World.Chains
import Stochastic.Proofs.World.Mooring

/-!
# Deletions and revivals as they unfold

Detaching a variable from a parent may leave the parent without readers; then it is marked, and
detached from its own parents in turn.  Reviving a variable revives its marked parents, and theirs.
Both walk along parent links of a world that they change while they walk, and nothing is assumed of
these links here but that all parents are there: a variable may be reached along many ways, and may
be its own ancestor.

The two walks are described without any bound on their length, as derivations.  A derivation is a
finite tree of the calls that are made, so a walk that has one comes to an end.  What the walks
leave behind is proved by induction on derivations: a variable that is marked is taken from all
lists of children before the walk returns, because lists of children only lose members meanwhile;
and a variable that is revived is on all of them, because they only gain members.

## Main definitions

* `World.Detaching` — how detaching a variable from others unfolds, with the marks that are made.
* `World.Reviving` — how bringing back the parents of a variable unfolds.
* `World.Recalled` — the variables that a revival reaches.

## Main results

* `World.detach_eq_ok_iff`, `World.revive_eq_ok_iff` — these are the walks that are taken.
* `World.Detaching.not_hasChild_of_mem` — marked variables are on no list of children.
* `World.Reviving.recovers` — revived variables are on all of them.
* `World.cascade_consistent` — both walks end and leave marks and lists in agreement.
-/

namespace Stochastic.World

variable {w w' : World} {r r' : Run} {n k c p q : Ident} {v : Variable} {ps : List Ident}
  {marks : List (Ident × Run)} {depth : Nat}

/-! ## Lists of children -/

/-- The variable `p`, be it marked or not, has `c` among its children. -/
def HasChild (w : World) (p c : Ident) : Prop :=
  ∃ v, w.lookup? p = some v ∧ v.children.contains c = true

theorem hasChild_congr {p' c' : Ident} (w : World) (hp : (p == p') = true)
    (hc : (c == c') = true) : w.HasChild p c ↔ w.HasChild p' c' := by
  simp only [HasChild, lookup?_congr w hp, OrderedSet.contains_congr _ hc]

/-- The parents of a variable, as found under its identifier. -/
theorem needs_of_lookup? (hv : w.lookup? c = some v) :
    w.Needs c p ↔ v.parents.contains p = true := by
  simp only [Needs, hv, Option.some.injEq, exists_eq_left']

theorem needs_of_mem (hv : w.lookup? c = some v) (hp : p ∈ v.parents.toList) : w.Needs c p :=
  (needs_of_lookup? hv).2 (List.contains_iff_exists_mem_beq.2 ⟨p, hp, BEq.refl p⟩)

theorem hasChild_relist (r : Run) (n : Ident) (v : Variable) (readers : OrderedSet Ident)
    (p c : Ident) : (r.relist n v readers).world.HasChild p c ↔
      if n == p then readers.contains c = true else r.world.HasChild p c := by
  rw [HasChild, lookup?_relist]
  by_cases h : (n == p) = true
  · simp only [h, if_true, Option.some.injEq, exists_eq_left']
  · simp only [h, if_false, Bool.false_eq_true]
    rfl

/-- A mark takes no child away. -/
theorem hasChild_of_marking {line : LogLine}
    (h : ((r.marking n).write line).world.HasChild p c) : r.world.HasChild p c := by
  rwa [Run.world_write, Run.world_marking] at h

/-- The run in which `c` is no child of `p` any more. -/
abbrev Run.erasing (r : Run) (c p : Ident) (v : Variable) : Run :=
  r.relist p v (v.children.erase c)

theorem hasChild_of_erasing (hv : r.world.lookup? p = some v)
    (h : (r.erasing c p v).world.HasChild q k) : r.world.HasChild q k := by
  rw [hasChild_relist] at h
  by_cases hq : (p == q) = true
  · rw [if_pos hq, OrderedSet.contains_erase, Bool.and_eq_true] at h
    exact ⟨v, lookup?_congr r.world hq ▸ hv, h.1⟩
  · rwa [if_neg hq] at h

theorem not_hasChild_erasing (r : Run) (c p : Ident) (v : Variable) :
    ¬ (r.erasing c p v).world.HasChild p c := by
  rw [hasChild_relist, if_pos (BEq.refl p), OrderedSet.contains_erase, BEq.refl]
  simp

/-! ## Detaching -/

/-- Detaching `c` from the listed variables in turn, with all deletions that follow.  The last list
holds the variables that are marked, in order, each with the run in which this is done. -/
inductive Detaching : Ident → List Ident → Run → List (Ident × Run) → Run → Prop where
  /-- There is nothing left to be detached from. -/
  | done {c : Ident} {r : Run} : Detaching c [] r [] r
  /-- The variable still has a child, or is protected, or has been marked before. -/
  | stays {c p : Ident} {ps : List Ident} {r r' : Run} {v : Variable} {marks : List (Ident × Run)}
      (found : r.world.lookup? p = some v)
      (kept : (r.erasing c p v).abandons p (v.children.erase c) = false)
      (rest : Detaching c ps (r.erasing c p v) marks r') : Detaching c (p :: ps) r marks r'
  /-- The variable is marked, and is detached from its parents before anything else is done. -/
  | goes {c p : Ident} {ps : List Ident} {r r₁ r' : Run} {v : Variable}
      {marks marks' : List (Ident × Run)} (found : r.world.lookup? p = some v)
      (abandoned : (r.erasing c p v).abandons p (v.children.erase c) = true)
      (chain : Detaching p v.parents.toList
        (((r.erasing c p v).marking p).write (markLine p)) marks r₁)
      (rest : Detaching c ps r₁ marks' r') :
      Detaching c (p :: ps) r ((p, r.erasing c p v) :: (marks ++ marks')) r'

theorem sheds_erasing_marking (hv : r.world.lookup? p = some v)
    (ha : (r.erasing c p v).abandons p (v.children.erase c) = true) :
    Sheds r (((r.erasing c p v).marking p).write (markLine p)) :=
  (sheds_relist hv _).trans (sheds_marking (lookup?_relist_self ..) rfl ha)

theorem Detaching.sheds (h : Detaching c ps r marks r') : Sheds r r' := by
  induction h with
  | done => exact Sheds.refl _
  | stays found _ _ ih => exact (sheds_relist found _).trans ih
  | goes found abandoned _ _ ihchain ih =>
    exact (sheds_erasing_marking found abandoned).trans (ihchain.trans ih)

/-- Marking an abandoned variable leaves fewer live ones than there were before the detachment. -/
theorem card_liveKeys_goes (hv : r.world.lookup? p = some v)
    (ha : (r.erasing c p v).abandons p (v.children.erase c) = true) :
    (((r.erasing c p v).marking p).write (markLine p)).world.liveKeys.card <
      r.world.liveKeys.card := by
  apply lt_of_lt_of_le (card_liveKeys_marking (lookup?_relist_self ..) rfl ha)
  exact Finset.card_le_card (sheds_relist hv _).liveKeys_subset

/-- Detaching that is bounded by more than the number of live variables unfolds without a bound. -/
theorem detaching_of_forM (hd : r.world.liveKeys.card < depth)
    (h : (ps.forM (detachWithin depth c) : Step Unit) r = .ok () r') :
    ∃ marks, Detaching c ps r marks r' := by
  induction depth generalizing c ps r r' with
  | zero => exact absurd hd (Nat.not_lt_zero _)
  | succ depth ihdepth =>
    induction ps generalizing r with
    | nil =>
      obtain rfl := Step.forM_nil_eq_ok.1 h
      exact ⟨[], .done⟩
    | cons p ps ih =>
      obtain ⟨r₁, hp, h⟩ := Step.forM_cons_eq_ok.1 h
      have hs : Sheds r r₁ := Step.after_eq_of_ok hp ▸ sheds_detachWithin (depth + 1) c p r
      obtain ⟨marks', hrest⟩ :=
        ih (lt_of_le_of_lt (Finset.card_le_card hs.liveKeys_subset) hd) h
      rw [detachWithin_succ] at hp
      cases hv : r.world.lookup? p with
      | none =>
        rw [hv] at hp
        cases hp
      | some v =>
        rw [hv] at hp
        by_cases ha : (r.erasing c p v).abandons p (v.children.erase c) = true
        · simp only [ha, if_true] at hp
          obtain ⟨marks, hchain⟩ := ihdepth
            (lt_of_lt_of_le (card_liveKeys_goes hv ha) (Nat.le_of_lt_succ hd)) hp
          exact ⟨_, .goes hv ha hchain hrest⟩
        · simp only [ha, if_false, Bool.false_eq_true] at hp
          cases hp
          exact ⟨marks', .stays hv (Bool.eq_false_iff.2 ha) hrest⟩

/-- What unfolds without a bound is what any such bound gives. -/
theorem Detaching.forM_eq (h : Detaching c ps r marks r') (hd : r.world.liveKeys.card < depth) :
    (ps.forM (detachWithin depth c) : Step Unit) r = .ok () r' := by
  induction h generalizing depth with
  | done => rfl
  | @stays c p ps r r' v marks found kept _ ih =>
    obtain ⟨depth, rfl⟩ := Nat.exists_eq_add_one_of_ne_zero (Nat.ne_zero_of_lt hd)
    refine Step.forM_cons_eq_ok.2 ⟨r.erasing c p v, ?_, ih ?_⟩
    · rw [detachWithin_succ, found]
      simp only [kept, if_false, Bool.false_eq_true]
    · exact lt_of_le_of_lt (Finset.card_le_card (sheds_relist found _).liveKeys_subset) hd
  | @goes c p ps r r₁ r' v marks marks' found abandoned chain _ ihchain ih =>
    obtain ⟨depth, rfl⟩ := Nat.exists_eq_add_one_of_ne_zero (Nat.ne_zero_of_lt hd)
    have hless := card_liveKeys_goes found abandoned
    refine Step.forM_cons_eq_ok.2 ⟨r₁, ?_, ih ?_⟩
    · rw [detachWithin_succ, found]
      simp only [abandoned, if_true]
      exact ihchain (by omega)
    · have hle := Finset.card_le_card chain.sheds.liveKeys_subset
      omega

/-- **Detaching is what unfolds without a bound.** -/
theorem detach_eq_ok_iff :
    detach c p r = .ok () r' ↔ ∃ marks, Detaching c [p] r marks r' := by
  have hd : r.world.liveKeys.card < r.world.size + 1 := Nat.lt_succ_of_le (card_liveKeys_le _)
  have hone : detach c p r = .ok () r' ↔
      ([p].forM (detachWithin (r.world.size + 1) c) : Step Unit) r = .ok () r' := by
    constructor
    · intro h
      exact Step.forM_cons_eq_ok.2 ⟨r', h, Step.forM_nil_eq_ok.2 rfl⟩
    · intro h
      obtain ⟨r₁, hp, h⟩ := Step.forM_cons_eq_ok.1 h
      obtain rfl := Step.forM_nil_eq_ok.1 h
      exact hp
  rw [hone]
  constructor
  · exact detaching_of_forM hd
  · rintro ⟨marks, h⟩
    exact h.forM_eq hd

/-! ### Marks -/

/-- The marks afterwards are those of before and those that are made. -/
theorem Detaching.isMarked_iff (h : Detaching c ps r marks r') (k : Ident) :
    r'.world.overlay.isMarked k = true ↔
      r.world.overlay.isMarked k = true ∨ ∃ e ∈ marks, (k == e.1) = true := by
  induction h with
  | done => simp
  | stays _ _ _ ih => rw [ih, isMarked_relist]
  | goes _ _ _ _ ihchain ih =>
    rw [ih, ihchain, Run.world_write, Run.world_marking, isMarked_marking, isMarked_relist,
      Bool.or_eq_true]
    simp only [List.mem_cons, List.mem_append, or_and_right, exists_or, exists_eq_left, or_assoc]

/-- A variable is marked when it is live, not protected, and without children. -/
theorem Detaching.unread_of_mem (h : Detaching c ps r marks r') :
    ∀ e ∈ marks, e.2.world.overlay.isMarked e.1 = false ∧ e.2.isProtected e.1 = false ∧
      ∃ v, e.2.world.lookup? e.1 = some v ∧ v.children.toList = [] := by
  induction h with
  | done => exact fun e he => absurd he List.not_mem_nil
  | stays _ _ _ ih => exact ih
  | @goes c p ps r r₁ r' v marks marks' found abandoned _ _ ihchain ih =>
    intro e he
    rcases List.mem_cons.1 he with rfl | he
    · simp only [Run.abandons, Bool.and_eq_true, Bool.not_eq_true'] at abandoned
      obtain ⟨⟨hempty, hprotected⟩, hmarked⟩ := abandoned
      exact ⟨hmarked, hprotected, _, lookup?_relist_self .., List.isEmpty_iff.1 hempty⟩
    · exact (List.mem_append.1 he).elim (ihchain e) (ih e)

/-! ### Children -/

/-- Lists of children only lose members. -/
theorem Detaching.hasChild_before (h : Detaching c ps r marks r')
    (hk : r'.world.HasChild q k) : r.world.HasChild q k := by
  induction h with
  | done => exact hk
  | stays found _ _ ih => exact hasChild_of_erasing found (ih hk)
  | goes found _ _ _ ihchain ih =>
    exact hasChild_of_erasing found (hasChild_of_marking (ihchain (ih hk)))

/-- The variable is no child of those that it has been detached from. -/
theorem Detaching.not_hasChild (h : Detaching c ps r marks r') :
    ∀ p ∈ ps, ¬ r'.world.HasChild p c := by
  induction h with
  | done => exact fun p hp => absurd hp List.not_mem_nil
  | @stays c p ps r r' v marks _ _ rest ih =>
    refine List.forall_mem_cons.2 ⟨fun hchild => ?_, ih⟩
    exact not_hasChild_erasing r c p v (rest.hasChild_before hchild)
  | @goes c p ps r r₁ r' v marks marks' _ _ chain rest _ ih =>
    refine List.forall_mem_cons.2 ⟨fun hchild => ?_, ih⟩
    have hchild := chain.hasChild_before (rest.hasChild_before hchild)
    exact not_hasChild_erasing r c p v (hasChild_of_marking hchild)

/-- **A variable that is marked is a child of none of its parents afterwards.** -/
theorem Detaching.not_hasChild_of_mem (h : Detaching c ps r marks r') :
    ∀ e ∈ marks, ∀ q, r'.world.Needs e.1 q → ¬ r'.world.HasChild q e.1 := by
  induction h with
  | done => exact fun e he => absurd he List.not_mem_nil
  | stays _ _ _ ih => exact ih
  | @goes c p ps r r₁ r' v marks marks' found abandoned chain rest ihchain ih =>
    intro e he q hneeds hchild
    rcases List.mem_cons.1 he with rfl | he
    · -- it was detached from all its parents by the chain, and comes back to none of them
      have hcores := ((sheds_erasing_marking found abandoned).trans
        (chain.sheds.trans rest.sheds)).cores
      have hq := (needs_of_lookup? found).1 (hneeds.sameCores hcores.symm)
      obtain ⟨q', hq', hqq⟩ := List.contains_iff_exists_mem_beq.1 hq
      apply chain.not_hasChild q' hq'
      exact rest.hasChild_before ((hasChild_congr _ hqq (BEq.refl _)).1 hchild)
    · rcases List.mem_append.1 he with he | he
      · exact ihchain e he q (hneeds.sameCores rest.sheds.cores.symm) (rest.hasChild_before hchild)
      · exact ih e he q hneeds hchild

/-! ## Reviving -/

/-- The run in which a variable has lost its mark. -/
abbrev Run.unmarking (r : Run) (n : Ident) : Run :=
  (r.mapOverlay (·.unmark n)).write (reviveLine n)

theorem isMarked_run_unmarking (r : Run) (n k : Ident) :
    (r.unmarking n).world.overlay.isMarked k = (r.world.overlay.isMarked k && !(k == n)) :=
  isMarked_unmarking r.world n k

/-- All others keep their marks. -/
theorem isMarked_unmarking_of_ne (hk : r.world.overlay.isMarked k = true)
    (hne : ¬ (k == n) = true) : (r.unmarking n).world.overlay.isMarked k = true := by
  rw [isMarked_run_unmarking, hk, Bool.true_and, Bool.eq_false_iff.2 hne, Bool.not_false]

/-- The variable itself loses it. -/
theorem isMarked_unmarking_self (r : Run) (hk : (k == n) = true) :
    (r.unmarking n).world.overlay.isMarked k = false := by
  rw [isMarked_run_unmarking, hk, Bool.not_true, Bool.and_false]

/-- Bringing back the listed parents of `n` in turn: those that are marked are revived, and `n`
becomes a child of each. -/
inductive Reviving : Ident → List Ident → Run → Run → Prop where
  /-- There is no parent left. -/
  | done {n : Ident} {r : Run} : Reviving n [] r r
  /-- The parent is not marked. -/
  | live {n p : Ident} {ps : List Ident} {r r₁ r' : Run}
      (unmarked : r.world.overlay.isMarked p = false) (attached : attach n p r = .ok () r₁)
      (rest : Reviving n ps r₁ r') : Reviving n (p :: ps) r r'
  /-- The parent is marked, and its own parents are brought back first. -/
  | revived {n p : Ident} {ps : List Ident} {r r₁ r₂ r' : Run} {v : Variable}
      (marked : r.world.overlay.isMarked p = true) (found : r.world.lookup? p = some v)
      (chain : Reviving p v.parents.toList (r.unmarking p) r₁)
      (attached : attach n p r₁ = .ok () r₂) (rest : Reviving n ps r₂ r') :
      Reviving n (p :: ps) r r'

/-- One parent of a revived variable, within a bound. -/
def reviveLink (depth : Nat) (n p : Ident) : Step Unit := do
  if (← get).world.overlay.isMarked p then reviveWithin depth p
  attach n p

theorem reviveLink_eq_ok : reviveLink depth n p r = .ok () r' ↔
    if r.world.overlay.isMarked p then
      ∃ r₁, reviveWithin depth p r = .ok () r₁ ∧ attach n p r₁ = .ok () r'
    else attach n p r = .ok () r' := by
  rw [reviveLink, Step.get_bind]
  by_cases hm : r.world.overlay.isMarked p = true
  · rw [if_pos hm, if_pos hm, Step.bind_eq_ok]
    constructor
    · rintro ⟨_, r₁, hrevive, ha⟩
      exact ⟨r₁, hrevive, ha⟩
    · rintro ⟨r₁, hrevive, ha⟩
      exact ⟨(), r₁, hrevive, ha⟩
  · rw [if_neg hm, if_neg hm]

/-- A revival within a bound that succeeds, taken apart. -/
theorem reviveWithin_succ_eq_ok : reviveWithin (depth + 1) n r = .ok () r' ↔
    ∃ v, r.world.lookup? n = some v ∧
      (v.parents.toList.forM (reviveLink depth n) : Step Unit) (r.unmarking n) = .ok () r' := by
  rw [reviveWithin_succ]
  cases r.world.lookup? n with
  | none => simp
  | some v =>
    simp only [Option.some.injEq, exists_eq_left']
    rfl

theorem restores_of_attach (h : attach n p r = .ok () r') : Restores r r' :=
  Step.after_eq_of_ok h ▸ restores_attach n p r

theorem Reviving.restores (h : Reviving n ps r r') : Restores r r' := by
  induction h with
  | done => exact Restores.refl _
  | live _ attached _ ih => exact (restores_of_attach attached).trans ih
  | revived _ _ _ attached _ ihchain ih =>
    exact (restores_unmark ..).trans (ihchain.trans ((restores_of_attach attached).trans ih))

/-- A revival that is bounded by the number of marks unfolds without a bound. -/
theorem reviving_of_forM (hd : r.world.markedKeys.card ≤ depth)
    (h : (ps.forM (reviveLink depth n) : Step Unit) r = .ok () r') : Reviving n ps r r' := by
  induction depth using Nat.strong_induction_on generalizing n ps r r' with
  | _ depth ihdepth =>
    induction ps generalizing r with
    | nil =>
      obtain rfl := Step.forM_nil_eq_ok.1 h
      exact .done
    | cons p ps ih =>
      obtain ⟨r₂, hp, h⟩ := Step.forM_cons_eq_ok.1 h
      have hlink := reviveLink_eq_ok.1 hp
      by_cases hm : r.world.overlay.isMarked p = true
      · rw [if_pos hm] at hlink
        obtain ⟨r₁, hrevive, ha⟩ := hlink
        -- there is a mark, so the bound leaves room for one more call
        have hless : (r.unmarking p).world.markedKeys.card < _ := card_markedKeys_unmark hm
        obtain ⟨depth, rfl⟩ :=
          Nat.exists_eq_add_one_of_ne_zero (Nat.ne_zero_of_lt (hless.trans_le hd))
        obtain ⟨v, hv, hchain⟩ := reviveWithin_succ_eq_ok.1 hrevive
        have hchain := ihdepth depth (Nat.lt_succ_self depth) (by omega) hchain
        have hs := (restores_unmark r p).trans (hchain.restores.trans (restores_of_attach ha))
        have hle := Finset.card_le_card hs.markedKeys_subset
        exact .revived hm hv hchain ha (ih (hle.trans hd) h)
      · rw [if_neg hm] at hlink
        have hle := Finset.card_le_card (restores_of_attach hlink).markedKeys_subset
        exact .live (Bool.eq_false_iff.2 hm) hlink (ih (hle.trans hd) h)

/-- What unfolds without a bound is what any such bound gives. -/
theorem Reviving.forM_eq (h : Reviving n ps r r') (hd : r.world.markedKeys.card ≤ depth) :
    (ps.forM (reviveLink depth n) : Step Unit) r = .ok () r' := by
  induction h generalizing depth with
  | done => rfl
  | @live n p ps r r₁ r' unmarked attached _ ih =>
    refine Step.forM_cons_eq_ok.2 ⟨r₁, ?_, ih ?_⟩
    · rw [reviveLink_eq_ok, unmarked, if_neg Bool.false_ne_true]
      exact attached
    · exact (Finset.card_le_card (restores_of_attach attached).markedKeys_subset).trans hd
  | @revived n p ps r r₁ r₂ r' v marked found chain attached _ ihchain ih =>
    have hless : (r.unmarking p).world.markedKeys.card < _ := card_markedKeys_unmark marked
    obtain ⟨depth, rfl⟩ := Nat.exists_eq_add_one_of_ne_zero (Nat.ne_zero_of_lt (hless.trans_le hd))
    refine Step.forM_cons_eq_ok.2 ⟨r₂, ?_, ih ?_⟩
    · rw [reviveLink_eq_ok, if_pos marked]
      exact ⟨r₁, reviveWithin_succ_eq_ok.2 ⟨v, found, ihchain (by omega)⟩, attached⟩
    · have hs := (restores_unmark r p).trans (chain.restores.trans (restores_of_attach attached))
      exact (Finset.card_le_card hs.markedKeys_subset).trans hd

/-- **Reviving is what unfolds without a bound.** -/
theorem revive_eq_ok_iff : revive n r = .ok () r' ↔
    ∃ v, r.world.lookup? n = some v ∧ Reviving n v.parents.toList (r.unmarking n) r' := by
  have hd : (r.unmarking n).world.markedKeys.card ≤ r.world.overlay.marked.size :=
    (Finset.card_le_card (restores_unmark r n).markedKeys_subset).trans (card_markedKeys_le _)
  have hone : revive n r = .ok () r' ↔
      reviveWithin (r.world.overlay.marked.size + 1) n r = .ok () r' := Iff.rfl
  rw [hone, reviveWithin_succ_eq_ok]
  constructor
  · rintro ⟨v, hv, h⟩
    exact ⟨v, hv, reviving_of_forM hd h⟩
  · rintro ⟨v, hv, h⟩
    exact ⟨v, hv, h.forM_eq hd⟩

/-! ### Children and marks -/

/-- Attaching either finds the child there or puts it there. -/
theorem exists_of_attach (h : attach n p r = .ok () r') :
    ∃ v, r.world.lookup? p = some v ∧
      (v.children.contains n = true ∧ r' = r ∨ r' = r.relist p v (v.children.insert n)) := by
  rw [attach_eq] at h
  cases hv : r.world.lookup? p with
  | none =>
    rw [hv] at h
    cases h
  | some v =>
    rw [hv] at h
    refine ⟨v, rfl, ?_⟩
    by_cases hc : v.children.contains n = true
    · simp only [hc, if_true] at h
      cases h
      exact .inl ⟨hc, rfl⟩
    · simp only [hc, if_false, Bool.false_eq_true] at h
      cases h
      exact .inr rfl

theorem hasChild_of_attach (h : attach n p r = .ok () r') : r'.world.HasChild p n := by
  obtain ⟨v, hv, ⟨hc, rfl⟩ | rfl⟩ := exists_of_attach h
  · exact ⟨v, hv, hc⟩
  · rw [hasChild_relist, if_pos (BEq.refl p), OrderedSet.contains_insert, BEq.refl, Bool.or_true]

/-- Attaching changes no mark. -/
theorem isMarked_of_attach (h : attach n p r = .ok () r') (k : Ident) :
    r'.world.overlay.isMarked k = r.world.overlay.isMarked k := by
  obtain ⟨v, -, ⟨-, rfl⟩ | rfl⟩ := exists_of_attach h
  · rfl
  · exact isMarked_relist ..

/-- The variable `q` is live and has `k` among its children. -/
def Recovered (w : World) (k q : Ident) : Prop :=
  w.overlay.isMarked q = false ∧ w.HasChild q k

theorem recovered_congr {k' q' : Ident} (w : World) (hk : (k == k') = true)
    (hq : (q == q') = true) : w.Recovered k q ↔ w.Recovered k' q' := by
  rw [Recovered, Recovered, isMarked_congr w hq, hasChild_congr w hq hk]

theorem Recovered.restores (h : r.world.Recovered k q) (hs : Restores r r') :
    r'.world.Recovered k q := by
  obtain ⟨hm, v, hv, hk⟩ := h
  obtain ⟨v', hv', hk'⟩ := hs.readers hv
  exact ⟨hs.isMarked_eq_false hm, v', hv', hk' k hk⟩

/-- The listed parents are live afterwards and have the variable among their children. -/
theorem Reviving.recovers_listed (h : Reviving n ps r r') :
    ∀ p ∈ ps, r'.world.Recovered n p := by
  induction h with
  | done => exact fun p hp => absurd hp List.not_mem_nil
  | @live n p ps r r₁ r' unmarked attached rest ih =>
    refine List.forall_mem_cons.2 ⟨Recovered.restores ⟨?_, ?_⟩ rest.restores, ih⟩
    · rw [isMarked_of_attach attached, unmarked]
    · exact hasChild_of_attach attached
  | @revived n p ps r r₁ r₂ r' v _ _ chain attached rest _ ih =>
    refine List.forall_mem_cons.2 ⟨Recovered.restores ⟨?_, ?_⟩ rest.restores, ih⟩
    · rw [isMarked_of_attach attached]
      exact chain.restores.isMarked_eq_false (isMarked_unmarking_self r (BEq.refl p))
    · exact hasChild_of_attach attached

/-- All parents of a variable are recovered if those are that are found under its identifier. -/
theorem recovered_of_needs (hv : w.lookup? p = some v) (hs : w.SameCores w')
    (h : ∀ q ∈ v.parents.toList, w'.Recovered p q) (hk : (k == p) = true)
    (hneeds : w'.Needs k q) : w'.Recovered k q := by
  have hq := (needs_of_lookup? hv).1 (((needs_congr _ hk (BEq.refl q)).1 hneeds).sameCores hs.symm)
  obtain ⟨q', hq', hqq⟩ := List.contains_iff_exists_mem_beq.1 hq
  exact (recovered_congr _ hk hqq).2 (h q' hq')

/-- **A variable that has lost its mark is a child of all its parents**, and these are live. -/
theorem Reviving.recovers (h : Reviving n ps r r') (hk : r.world.overlay.isMarked k = true)
    (hk' : r'.world.overlay.isMarked k = false) (hneeds : r'.world.Needs k q) :
    r'.world.Recovered k q := by
  induction h with
  | done =>
    rw [hk] at hk'
    cases hk'
  | live _ attached _ ih =>
    rw [← isMarked_of_attach attached] at hk
    exact ih hk hk' hneeds
  | @revived n p ps r r₁ r₂ r' v _ found chain attached rest ihchain ih =>
    have hs := (restores_of_attach attached).trans rest.restores
    by_cases hkp : (k == p) = true
    · exact recovered_of_needs found (chain.restores.trans hs).cores
        (fun q hq => (chain.recovers_listed q hq).restores hs) hkp hneeds
    · -- it lost its mark within the chain or after it
      by_cases hk₁ : r₁.world.overlay.isMarked k = true
      · rw [← isMarked_of_attach attached] at hk₁
        exact ih hk₁ hk' hneeds
      · have hchain := ihchain (isMarked_unmarking_of_ne hk hkp) (Bool.eq_false_iff.2 hk₁)
          (hneeds.sameCores hs.cores.symm)
        exact hchain.restores hs

/-! ### What a revival reaches -/

/-- The variables that a revival of `n` reaches: `n` itself, and the marked parents of those that
it reaches. -/
inductive Recalled (w : World) (n : Ident) : Ident → Prop where
  | self {k : Ident} (same : (k == n) = true) : Recalled w n k
  | parent {c p : Ident} (reached : Recalled w n c) (needs : w.Needs c p)
      (marked : w.overlay.isMarked p = true) : Recalled w n p

theorem Recalled.trans (h : w.Recalled n p) (h' : w.Recalled p k) : w.Recalled n k := by
  induction h' with
  | self same =>
    cases h with
    | self same' => exact .self (BEq.trans same same')
    | parent reached needs marked =>
      refine .parent reached ((needs_congr w (BEq.refl _) (BEq.symm same)).1 needs) ?_
      rw [isMarked_congr w same, marked]
  | parent _ needs marked ih => exact .parent ih needs marked

/-- With more marks no fewer variables are reached. -/
theorem Recalled.restores (h : r'.world.Recalled n k) (hs : Restores r r') :
    r.world.Recalled n k := by
  induction h with
  | self same => exact .self same
  | parent _ needs marked ih =>
    exact .parent ih (needs.sameCores hs.cores.symm) (hs.marks _ marked)

/-- What is reached from a marked parent is reached from the variable itself. -/
theorem Recalled.of_parent (hv : r.world.lookup? n = some v) (hp : p ∈ v.parents.toList)
    (hm : (r.unmarking n).world.overlay.isMarked p = true)
    (h : (r.unmarking n).world.Recalled p k) : r.world.Recalled n k := by
  have hs := restores_unmark r n
  have hparent := Recalled.parent (.self (BEq.refl n)) (needs_of_mem hv hp) (hs.marks p hm)
  exact hparent.trans (h.restores hs)

/-- Only what is reached from a marked parent loses its mark. -/
theorem Reviving.recalled (h : Reviving n ps r r') (hk : r.world.overlay.isMarked k = true)
    (hk' : r'.world.overlay.isMarked k = false) :
    ∃ p ∈ ps, r.world.overlay.isMarked p = true ∧ r.world.Recalled p k := by
  induction h with
  | done =>
    rw [hk] at hk'
    cases hk'
  | @live n p ps r r₁ r' _ attached _ ih =>
    have hs := restores_of_attach attached
    obtain ⟨q, hq, hm, hrecalled⟩ := ih (by rwa [isMarked_of_attach attached]) hk'
    exact ⟨q, List.mem_cons_of_mem p hq, hs.marks q hm, hrecalled.restores hs⟩
  | @revived n p ps r r₁ r₂ r' v marked found chain attached _ ihchain ih =>
    by_cases hkp : (k == p) = true
    · exact ⟨p, List.mem_cons_self, marked, .self hkp⟩
    · have hs := (restores_unmark r p).trans (chain.restores.trans (restores_of_attach attached))
      by_cases hk₁ : r₁.world.overlay.isMarked k = true
      · obtain ⟨q, hq, hm, hrecalled⟩ := ih (by rwa [isMarked_of_attach attached]) hk'
        exact ⟨q, List.mem_cons_of_mem p hq, hs.marks q hm, hrecalled.restores hs⟩
      · -- a parent of the parent is reached through it
        obtain ⟨q, hq, hm, hrecalled⟩ :=
          ihchain (isMarked_unmarking_of_ne hk hkp) (Bool.eq_false_iff.2 hk₁)
        exact ⟨p, List.mem_cons_self, marked, .of_parent found hq hm hrecalled⟩

/-- **What a revival reaches is live afterwards**, and a child of all its parents, which are live as
well. -/
theorem Recalled.recovers (h : r.world.Recalled n k) (hv : r.world.lookup? n = some v)
    (hr : Reviving n v.parents.toList (r.unmarking n) r') :
    r'.world.overlay.isMarked k = false ∧ ∀ q, r'.world.Needs k q → r'.world.Recovered k q := by
  have hs := (restores_unmark r n).trans hr.restores
  have hself : ∀ {k}, (k == n) = true →
      r'.world.overlay.isMarked k = false ∧ ∀ q, r'.world.Needs k q → r'.world.Recovered k q := by
    intro k hk
    refine ⟨hr.restores.isMarked_eq_false (isMarked_unmarking_self r hk), fun q hneeds => ?_⟩
    exact recovered_of_needs hv hs.cores hr.recovers_listed hk hneeds
  induction h with
  | self same => exact hself same
  | @parent c p _ needs marked ih =>
    by_cases hp : (p == n) = true
    · exact hself hp
    · -- the child from which it is reached has all its parents live, so it has lost its mark
      have hlive := (ih.2 p (needs.sameCores hs.cores)).1
      refine ⟨hlive, fun q hneeds => ?_⟩
      exact hr.recovers (isMarked_unmarking_of_ne marked hp) hlive hneeds

/-- A revival takes the marks from what it reaches, and no others. -/
theorem isMarked_reviving_iff (hv : r.world.lookup? n = some v)
    (hr : Reviving n v.parents.toList (r.unmarking n) r') (k : Ident) :
    r'.world.overlay.isMarked k = true ↔
      r.world.overlay.isMarked k = true ∧ ¬ r.world.Recalled n k := by
  constructor
  · intro hk
    refine ⟨((restores_unmark r n).trans hr.restores).marks k hk, fun hrecalled => ?_⟩
    rw [(hrecalled.recovers hv hr).1] at hk
    cases hk
  · rintro ⟨hk, hrecalled⟩
    by_contra hk'
    have hk₀ := isMarked_unmarking_of_ne hk fun hkn => hrecalled (.self hkn)
    obtain ⟨p, hp, hm, hpk⟩ := hr.recalled hk₀ (Bool.eq_false_iff.2 hk')
    exact hrecalled (.of_parent hv hp hm hpk)

/-! ## Summary -/

/-- **Deletions and revivals come to an end and leave marks and children in agreement**, in every
world in which all parents are there, be they on cycles or not.

Detaching a variable from another one succeeds.  It takes no mark away; each variable that it marks
was live, unprotected and without children when it was marked, and is a child of none of its parents
when all is done.  Reviving a variable succeeds.  It takes the marks from that variable and from
what is reached from it through marked parents, and from nothing else; all of these are then
children of each of their parents. -/
theorem cascade_consistent (hc : r.world.Closed) :
    (∀ c p, (∃ v, r.world.lookup? p = some v) →
      ∃ marks r', detach c p r = .ok () r' ∧ Detaching c [p] r marks r' ∧
        (∀ k, r'.world.overlay.isMarked k = true ↔
          r.world.overlay.isMarked k = true ∨ ∃ e ∈ marks, (k == e.1) = true) ∧
        ∀ e ∈ marks, (e.2.world.overlay.isMarked e.1 = false ∧ e.2.isProtected e.1 = false ∧
            ∃ v, e.2.world.lookup? e.1 = some v ∧ v.children.toList = []) ∧
          ∀ q, r'.world.Needs e.1 q → ¬ r'.world.HasChild q e.1) ∧
    (∀ n v, r.world.lookup? n = some v →
      ∃ r', revive n r = .ok () r' ∧ Reviving n v.parents.toList (r.unmarking n) r' ∧
        (∀ k, r'.world.overlay.isMarked k = true ↔
          r.world.overlay.isMarked k = true ∧ ¬ r.world.Recalled n k) ∧
        ∀ k, r.world.Recalled n k → r'.world.overlay.isMarked k = false ∧
          ∀ q, r'.world.Needs k q → r'.world.HasChild q k) := by
  constructor
  · intro c p hp
    obtain ⟨r', hok⟩ := exists_detach (c := c) hc hp
    obtain ⟨marks, h⟩ := detach_eq_ok_iff.1 hok
    refine ⟨marks, r', hok, h, h.isMarked_iff, fun e he => ⟨h.unread_of_mem e he, ?_⟩⟩
    exact h.not_hasChild_of_mem e he
  · intro n v hv
    obtain ⟨r', hok⟩ := exists_revive hc ⟨v, hv⟩
    obtain ⟨v', hv', h⟩ := revive_eq_ok_iff.1 hok
    obtain rfl : v = v' := Option.some.inj (hv.symm.trans hv')
    refine ⟨r', hok, h, isMarked_reviving_iff hv h, fun k hk => ?_⟩
    obtain ⟨hlive, hparents⟩ := hk.recovers hv h
    exact ⟨hlive, fun q hneeds => (hparents q hneeds).2⟩

namespace Knot

/-- The one variable of a knot. -/
def a : Ident := ⟨"a", []⟩

/-- The other variable of a knot. -/
def b : Ident := ⟨"b", []⟩

/-- A variable whose only parent and only child are `n`. -/
def tied (n : Ident) : Variable :=
  { (default : Variable) with parents := .ofList [n], children := .ofList [n] }

/-- Two staged variables each of which is the only parent and the only child of the other. -/
def world : World := ((World.new {}).put a (tied b)).put b (tied a)

theorem lookup?_eq (n : Ident) : world.lookup? n =
    if b == n then some (tied a) else if a == n then some (tied b) else none := by
  rw [world, lookup?_put, lookup?_put]
  rfl

theorem contains_tied (n k : Ident) : (tied n).parents.contains k = (k == n) := by
  change (OrderedSet.ofList [n]).contains k = _
  rw [OrderedSet.contains_ofList]
  simp

theorem closed : world.Closed := by
  rintro c p ⟨v, hv, hp⟩
  have hp' : (b == p) = true ∨ (a == p) = true := by
    rw [lookup?_eq] at hv
    split at hv
    · cases hv
      rw [contains_tied] at hp
      exact .inr (BEq.symm hp)
    · split at hv
      · cases hv
        rw [contains_tied] at hp
        exact .inl (BEq.symm hp)
      · cases hv
  rw [lookup?_eq]
  by_cases hb : (b == p) = true
  · exact ⟨_, if_pos hb⟩
  · rw [if_neg hb, if_pos (hp'.resolve_left hb)]
    exact ⟨_, rfl⟩

theorem needs_a_b : world.Needs a b := ⟨tied b, rfl, by rw [contains_tied, BEq.refl]⟩

theorem needs_b_a : world.Needs b a := ⟨tied a, rfl, by rw [contains_tied, BEq.refl]⟩

end Knot

/-- In a knot each variable is deleted with the other one, and is revived with it. -/
theorem cascade_consistent_knot :
    (∃ r', detach Knot.a Knot.b { world := Knot.world } = .ok () r' ∧
      r'.world.overlay.isMarked Knot.a = true ∧ ¬ r'.world.HasChild Knot.b Knot.a) ∧
    ∃ r', revive Knot.a { world := Knot.world.marking Knot.b } = .ok () r' ∧
      r'.world.overlay.isMarked Knot.b = false ∧ r'.world.HasChild Knot.a Knot.b := by
  constructor
  · let r : Run := { world := Knot.world }
    obtain ⟨hdetach, -⟩ := cascade_consistent (r := r) Knot.closed
    obtain ⟨marks, r', hok, hwalk, hmarks, hleft⟩ := hdetach Knot.a Knot.b ⟨_, rfl⟩
    have hcomputed : ((detach Knot.a Knot.b).after r).world.overlay.isMarked Knot.a = true := by
      decide +kernel
    rw [Step.after_eq_of_ok hok] at hcomputed
    refine ⟨r', hok, hcomputed, fun hchild => ?_⟩
    obtain ⟨e, he, hae⟩ := ((hmarks Knot.a).1 hcomputed).resolve_left Bool.false_ne_true
    have hneeds := Knot.needs_a_b.sameCores hwalk.sheds.cores
    exact (hleft e he).2 Knot.b ((needs_congr _ hae (BEq.refl _)).1 hneeds)
      ((hasChild_congr _ (BEq.refl _) hae).1 hchild)
  · let r : Run := { world := Knot.world.marking Knot.b }
    obtain ⟨-, hrevive⟩ := cascade_consistent (r := r) Knot.closed
    obtain ⟨r', hok, hwalk, -, hreached⟩ := hrevive Knot.a (Knot.tied Knot.b) rfl
    have hrecalled : r.world.Recalled Knot.a Knot.b :=
      .parent (.self (BEq.refl _)) Knot.needs_a_b (by decide)
    obtain ⟨hlive, hchild⟩ := hreached Knot.b hrecalled
    have hs := (restores_unmark r Knot.a).trans hwalk.restores
    have hneeds : r.world.Needs Knot.b Knot.a := Knot.needs_b_a
    exact ⟨r', hok, hlive, hchild Knot.a (hneeds.sameCores hs.cores)⟩

end Stochastic.World
