import Mathlib.Algebra.BigOperators.Group.Finset.Piecewise
import Mathlib.Analysis.SpecialFunctions.Log.Basic
import Mathlib.Tactic.Abel
import Stochastic.Proofs.World.Everywhere
import Stochastic.Proofs.World.Ledger

/-!
# The figures of a proposal

If log-probabilities are read as exact numbers, the joint log-probability after a proposal
should be the one before, plus the change of the variables executed again, plus what was created
less what was deleted.  That is so up to two corrections, which are worked out here for every
model and every world without staged changes:

* a variable that is marked, revived and marked again is listed as deleted once for each mark,
  so it is subtracted too often;
* a variable that the proposal has created and then executed again is counted with its final
  log-probability and, on top of that, with its change.

The second one needs a reader that is listed and not there, so it does not arise in a symmetric
world.  The first one does.

## Main definitions

* `Arithmetic.exact` — sums in an abelian group.
* `World.Proposal.recounted`, `World.Proposal.reruns` — the two corrections.

## Main results

* `World.joint_eq_sum` — the joint log-probability is a sum over the live variables.
* `World.weight_revisions` — the log-probability of a variable changes by its shifts.
* `World.score_balance` — the figures, with both corrections.
* `World.score_eq_iff` — when they add up without.
* `World.reruns_eq_nil` — the second correction is none in a symmetric world.
-/

namespace Stochastic

variable {A : Type} [AddCommGroup A]

/-- Sums in an abelian group. -/
def Arithmetic.exact (A : Type) [AddCommGroup A] : Arithmetic A := ⟨(· + ·), (· - ·), 0, 0⟩

@[simp] theorem Arithmetic.total_exact (xs : List A) : (exact A).total xs = xs.sum :=
  List.sum_eq_foldl.symm

theorem foldl_sub (xs : List A) (x : A) : xs.foldl (· - ·) x = x - xs.sum := by
  induction xs generalizing x with
  | nil => simp
  | cons y ys ih => rw [List.foldl_cons, ih, List.sum_cons, sub_sub]

@[simp] theorem Arithmetic.balance_exact (gains losses : List A) :
    (exact A).balance gains losses = gains.sum - losses.sum := by
  change losses.foldl (· - ·) ((exact A).total gains) = _
  rw [foldl_sub, total_exact]

namespace World

variable {w w' : World} {r r' : Run} {n c t : Ident} {v : Variable} {m : Model} {X : Type}
  (read : Float → A)

/-! ## Sums over keys -/

theorem nodup_keys {es : List (Ident × X)} (hd : es.Pairwise fun e e' => (e.1 == e'.1) = false) :
    (es.map fun e => e.1.key).Nodup := by
  refine List.pairwise_map.2 (hd.imp fun {e e'} h hk => ?_)
  rw [Ident.beq_iff.2 hk] at h
  cases h

/-- A sum over a list of items with distinct identifiers is a sum over their keys. -/
theorem sum_items {es : List (Ident × X)} {f : Ident × X → A} {g : Ident.Key → A}
    (hd : es.Pairwise fun e e' => (e.1 == e'.1) = false) (hf : ∀ e ∈ es, f e = g e.1.key) :
    (es.map f).sum = ∑ k ∈ (es.map fun e => e.1.key).toFinset, g k := by
  rw [List.sum_toFinset g (nodup_keys hd), List.map_map]
  exact congrArg List.sum (List.map_congr_left hf)

/-- The items that are listed again later. -/
def repeats : List (Ident × X) → List (Ident × X)
  | [] => []
  | e :: es => if es.any fun e' => e'.1 == e.1 then e :: repeats es else repeats es

theorem repeats_subset (es : List (Ident × X)) : repeats es ⊆ es := by
  induction es with
  | nil => exact List.nil_subset []
  | cons e es ih =>
    rw [repeats]
    split
    · exact List.cons_subset_cons e ih
    · exact List.subset_cons_of_subset e ih

/-- A sum over a list of items is a sum over their keys and one over the items that are listed
again later. -/
theorem sum_items_add_repeats {es : List (Ident × X)} {f : Ident × X → A} {g : Ident.Key → A}
    (hf : ∀ e ∈ es, f e = g e.1.key) :
    (es.map f).sum = ∑ k ∈ (es.map fun e => e.1.key).toFinset, g k + ((repeats es).map f).sum := by
  induction es with
  | nil => simp [repeats]
  | cons e es ih =>
    have hmem : (es.any fun e' => e'.1 == e.1) = true ↔
        e.1.key ∈ (es.map fun e => e.1.key).toFinset := by
      simp only [List.any_eq_true, Ident.beq_iff, List.mem_toFinset, List.mem_map]
    rw [List.map_cons, List.sum_cons, ih fun e' he' => hf e' (List.mem_cons_of_mem _ he'), repeats,
      List.map_cons, List.toFinset_cons, hf e List.mem_cons_self]
    by_cases he : (es.any fun e' => e'.1 == e.1) = true
    · rw [if_pos he, Finset.insert_eq_of_mem (hmem.1 he), List.map_cons, List.sum_cons,
        hf e List.mem_cons_self]
      abel
    · rw [if_neg he, Finset.sum_insert fun h => he (hmem.2 h), add_assoc]

/-- Summing the items of each key in turn is summing the items with one of the keys. -/
theorem sum_filter_keys (ks : Finset Ident.Key) (es : List (Ident × X)) (f : Ident × X → A) :
    ∑ k ∈ ks, ((es.filter fun e => e.1.key == k).map f).sum =
      ((es.filter fun e => decide (e.1.key ∈ ks)).map f).sum := by
  induction es with
  | nil => simp
  | cons e es ih =>
    have hsplit : ∀ k, (((e :: es).filter fun e => e.1.key == k).map f).sum =
        (if e.1.key = k then f e else 0) + ((es.filter fun e => e.1.key == k).map f).sum := by
      intro k
      by_cases hk : e.1.key = k
      · simp [hk]
      · simp [hk]
    rw [Finset.sum_congr rfl fun k _ => hsplit k, Finset.sum_add_distrib, ih, Finset.sum_ite_eq]
    by_cases he : e.1.key ∈ ks <;> simp [he]

theorem sum_filter_add_sum_filter_not (p : X → Bool) (f : X → A) (xs : List X) :
    ((xs.filter p).map f).sum + ((xs.filter fun x => !p x).map f).sum = (xs.map f).sum := by
  induction xs with
  | nil => simp
  | cons x xs ih =>
    rw [List.map_cons, List.sum_cons, ← ih]
    cases hx : p x
    · simp only [List.filter_cons, hx, Bool.not_false, if_true, Bool.false_eq_true, if_false,
        List.map_cons, List.sum_cons]
      abel
    · simp only [List.filter_cons, hx, Bool.not_true, if_true, Bool.false_eq_true, if_false,
        List.map_cons, List.sum_cons]
      abel

/-! ## Weights -/

/-- The log-probability of a variable as an exact number, zero if it is not there. -/
def weight (w : World) (n : Ident) : A := ((w.lookup? n).map fun v => read v.logProb).getD 0

theorem weight_of_lookup? (hv : w.lookup? n = some v) : weight read w n = read v.logProb := by
  rw [weight, hv]
  rfl

/-- The same by key. -/
noncomputable def weightAt (w : World) : Ident.Key → A :=
  Function.extend Ident.key (weight read w) 0

theorem weightAt_key (w : World) (n : Ident) : weightAt read w n.key = weight read w n := by
  have hf : Function.FactorsThrough (weight read w) Ident.key := fun a b hab => by
    rw [weight, weight, lookup?_congr w (Ident.beq_iff.2 hab)]
  exact hf.extend_apply 0 n

/-- The live variables with their identifiers: those staged, then those committed only. -/
def liveEntries (w : World) : List (Ident × Variable) :=
  (w.overlay.staged.entries ++ w.committed.entries.filter fun e =>
    !w.overlay.staged.contains e.1).filter fun e => !w.overlay.isMarked e.1

theorem liveEntries_pairwise (w : World) :
    w.liveEntries.Pairwise fun e e' => (e.1 == e'.1) = false := by
  refine (List.pairwise_append.2 ⟨w.overlay.staged.distinct,
    w.committed.distinct.sublist List.filter_sublist, fun e he e' he' => ?_⟩).sublist
    List.filter_sublist
  have hn := (List.mem_filter.1 he').2
  refine Bool.eq_false_iff.2 fun h => ?_
  have hs : w.overlay.staged.get? e'.1 = some e.2 := (Table.get?_eq_some_iff _).2 ⟨e.1, h, he⟩
  rw [Table.contains, hs] at hn
  cases hn

theorem live?_of_mem_liveEntries {e : Ident × Variable} (he : e ∈ w.liveEntries) :
    w.live? e.1 = some e.2 := by
  obtain ⟨he, hm⟩ := List.mem_filter.1 he
  rw [Bool.not_eq_true'] at hm
  refine live?_eq_some.2 ⟨hm, ?_⟩
  unfold lookup?
  rcases List.mem_append.1 he with he | he
  · rw [(Table.get?_eq_some_iff _).2 ⟨e.1, BEq.refl e.1, he⟩]
  · obtain ⟨he, hn⟩ := List.mem_filter.1 he
    rw [Bool.not_eq_true', Table.contains, Option.isSome_eq_false_iff,
      Option.isNone_iff_eq_none] at hn
    rw [hn]
    exact (Table.get?_eq_some_iff _).2 ⟨e.1, BEq.refl e.1, he⟩

theorem exists_mem_liveEntries (hv : w.live? n = some v) :
    ∃ e ∈ w.liveEntries, (e.1 == n) = true := by
  obtain ⟨hm, hv⟩ := live?_eq_some.1 hv
  unfold lookup? at hv
  cases hs : w.overlay.staged.get? n with
  | some u =>
    obtain ⟨k, hk, he⟩ := (Table.get?_eq_some_iff _).1 hs
    refine ⟨(k, u), List.mem_filter.2 ⟨List.mem_append_left _ he, ?_⟩, hk⟩
    rw [isMarked_congr w hk, hm]
    rfl
  | none =>
    rw [hs] at hv
    obtain ⟨k, hk, he⟩ := (Table.get?_eq_some_iff _).1 hv
    refine ⟨(k, v), List.mem_filter.2
      ⟨List.mem_append_right _ (List.mem_filter.2 ⟨he, ?_⟩), ?_⟩, hk⟩
    · rw [Table.contains, Table.get?_congr _ hk, hs]
      rfl
    · rw [isMarked_congr w hk, hm]
      rfl

theorem liveEntries_keys (w : World) :
    (w.liveEntries.map fun e => e.1.key).toFinset = w.liveKeys := by
  ext key
  simp only [List.mem_toFinset, List.mem_map]
  constructor
  · rintro ⟨e, he, rfl⟩
    exact mem_liveKeys.2 ⟨e.2, live?_of_mem_liveEntries he⟩
  · intro hk
    obtain ⟨n, rfl⟩ := exists_of_mem_liveKeys hk
    obtain ⟨v, hv⟩ := mem_liveKeys.1 hk
    obtain ⟨e, he, hn⟩ := exists_mem_liveEntries hv
    exact ⟨e, he, Ident.beq_iff.1 hn⟩

/-- **The joint log-probability is a sum over the live variables.** -/
theorem joint_eq_sum (w : World) :
    w.jointIn (.exact A) read = ∑ k ∈ w.liveKeys, weightAt read w k := by
  have hl : w.liveLogProbs = w.liveEntries.map fun e => e.2.logProb := rfl
  rw [jointIn, Arithmetic.total_exact, hl, List.map_map, ← liveEntries_keys]
  refine sum_items w.liveEntries_pairwise fun e he => ?_
  rw [weightAt_key, weight_of_lookup? read (live?_eq_some.1 (live?_of_mem_liveEntries he)).2]
  rfl

/-! ## Shifts -/

theorem logProb_of_core {v v' : Variable} (h : v'.core = v.core) : v'.logProb = v.logProb := by
  have hl := congrArg Variable.logProb h
  exact hl

/-- Executing a program again leaves every variable there, and changes no log-probability but
that of its own variable. -/
theorem logProb_reexecute (ho : reexecute m c r = .ok () r') (hv : r.world.lookup? n = some v) :
    ∃ v', r'.world.lookup? n = some v' ∧ ((c == n) = false → v'.logProb = v.logProb) := by
  obtain ⟨d, parents, r₁, u, hx, hu, hd⟩ := reexecute_eq_ok.1 ho
  obtain ⟨v₁, hv₁, hc₁⟩ := (grows_of_moves (moves_of_execute hx)).exists_core hv
  obtain ⟨v₂, hv₂, hc₂⟩ : ∃ v₂, (r₁.replace c u (revised u d parents)).world.lookup? n = some v₂ ∧
      ((c == n) = false → v₂ = v₁) := by
    rw [lookup?_replace]
    by_cases hcn : (c == n) = true
    · rw [if_pos hcn]
      exact ⟨_, rfl, fun h => by rw [hcn] at h; cases h⟩
    · rw [if_neg hcn]
      exact ⟨v₁, hv₁, fun _ => rfl⟩
  obtain ⟨v', hv', hc'⟩ := (sheds_forM_detach hd).cores.exists_core hv₂
  refine ⟨v', hv', fun hcn => ?_⟩
  rw [logProb_of_core hc', hc₂ hcn, logProb_of_core hc₁]

/-- **The log-probability of a variable changes by its shifts**, and the variables that have
been revised are there. -/
theorem weight_revisions {cs : List Ident} {shifts : List (Option (Ident × Shift))}
    (ho : (cs.mapM (revise m) : Step _) r = .ok shifts r') :
    (∀ n v, r.world.lookup? n = some v → (∃ v', r'.world.lookup? n = some v') ∧
      weight read r'.world n = weight read r.world n +
        (((shifts.filterMap id).filter fun s => s.1 == n).map fun s =>
          s.2.delta (.exact A) read).sum) ∧
      ∀ s ∈ shifts.filterMap id, ∃ v, r'.world.lookup? s.1 = some v := by
  induction cs generalizing r shifts with
  | nil =>
    obtain ⟨rfl, rfl⟩ := Step.mapM_nil_eq_ok.1 ho
    exact ⟨fun n v hv => ⟨⟨v, hv⟩, by simp⟩, fun s hs => by cases hs⟩
  | cons c cs ih =>
    obtain ⟨o, os, r₁, hc, hcs, rfl⟩ := Step.mapM_cons_eq_ok.1 ho
    obtain ⟨ih, ihs⟩ := ih hcs
    -- a reader that is marked when its turn comes is passed over and has no shift
    rcases revise_eq_ok hc with ⟨-, rfl, rfl⟩ | ⟨-, u, u', hu, hx, hu', rfl⟩
    · rw [List.filterMap_cons_none rfl]
      exact ⟨ih, ihs⟩
    · rw [List.filterMap_cons_some (f := id) rfl]
      constructor
      · intro n v hv
        obtain ⟨v₁, hv₁, hl₁⟩ := logProb_reexecute hx hv
        obtain ⟨hex, hw⟩ := ih n v₁ hv₁
        refine ⟨hex, ?_⟩
        rw [hw, List.filter_cons]
        by_cases hcn : (c == n) = true
        · -- The shift goes from what the variable had to what it has.
          rw [if_pos hcn, List.map_cons, List.sum_cons, ← add_assoc,
            weight_of_lookup? read (lookup?_congr r₁.world hcn ▸ hu'),
            weight_of_lookup? read (lookup?_congr r.world hcn ▸ hu)]
          exact congrArg (· + _) (add_sub_cancel _ _).symm
        · rw [if_neg hcn, weight_of_lookup? read hv₁, weight_of_lookup? read hv,
            hl₁ (Bool.eq_false_iff.2 hcn)]
      · intro s hs
        rcases List.mem_cons.1 hs with rfl | hs
        · exact (ih c u' hu').1
        · exact ihs s hs

/-! ## The sums of a proposal -/

/-- The items of a list that are related to the identifiers of another one, one by one. -/
theorem items_of_forall₂ {P : Ident → Ident × Float → Prop} {ns : List Ident}
    {es : List (Ident × Float)} (hP : ∀ {n e}, P n e → e.1 = n) (h : List.Forall₂ P ns es) :
    es.map Prod.fst = ns ∧ ∀ e ∈ es, P e.1 e := by
  induction h with
  | nil => exact ⟨rfl, fun e he => by cases he⟩
  | @cons n e ns es hne _ ih =>
    obtain ⟨hfst, hall⟩ := ih
    refine ⟨by rw [List.map_cons, hfst, hP hne], fun e' he' => ?_⟩
    rcases List.mem_cons.1 he' with rfl | he'
    · rw [hP hne]
      exact hne
    · exact hall e' he'

theorem mem_keys_of_map_fst {ns : List Ident} {es : List (Ident × X)} (h : es.map Prod.fst = ns)
    {key : Ident.Key} : key ∈ (es.map fun e => e.1.key).toFinset ↔ ∃ n ∈ ns, n.key = key := by
  subst h
  simp only [List.mem_toFinset, List.mem_map]
  constructor
  · rintro ⟨e, he, rfl⟩
    exact ⟨e.1, ⟨e, he, rfl⟩, rfl⟩
  · rintro ⟨_, ⟨e, he, rfl⟩, rfl⟩
    exact ⟨e, he, rfl⟩

section Sums

variable {before : World} {l : Ledger} (hm : ∀ n, before.overlay.isMarked n = false)
  (ha : Accounts before t r.world l)

include hm in
theorem mem_liveKeys_of_unmarked : n.key ∈ before.liveKeys ↔ ∃ v, before.lookup? n = some v := by
  simp only [mem_liveKeys, live?_eq_some, hm, true_and]

include hm ha

/-- What is live after and was not there before has been created, and is counted once. -/
theorem sum_created {created : List (Ident × Float)}
    (hc : List.Forall₂ (CreatedItem r) (r.survivors l) created) :
    (created.map fun e => read e.2).sum =
      ∑ k ∈ r.world.liveKeys \ before.liveKeys, weightAt read r.world k := by
  obtain ⟨hfst, hitems⟩ := items_of_forall₂ (fun h => h.1) hc
  -- what survives of the created is exactly what is live now and was not live before
  have hkeys : (created.map fun e => e.1.key).toFinset = r.world.liveKeys \ before.liveKeys := by
    ext key
    rw [mem_keys_of_map_fst hfst, Finset.mem_sdiff]
    constructor
    · rintro ⟨n, hn, rfl⟩
      obtain ⟨hn, hu⟩ := List.mem_filter.1 hn
      rw [Bool.not_eq_true'] at hu
      have hn : l.created.contains n = true :=
        List.contains_iff_exists_mem_beq.2 ⟨n, hn, BEq.refl n⟩
      -- what is created is there, and was not there before
      obtain ⟨v, hv⟩ := (ha.present n).2 (.inr hn)
      refine ⟨mem_liveKeys.2 ⟨v, live?_eq_some.2 ⟨hu, hv⟩⟩, fun hb => ?_⟩
      obtain ⟨v, hv⟩ := (mem_liveKeys_of_unmarked hm).1 hb
      cases (ha.created n hn).symm.trans hv
    · rintro ⟨hk, hb⟩
      obtain ⟨n, rfl⟩ := exists_of_mem_liveKeys hk
      obtain ⟨v, hv⟩ := mem_liveKeys.1 hk
      obtain ⟨hu, hv⟩ := live?_eq_some.1 hv
      -- it is there and was not before, so it is listed as created
      have hn := ((ha.present n).1 ⟨v, hv⟩).resolve_left fun h =>
        hb ((mem_liveKeys_of_unmarked hm).2 h)
      obtain ⟨k, hk, hnk⟩ := List.contains_iff_exists_mem_beq.1 hn
      refine ⟨k, List.mem_filter.2 ⟨hk, ?_⟩, (Ident.beq_iff.1 hnk).symm⟩
      rw [← isMarked_congr r.world hnk, hu]
      rfl
  -- nothing is created twice, so the items are one per key
  have hd : created.Pairwise fun e e' => (e.1 == e'.1) = false := by
    have hs : (r.survivors l).Pairwise fun a b => (a == b) = false :=
      ha.distinct.sublist List.filter_sublist
    rw [← hfst] at hs
    exact List.pairwise_map.1 hs
  rw [← hkeys]
  refine sum_items hd fun e he => ?_
  obtain ⟨-, v, hv, hl⟩ := hitems e he
  rw [weightAt_key, weight_of_lookup? read hv, hl]

omit hm in
/-- What is lost is marked and has not been created, so it was there before. -/
theorem exists_lookup?_of_mem_losses (hn : n ∈ r.losses l) :
    r.world.overlay.isMarked n = true ∧ ∃ v, before.lookup? n = some v := by
  have hn := (List.mem_filter.1 hn).2
  rw [Bool.and_eq_true, Bool.not_eq_true'] at hn
  obtain ⟨-, -, hv⟩ := ha.marked hn.1
  refine ⟨hn.1, ((ha.present n).1 hv).resolve_right fun hc => ?_⟩
  rw [hn.2] at hc
  cases hc

omit hm in
/-- The log-probability of a deleted item is the one remembered from before the proposal. -/
theorem logProb_of_mem_deleted {deleted : List (Ident × Float)}
    (hd : List.Forall₂ (DeletedItem r l) (r.losses l) deleted) {e : Ident × Float}
    (he : e ∈ deleted) : ∃ v, before.lookup? e.1 = some v ∧ e.2 = v.logProb := by
  obtain ⟨hfst, hitems⟩ := items_of_forall₂ (fun h => h.1) hd
  have hmem : e.1 ∈ r.losses l := by
    rw [← hfst]
    exact List.mem_map.2 ⟨e, he, rfl⟩
  obtain ⟨hmark, v, hv⟩ := exists_lookup?_of_mem_losses ha hmem
  obtain ⟨-, ⟨x, hx⟩, -⟩ := ha.marked hmark
  refine ⟨v, hv, ?_⟩
  rcases (hitems e he).2 with hp | ⟨hn, -⟩
  · exact ha.prior hv hp
  · cases hn.symm.trans hx

/-- What was live before and is not live after has been marked.  It is counted with the
log-probability it had, once for every time it is listed. -/
theorem sum_deleted {deleted : List (Ident × Float)}
    (hd : List.Forall₂ (DeletedItem r l) (r.losses l) deleted) :
    (deleted.map fun e => read e.2).sum =
      ∑ k ∈ before.liveKeys \ r.world.liveKeys, weightAt read before k +
        ((repeats deleted).map fun e => read e.2).sum := by
  obtain ⟨hfst, -⟩ := items_of_forall₂ (fun h => h.1) hd
  have hkeys : (deleted.map fun e => e.1.key).toFinset = before.liveKeys \ r.world.liveKeys := by
    ext key
    rw [mem_keys_of_map_fst hfst, Finset.mem_sdiff]
    constructor
    · rintro ⟨n, hn, rfl⟩
      obtain ⟨hmark, hv⟩ := exists_lookup?_of_mem_losses ha hn
      refine ⟨(mem_liveKeys_of_unmarked hm).2 hv, fun hk => ?_⟩
      obtain ⟨v, hv⟩ := mem_liveKeys.1 hk
      rw [(live?_eq_some.1 hv).1] at hmark
      cases hmark
    · rintro ⟨hk, hl⟩
      obtain ⟨n, rfl⟩ := exists_of_mem_liveKeys hk
      obtain ⟨u, hu⟩ := (mem_liveKeys_of_unmarked hm).1 hk
      obtain ⟨v, hv⟩ := (ha.present n).2 (.inl ⟨u, hu⟩)
      -- it is still there, so it can only have been marked
      have hmark : r.world.overlay.isMarked n = true := by
        by_contra hn
        exact hl (mem_liveKeys.2 ⟨v, live?_eq_some.2 ⟨Bool.eq_false_iff.2 hn, hv⟩⟩)
      obtain ⟨hlist, -, -⟩ := ha.marked hmark
      obtain ⟨k, hk, hnk⟩ := List.contains_iff_exists_mem_beq.1 hlist
      refine ⟨k, List.mem_filter.2 ⟨hk, ?_⟩, (Ident.beq_iff.1 hnk).symm⟩
      rw [← isMarked_congr r.world hnk, hmark, Bool.true_and, Bool.not_eq_true']
      refine Bool.eq_false_iff.2 fun hc => ?_
      rw [lookup?_congr before hnk, ha.created k hc] at hu
      cases hu
  rw [← hkeys]
  refine sum_items_add_repeats fun e he => ?_
  obtain ⟨v, hv, heq⟩ := logProb_of_mem_deleted ha hd he
  rw [weightAt_key, weight_of_lookup? read hv, heq]

/-- A variable executed again that is live afterwards was there before, unless it has been
created; so the shifts that matter are the children that are no reruns. -/
theorem kept_iff {created : List (Ident × Float)} {s : Ident × Shift}
    (hc : List.Forall₂ (CreatedItem r) (r.survivors l) created)
    (hs : ∃ v, r.world.lookup? s.1 = some v) :
    s.1.key ∈ before.liveKeys ∩ r.world.liveKeys ↔ r.world.overlay.isMarked s.1 = false ∧
      (created.any fun e => e.1 == s.1) = false := by
  obtain ⟨hfst, -⟩ := items_of_forall₂ (fun h => h.1) hc
  rw [Finset.mem_inter, mem_liveKeys_of_unmarked hm, mem_liveKeys]
  simp only [live?_eq_some, exists_and_left]
  -- for what is not marked, to be among the items is to be listed as created
  have hany : r.world.overlay.isMarked s.1 = false → ((created.any fun e => e.1 == s.1) = true ↔
      l.created.contains s.1 = true) := by
    intro hu
    rw [List.any_eq_true, List.contains_iff_exists_mem_beq]
    constructor
    · rintro ⟨e, he, hes⟩
      have hmem : e.1 ∈ r.survivors l := hfst ▸ List.mem_map.2 ⟨e, he, rfl⟩
      exact ⟨e.1, (List.mem_filter.1 hmem).1, BEq.symm hes⟩
    · rintro ⟨k, hk, hsk⟩
      have hmem : k ∈ r.survivors l := by
        refine List.mem_filter.2 ⟨hk, ?_⟩
        rw [← isMarked_congr r.world hsk, hu]
        rfl
      rw [← hfst] at hmem
      obtain ⟨e, he, rfl⟩ := List.mem_map.1 hmem
      exact ⟨e, he, BEq.symm hsk⟩
  constructor
  · rintro ⟨⟨v, hv⟩, hu, -⟩
    refine ⟨hu, Bool.eq_false_iff.2 fun hcr => ?_⟩
    cases (ha.created s.1 ((hany hu).1 hcr)).symm.trans hv
  · rintro ⟨hu, hcr⟩
    refine ⟨((ha.present s.1).1 hs).resolve_right fun hc' => ?_, hu, hs⟩
    rw [(hany hu).2 hc'] at hcr
    cases hcr

end Sums

/-- The items of deleted variables that are listed again later. -/
def Proposal.recounted (p : Proposal) : List (Ident × Float) := repeats p.deleted

/-- The variables executed again that the proposal itself has created. -/
def Proposal.reruns (p : Proposal) : List (Ident × Shift) :=
  p.children.filter fun c => p.created.any fun e => e.1 == c.1

/-- A variable that was there before and is live afterwards has changed by the new value, if it is
the proposed one, and by its shifts. -/
theorem weight_proposed {u : Variable} {value : Tensor Float}
    {shifts : List (Option (Ident × Shift))} (hu : w.lookup? t = some u)
    (hrev : (u.children.toList.mapM (revise m) : Step _)
      ((Run.proposing { world := w } t).replace t u (u.setValue value)) = .ok shifts r)
    (hv : w.lookup? n = some v) :
    weight read r.world n = weight read w n +
      (if t.key = n.key then
        Shift.delta (.exact A) read ⟨u.logProb, (u.setValue value).logProb⟩ else 0) +
      (((shifts.filterMap id).filter fun s => s.1 == n).map fun s =>
        s.2.delta (.exact A) read).sum := by
  have hl : ((Run.proposing { world := w } t).replace t u (u.setValue value)).world.lookup? n =
      if t == n then some (u.setValue value) else w.lookup? n := lookup?_replace ..
  -- the new value is in place before any reader is revised
  by_cases htn : (t == n) = true
  · rw [if_pos htn] at hl
    rw [((weight_revisions read hrev).1 n _ hl).2, weight_of_lookup? read hl,
      if_pos (Ident.beq_iff.1 htn), weight_of_lookup? read (lookup?_congr w htn ▸ hu)]
    exact congrArg (· + _) (add_sub_cancel _ _).symm
  · rw [if_neg htn, hv] at hl
    rw [((weight_revisions read hrev).1 n _ hl).2, weight_of_lookup? read hl,
      weight_of_lookup? read hv, if_neg fun h => htn (Ident.beq_iff.2 h), add_zero]

/-- Summed over variables that were there before, among them the proposed one, log-probabilities
change by the new value and by the shifts of these variables. -/
theorem sum_kept {u : Variable} {value : Tensor Float} {shifts : List (Option (Ident × Shift))}
    {ks : Finset Ident.Key} (hm : ∀ n, w.overlay.isMarked n = false) (hks : ks ⊆ w.liveKeys)
    (ht : t.key ∈ ks) (hu : w.lookup? t = some u)
    (hrev : (u.children.toList.mapM (revise m) : Step _)
      ((Run.proposing { world := w } t).replace t u (u.setValue value)) = .ok shifts r) :
    ∑ k ∈ ks, weightAt read r.world k = ∑ k ∈ ks, weightAt read w k +
      Shift.delta (.exact A) read ⟨u.logProb, (u.setValue value).logProb⟩ +
      (((shifts.filterMap id).filter fun s => decide (s.1.key ∈ ks)).map fun s =>
        s.2.delta (.exact A) read).sum := by
  -- key by key first; the sum of the shifts is then sorted by key
  have hstep : ∀ k ∈ ks, weightAt read r.world k = weightAt read w k +
      (if t.key = k then
        Shift.delta (.exact A) read ⟨u.logProb, (u.setValue value).logProb⟩ else 0) +
      (((shifts.filterMap id).filter fun s => s.1.key == k).map fun s =>
        s.2.delta (.exact A) read).sum := by
    intro k hk
    obtain ⟨n, rfl⟩ := exists_of_mem_liveKeys (hks hk)
    obtain ⟨v, hv⟩ := (mem_liveKeys_of_unmarked hm).1 (hks hk)
    rw [weightAt_key, weightAt_key]
    exact weight_proposed read hu hrev hv
  rw [Finset.sum_congr rfl hstep, Finset.sum_add_distrib, Finset.sum_add_distrib,
    Finset.sum_ite_eq, if_pos ht, sum_filter_keys]

/-- **The figures of a proposal add up**, if what is subtracted repeatedly is added again and what
is counted on top of a created variable is taken away. -/
theorem score_balance (ho : w.overlay = .empty) {value : Tensor Float} {p : Proposal}
    (hp : (itemize m w t value).result = .ok p) :
    let f := p.figures (.exact A) read
    f.score + (p.reruns.map fun c => c.2.delta (.exact A) read).sum =
      w.jointIn (.exact A) read + f.world + f.graph + (p.recounted.map fun d => read d.2).sum := by
  have hm : ∀ n, w.overlay.isMarked n = false := fun n => by
    rw [ho]
    rfl
  obtain ⟨u, shifts, r, l, created, deleted, hu, hrev, ha, hc, hd, rfl⟩ := itemize_accounts hm hp
  -- The children that are no reruns are the shifts of variables live before and after.
  have hkept : ((shifts.filterMap id).filter fun c => !r.world.overlay.isMarked c.1).filter
      (fun c => !created.any fun e => e.1 == c.1) = (shifts.filterMap id).filter
      fun c => decide (c.1.key ∈ w.liveKeys ∩ r.world.liveKeys) := by
    rw [List.filter_filter]
    refine List.filter_congr fun s hs => ?_
    rw [Bool.eq_iff_iff, decide_eq_true_iff,
      kept_iff hm ha hc ((weight_revisions read hrev).2 s hs), Bool.and_eq_true,
      Bool.not_eq_true', Bool.not_eq_true']
    exact and_comm
  have hchildren := sum_filter_add_sum_filter_not
    (fun c : Ident × Shift => created.any fun e => e.1 == c.1)
    (fun c => c.2.delta (.exact A) read)
    ((shifts.filterMap id).filter fun c => !r.world.overlay.isMarked c.1)
  -- The proposed variable is protected, so it is live before and after.
  have htarget : t.key ∈ w.liveKeys ∩ r.world.liveKeys := by
    obtain ⟨v, hv⟩ := (ha.present t).2 (.inl ⟨u, hu⟩)
    exact Finset.mem_inter.2 ⟨(mem_liveKeys_of_unmarked hm).2 ⟨u, hu⟩,
      mem_liveKeys.2 ⟨v, live?_eq_some.2 ⟨ha.standing, hv⟩⟩⟩
  have hafter : (r.world.liveLogProbs.map read).sum = _ :=
    (Arithmetic.total_exact _).symm.trans (joint_eq_sum read r.world)
  rw [← Finset.sum_inter_add_sum_sdiff r.world.liveKeys w.liveKeys, Finset.inter_comm,
    sum_kept read hm Finset.inter_subset_left htarget hu hrev, ← sum_created read hm ha hc]
    at hafter
  simp only [Proposal.figures, Proposal.reruns, Proposal.recounted, Arithmetic.total_exact,
    Arithmetic.balance_exact]
  rw [hafter, sum_deleted read hm ha hd, ← hchildren, hkept, joint_eq_sum read w,
    ← Finset.sum_inter_add_sum_sdiff w.liveKeys r.world.liveKeys]
  change _ = _ + (_ + _ + _) + _ + _
  abel

/-- Only readers of the proposed variable are executed again. -/
theorem mem_of_mem_revisions {cs : List Ident} {shifts : List (Option (Ident × Shift))}
    (ho : (cs.mapM (revise m) : Step _) r = .ok shifts r') {s : Ident × Shift}
    (hs : s ∈ shifts.filterMap id) : s.1 ∈ cs := by
  induction cs generalizing r shifts with
  | nil =>
    obtain ⟨rfl, -⟩ := Step.mapM_nil_eq_ok.1 ho
    cases hs
  | cons c cs ih =>
    obtain ⟨o, os, r₁, hc, hcs, rfl⟩ := Step.mapM_cons_eq_ok.1 ho
    rcases revise_eq_ok hc with ⟨-, rfl, -⟩ | ⟨-, u, u', -, -, -, rfl⟩
    · rw [List.filterMap_cons_none rfl] at hs
      exact List.mem_cons_of_mem _ (ih hcs hs)
    · rw [List.filterMap_cons_some (f := id) rfl] at hs
      rcases List.mem_cons.1 hs with rfl | hs
      · exact List.mem_cons_self
      · exact List.mem_cons_of_mem _ (ih hcs hs)

/-- In a symmetric world a reader that is listed is there, so a proposal does not create it. -/
theorem reruns_eq_nil (ho : w.overlay = .empty) (hs : w.Symmetric) {value : Tensor Float}
    {p : Proposal} (hp : (itemize m w t value).result = .ok p) : p.reruns = [] := by
  have hm : ∀ n, w.overlay.isMarked n = false := fun n => by
    rw [ho]
    rfl
  obtain ⟨u, shifts, r, l, created, deleted, hu, hrev, ha, hc, -, rfl⟩ := itemize_accounts hm hp
  refine List.filter_eq_nil_iff.2 fun s hmem => ?_
  have hmem := List.mem_of_mem_filter hmem
  -- A reader is there before and so cannot be among the variables created.
  have hlist : w.Lists t s.1 := (lists_of_lookup? (hm t) hu).2
    (List.contains_iff_exists_mem_beq.2 ⟨s.1, mem_of_mem_revisions hrev hmem, BEq.refl _⟩)
  obtain ⟨-, v, hv, -⟩ := reads_iff.1 ((hs s.1 t).2 hlist)
  intro hany
  obtain ⟨e, he, hes⟩ := List.any_eq_true.1 hany
  have hsurv : e.1 ∈ r.survivors l :=
    (items_of_forall₂ (fun h => h.1) hc).1 ▸ List.mem_map.2 ⟨e, he, rfl⟩
  have hcr : l.created.contains s.1 = true := List.contains_iff_exists_mem_beq.2
    ⟨e.1, (List.mem_filter.1 hsurv).1, BEq.symm hes⟩
  cases (ha.created s.1 hcr).symm.trans hv

/-- **When the figures of a proposal add up**: with log-probabilities read as exact numbers, the
joint log-probability afterwards is the one before plus the change of the variables executed
again plus the change of the graph, exactly if what is subtracted repeatedly makes up for what
is counted on top of created variables. -/
theorem score_eq_iff (m : Model) (ho : w.overlay = .empty) (t : Ident) (value : Tensor Float)
    {p : Proposal} (hp : (itemize m w t value).result = .ok p) {A : Type} [AddCommGroup A]
    (read : Float → A) :
    let f := p.figures (.exact A) read
    f.score = w.jointIn (.exact A) read + f.world + f.graph ↔
      (p.recounted.map fun d => read d.2).sum =
        (p.reruns.map fun c => c.2.delta (.exact A) read).sum := by
  have hb := score_balance read ho hp
  simp only at hb ⊢
  constructor
  · intro h
    rw [h] at hb
    exact (add_left_cancel hb).symm
  · intro h
    rw [h] at hb
    exact add_right_cancel hb

/-! ## A variable that is marked twice -/

namespace Redropped

/-- The variable that the others depend on. -/
def root : Ident := ⟨"root", []⟩

/-- A variable that is dropped, picked up and dropped again. -/
def spare : Ident := ⟨"spare", []⟩

/-- The reader that drops `spare` when `root` gets large. -/
def first : Ident := ⟨"first", []⟩

/-- The reader that picks `spare` up when `root` gets large. -/
def second : Ident := ⟨"second", []⟩

/-- The reader that drops `second` when `root` gets large, and `spare` with it. -/
def third : Ident := ⟨"third", []⟩

/-- The program of a variable that reads another one if it is wanted. -/
def reading (n : Ident) (wanted : Bool) : Program Distribution :=
  if wanted then do return .uniform (← .readItem n) 1 else return .uniform 0 1

/-- Five variables, of which the last three depend on `root` and read others by turns. -/
def model : Model where
  program n :=
    if n.name = "root" then return .uniform 0 4
    else if n.name = "spare" then return .uniform 0 2
    else do
      let x ← .readItem root
      if n.name = "first" then reading spare (x < 0.5)
      else if n.name = "second" then reading spare (!(x < 0.5))
      else reading second (x < 0.5)
  sampler _ _ := .scalar 0.25

/-- The world with all readers generated and accepted. -/
def before : World :=
  [.update first, .update second, .update third, .accept].foldl (carryOut model) (.new {})

theorem reachable_before : Reachable model before :=
  (((Reachable.new {}).step (.update first)).step (.update second)).step (.update third)
    |>.step .accept

/-- The log-probability of `spare`. -/
def lost : Float := (Distribution.uniform 0 2).logProb (.scalar 0.25)

theorem logProb_spare {n : Ident} {v : Variable} (hn : (n == spare) = true)
    (hv : before.lookup? n = some v) : v.logProb = lost := by
  have hlaw : (before.lookup? spare).map (fun v => (v.distribution, v.value.shape, v.value.data)) =
      some (.uniform 0 2, [], [0.25]) := by decide +kernel
  rw [← lookup?_congr before hn, hv, Option.map_some, Option.some.injEq, Prod.mk.injEq,
    Prod.mk.injEq] at hlaw
  obtain ⟨hdistribution, hshape, hdata⟩ := hlaw
  have hvalue : v.value = .scalar 0.25 := by
    cases hx : v.value with
    | mk shape data =>
      rw [hx] at hshape hdata
      cases hshape
      cases hdata
      rfl
  rw [scored_of_reachable reachable_before n v hv, hdistribution, hvalue]
  rfl

theorem exists_itemize :
    ∃ p, (itemize model before root (.scalar 1)).result = .ok p := by
  have hok : (itemize model before root (.scalar 1)).result.isOk = true := by decide +kernel
  cases hp : (itemize model before root (.scalar 1)).result with
  | error e =>
    rw [hp] at hok
    cases hok
  | ok p => exact ⟨p, rfl⟩

/-- Of the deleted variables only `spare` is listed twice, and no variable is created. -/
theorem recounted_eq {p : Proposal} (hp : (itemize model before root (.scalar 1)).result = .ok p) :
    p.recounted.map Prod.snd = [lost] ∧ p.reruns = [] := by
  have hnames : (itemize model before root (.scalar 1)).result.toOption.map
      (fun p => (p.recounted.map fun e => e.1 == spare, p.reruns.length)) = some ([true], 0) := by
    decide +kernel
  rw [hp, Except.toOption, Option.map_some, Option.some.injEq, Prod.mk.injEq] at hnames
  obtain ⟨hrecounted, hreruns⟩ := hnames
  refine ⟨?_, List.length_eq_zero_iff.1 hreruns⟩
  obtain ⟨e, he, hname⟩ := List.map_eq_singleton_iff.1 hrecounted
  obtain ⟨u, shifts, r, l, created, deleted, -, -, ha, -, hd, rfl⟩ :=
    itemize_accounts (fun _ => rfl) hp
  have hrepeats : repeats deleted = [e] := he
  have hmem : e ∈ deleted := repeats_subset deleted (hrepeats ▸ List.mem_singleton.2 rfl)
  obtain ⟨v, hv, heq⟩ := logProb_of_mem_deleted ha hd hmem
  rw [he, List.map_singleton, heq, logProb_spare hname hv]

end Redropped

/-- A proposal to which `score_eq_iff` applies, however its log-probabilities are read. -/
theorem score_eq_iff_redropped :
    Redropped.before.overlay = .empty ∧ ∃ p,
      (itemize Redropped.model Redropped.before Redropped.root (.scalar 1)).result = .ok p ∧
      ∀ read : Float → ℝ,
        let f := p.figures (.exact ℝ) read
        (f.score = Redropped.before.jointIn (.exact ℝ) read + f.world + f.graph ↔
          (p.recounted.map fun d => read d.2).sum =
            (p.reruns.map fun c => c.2.delta (.exact ℝ) read).sum) := by
  obtain ⟨p, hp⟩ := Redropped.exists_itemize
  exact ⟨rfl, p, hp, score_eq_iff Redropped.model rfl Redropped.root (.scalar 1) hp⟩

/-- A proposal whose figures do not add up.  The variable that was marked, revived and marked again
is subtracted twice, so they are off by its log-probability, which is the negative of the logarithm
of two. -/
theorem score_ne_redropped :
    Reachable Redropped.model Redropped.before ∧ Redropped.before.overlay = .empty ∧ ∃ p,
      (itemize Redropped.model Redropped.before Redropped.root (.scalar 1)).result = .ok p ∧
      ∀ read : Float → ℝ,
        let f := p.figures (.exact ℝ) read
        let joint := Redropped.before.jointIn (.exact ℝ) read
        f.score = joint + f.world + f.graph + read Redropped.lost ∧
          (read Redropped.lost = -Real.log 2 → f.score ≠ joint + f.world + f.graph) := by
  obtain ⟨p, hp⟩ := Redropped.exists_itemize
  obtain ⟨hrecounted, hreruns⟩ := Redropped.recounted_eq hp
  refine ⟨Redropped.reachable_before, rfl, p, hp, fun read => ?_⟩
  have hb := score_balance read rfl hp
  have hsum : (p.recounted.map fun d => read d.2) = [read Redropped.lost] := by
    rw [← List.map_singleton, ← hrecounted, List.map_map]
    rfl
  simp only [hsum, hreruns, List.map_nil, List.sum_nil, List.sum_singleton, add_zero] at hb ⊢
  refine ⟨hb, fun hread heq => ?_⟩
  rw [heq, left_eq_add, hread, neg_eq_zero] at hb
  exact (Real.log_pos one_lt_two).ne' hb

end World

end Stochastic
