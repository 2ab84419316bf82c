import Stochastic.Proofs.World.Revision

/-!
# What the ledger of a proposal knows

A proposal keeps a ledger: which variables it has created, which it has marked, and the
log-probability that a variable had when it was first touched.  This module says what the ledger
knows about the world before the proposal, at every moment of it and for every model, also for
one whose programs go on after a failed read:

* a variable is there if it was there before or is listed as created, and never both;
* no variable is listed as created twice;
* the log-probability remembered for a variable that was there before is the one it had, and a
  variable without a remembered one still has it;
* a marked variable is there, is listed as marked, and its log-probability is remembered.

The list of marks is not a set: a variable that is marked, revived and marked again is listed
twice.

## Main definitions

* `World.Accounts` — what a ledger knows.

## Main results

* `World.accounted_of_moves` — running programs keeps it so.
* `World.accounted_revisions` — so does revising the readers of a variable.
-/

namespace Stochastic.World

variable {before now : World} {r r' : Run} {l : Ledger} {t n k : Ident} {v v' : Variable}
  {m : Model}

/-! ## Remembering a log-probability -/

theorem note_of_contains {x : Float} (h : l.prior.contains n = true) : l.note n x = l := by
  rw [Ledger.note, if_pos h]

theorem note_of_not_contains {x : Float} (h : l.prior.contains n = false) :
    l.note n x = { l with prior := l.prior.insert n x } := by
  rw [Ledger.note, h]
  rfl

theorem contains_prior_iff : l.prior.contains n = true ↔ ∃ x, l.prior.get? n = some x :=
  Option.isSome_iff_exists

/-- What is remembered stays. -/
theorem get?_note_of_some {x y : Float} (h : l.prior.get? k = some y) :
    (l.note n x).prior.get? k = some y := by
  cases hn : l.prior.contains n with
  | true => rw [note_of_contains hn, h]
  | false =>
    rw [note_of_not_contains hn, Table.get?_insert, if_neg, h]
    intro hnk
    rw [Table.contains, Table.get?_congr _ hnk, h] at hn
    cases hn

theorem exists_get?_note (x : Float) : ∃ y, (l.note n x).prior.get? n = some y := by
  cases hn : l.prior.contains n with
  | true =>
    rw [note_of_contains hn]
    exact contains_prior_iff.1 hn
  | false =>
    rw [note_of_not_contains hn]
    exact ⟨x, by rw [Table.get?_insert, if_pos (BEq.refl n)]⟩

/-- What is remembered was remembered before, or is what has just been noted. -/
theorem get?_note_cases {x y : Float} (h : (l.note n x).prior.get? k = some y) :
    l.prior.get? k = some y ∨ ((n == k) = true ∧ l.prior.get? k = none ∧ y = x) := by
  cases hn : l.prior.contains n with
  | true =>
    rw [note_of_contains hn] at h
    exact .inl h
  | false =>
    rw [note_of_not_contains hn, Table.get?_insert] at h
    by_cases hnk : (n == k) = true
    · rw [if_pos hnk] at h
      rw [Table.contains, Table.get?_congr _ hnk, Option.isSome_eq_false_iff,
        Option.isNone_iff_eq_none] at hn
      exact .inr ⟨hnk, hn, (Option.some.inj h).symm⟩
    · rw [if_neg hnk] at h
      exact .inl h

theorem get?_of_note_eq_none {x : Float} (h : (l.note n x).prior.get? k = none) :
    l.prior.get? k = none := by
  cases hk : l.prior.get? k with
  | none => rfl
  | some y =>
    rw [get?_note_of_some hk] at h
    cases h

@[simp] theorem target_note (l : Ledger) (n : Ident) (x : Float) :
    (l.note n x).target = l.target := by
  unfold Ledger.note
  split <;> rfl

@[simp] theorem created_note (l : Ledger) (n : Ident) (x : Float) :
    (l.note n x).created = l.created := by
  unfold Ledger.note
  split <;> rfl

@[simp] theorem marked_note (l : Ledger) (n : Ident) (x : Float) :
    (l.note n x).marked = l.marked := by
  unfold Ledger.note
  split <;> rfl

/-! ## What a ledger knows -/

/-- What the ledger of a proposal for `t` knows of the world before and the world now. -/
structure Accounts (before : World) (t : Ident) (now : World) (l : Ledger) : Prop where
  target : l.target = t
  present : ∀ n, (∃ v, now.lookup? n = some v) ↔
    (∃ v, before.lookup? n = some v) ∨ l.created.contains n = true
  distinct : l.created.Pairwise fun a b => (a == b) = false
  created : ∀ n, l.created.contains n = true → before.lookup? n = none
  prior : ∀ {n v x}, before.lookup? n = some v → l.prior.get? n = some x → x = v.logProb
  untouched : ∀ {n v v'}, before.lookup? n = some v → l.prior.get? n = none →
    now.lookup? n = some v' → v'.logProb = v.logProb
  marked : ∀ {n}, now.overlay.isMarked n = true →
    l.marked.contains n = true ∧ (∃ x, l.prior.get? n = some x) ∧ ∃ v, now.lookup? n = some v
  standing : now.overlay.isMarked t = false

/-- At the beginning of a proposal, where nothing is marked, the ledger is empty. -/
theorem accounts_init (hm : ∀ n, before.overlay.isMarked n = false) (t : Ident) :
    Accounts before t before { target := t } where
  target := rfl
  present n := ⟨.inl, fun h => h.resolve_right fun h => by cases h⟩
  distinct := .nil
  created n h := by cases h
  prior _ h := by cases h
  untouched hv _ hv' := congrArg Variable.logProb (Option.some.inj (hv'.symm.trans hv))
  marked h := by
    rw [hm] at h
    cases h
  standing := hm t

namespace Accounts

variable (h : Accounts before t now l)

include h

/-- The log-probability of a variable may be remembered at any time: it is remembered before it
can change. -/
theorem note (hv : now.lookup? n = some v) : Accounts before t now (l.note n v.logProb) where
  target := by rw [target_note, h.target]
  present k := by rw [created_note, h.present]
  distinct := by rw [created_note]; exact h.distinct
  created k := by rw [created_note]; exact h.created k
  prior {k u x} hu hx := by
    rcases get?_note_cases hx with hx | ⟨hnk, hk, rfl⟩
    · exact h.prior hu hx
    · exact h.untouched hu hk (lookup?_congr now hnk ▸ hv)
  untouched hu hk := h.untouched hu (get?_of_note_eq_none hk)
  marked hk := by
    obtain ⟨hl, ⟨x, hx⟩, hv⟩ := h.marked hk
    rw [marked_note]
    exact ⟨hl, ⟨x, get?_note_of_some hx⟩, hv⟩
  standing := h.standing

/-- A variable whose log-probability is remembered may be replaced. -/
theorem put (hv : now.lookup? n = some v) (hp : ∃ x, l.prior.get? n = some x) (v' : Variable) :
    Accounts before t (now.put n v') l := by
  have hpresent : ∀ k, (∃ u, (now.put n v').lookup? k = some u) ↔ ∃ u, now.lookup? k = some u := by
    intro k
    rw [lookup?_put]
    by_cases hnk : (n == k) = true
    · rw [if_pos hnk, ← lookup?_congr now hnk, hv]
      exact ⟨fun _ => ⟨v, rfl⟩, fun _ => ⟨v', rfl⟩⟩
    · rw [if_neg hnk]
  refine { h with
    present := fun k => (hpresent k).trans (h.present k), untouched := ?_, marked := ?_ }
  · intro k u u' hu hk hu'
    rw [lookup?_put, if_neg] at hu'
    · exact h.untouched hu hk hu'
    -- the variable put is remembered, so it is not among the untouched ones
    · intro hnk
      obtain ⟨x, hx⟩ := hp
      rw [Table.get?_congr _ hnk, hk] at hx
      cases hx
  · intro k hk
    obtain ⟨hl, hx, hu⟩ := h.marked hk
    exact ⟨hl, hx, (hpresent k).2 hu⟩

theorem mark (hv : now.lookup? n = some v) (ht : (t == n) = false) :
    Accounts before t (now.marking n)
      { l.note n v.logProb with marked := (l.note n v.logProb).marked ++ [n] } := by
  have h' := h.note hv
  refine { h' with marked := ?_, standing := ?_ }
  · intro k hk
    rw [isMarked_marking, Bool.or_eq_true] at hk
    rw [List.contains_append, Bool.or_eq_true]
    rcases hk with hk | hk
    · obtain ⟨hl, hx⟩ := h'.marked hk
      exact ⟨.inl hl, hx⟩
    · obtain ⟨x, hx⟩ := exists_get?_note (l := l) (n := n) v.logProb
      refine ⟨.inr ?_, ⟨x, ?_⟩, v, ?_⟩
      · rw [List.contains_cons, hk, Bool.true_or]
      · rw [Table.get?_congr _ hk, hx]
      · rw [lookup?_marking, lookup?_congr now hk, hv]
  · rw [isMarked_marking, h.standing, ht]
    rfl

theorem unmark (n : Ident) : Accounts before t (now.unmarking n) l := by
  refine { h with marked := ?_, standing := ?_ }
  · intro k hk
    rw [isMarked_unmarking, Bool.and_eq_true] at hk
    exact h.marked hk.1
  · rw [isMarked_unmarking, h.standing, Bool.false_and]

theorem create (hn : now.lookup? n = none) (v : Variable) :
    Accounts before t (now.put n v) { l with created := l.created ++ [n] } := by
  -- what is not there now was never there
  have hbefore : before.lookup? n = none := by
    cases hb : before.lookup? n with
    | none => rfl
    | some u =>
      obtain ⟨u', hu'⟩ := (h.present n).2 (.inl ⟨u, hb⟩)
      cases hn.symm.trans hu'
  -- nothing that is there has an equal identifier
  have hother : ∀ {k u}, now.lookup? k = some u → (n == k) = false := fun {k u} hk =>
    Bool.eq_false_iff.2 fun hnk => by
      rw [lookup?_congr now hnk, hk] at hn
      cases hn
  have hcreated : ∀ k, (l.created ++ [n]).contains k = true ↔
      l.created.contains k = true ∨ (n == k) = true := by
    intro k
    rw [List.contains_append, Bool.or_eq_true, List.contains_cons, List.contains_nil,
      Bool.or_false, BEq.comm]
  refine { h with present := ?_, distinct := ?_, created := ?_, untouched := ?_, marked := ?_ }
  · intro k
    rw [lookup?_put, hcreated, ← or_assoc, ← h.present]
    by_cases hnk : (n == k) = true
    · rw [if_pos hnk]
      exact ⟨fun _ => .inr hnk, fun _ => ⟨v, rfl⟩⟩
    · rw [if_neg hnk]
      exact ⟨.inl, fun hk => hk.resolve_right hnk⟩
  · refine List.pairwise_append.2 ⟨h.distinct, List.pairwise_singleton .., fun a ha b hb => ?_⟩
    obtain rfl := List.mem_singleton.1 hb
    obtain ⟨u, hu⟩ :=
      (h.present a).2 (.inr (List.contains_iff_exists_mem_beq.2 ⟨a, ha, BEq.refl a⟩))
    rw [BEq.comm]
    exact hother hu
  · intro k hk
    rcases (hcreated k).1 hk with hk | hk
    · exact h.created k hk
    · rw [← lookup?_congr before hk, hbefore]
  · intro k u u' hu hk hu'
    rw [lookup?_put, if_neg] at hu'
    · exact h.untouched hu hk hu'
    · intro hnk
      rw [← lookup?_congr before hnk, hbefore] at hu
      cases hu
  · intro k hk
    obtain ⟨hl, hx, u, hu⟩ := h.marked hk
    exact ⟨hl, hx, u, by rw [lookup?_put, hother hu]; exact hu⟩

end Accounts

/-! ## Along a proposal -/

/-- The ledger of a run knows what has happened since `before`. -/
def Accounted (before : World) (t : Ident) (r : Run) : Prop :=
  ∃ l, r.ledger = some l ∧ Accounts before t r.world l

/-- Staging a variable as it is and then replacing it is remembered. -/
theorem accounted_replace (h : Accounted before t r) (hv : r.world.lookup? n = some v)
    (v' : Variable) : Accounted before t (r.replace n v v') := by
  obtain ⟨l, hl, ha⟩ := h
  refine ⟨l.note n v.logProb, by rw [Run.ledger_replace, hl]; rfl, ?_⟩
  have hp := exists_get?_note (l := l) (n := n) v.logProb
  rw [Run.world_replace]
  exact ((ha.note hv).put hv hp v).put (lookup?_put_self ..) hp v'

theorem accounted_of_move (hm : Move r r') (h : Accounted before t r) : Accounted before t r' := by
  cases hm with
  | relist readers found => exact accounted_replace h found _
  | @mark n v found unread unprotected unmarked =>
    obtain ⟨l, hl, ha⟩ := h
    -- the target of the proposal is protected and is never marked
    have ht : (t == n) = false := by
      rw [Run.isProtected, hl, Bool.or_eq_false_iff] at unprotected
      exact ha.target ▸ unprotected.2
    refine ⟨_, ?_, Run.world_marking .. ▸ ha.mark found ht⟩
    rw [Run.marking, Run.ledger_mapLedger, Run.ledger_mapOverlay, Run.ledger_recordPrior found, hl]
    rfl
  | unmark n =>
    obtain ⟨l, hl, ha⟩ := h
    exact ⟨l, hl, ha.unmark n⟩
  | create d value parents absent observed =>
    obtain ⟨l, hl, ha⟩ := h
    exact ⟨_, by rw [Run.creating, Run.ledger_mapLedger, Run.ledger_mapOverlay, hl]; rfl,
      ha.create absent _⟩
  | draw =>
    obtain ⟨l, hl, ha⟩ := h
    exact ⟨l, hl, { ha with }⟩
  | write line => exact h
  | frames frames => exact h

/-- **Running programs keeps the ledger right.** -/
theorem accounted_of_moves (hm : Moves r r') (h : Accounted before t r) :
    Accounted before t r' := by
  induction hm with
  | refl => exact h
  | tail _ hm ih => exact accounted_of_move hm ih

theorem accounted_reexecute (ho : reexecute m n r = .ok () r') (h : Accounted before t r) :
    Accounted before t r' := by
  obtain ⟨d, parents, r₁, v, hx, hv, hd⟩ := reexecute_eq_ok.1 ho
  exact accounted_of_moves (sheds_forM_detach hd).moves
    (accounted_replace (accounted_of_moves (moves_of_execute hx) h) hv _)

/-- **Revising the readers of a variable keeps the ledger right.** -/
theorem accounted_revisions {cs : List Ident} {shifts : List (Option (Ident × Shift))}
    (ho : (cs.mapM (revise m) : Step _) r = .ok shifts r') (h : Accounted before t r) :
    Accounted before t r' :=
  revisions_relate (R := fun a b => Accounted before t a → Accounted before t b) (fun _ h => h)
    (fun hab hbc ha => hbc (hab ha)) (fun _ hx => accounted_reexecute hx) ho h

/-- A proposal that succeeds on a world without marks, taken apart together with what is
remembered of it. -/
theorem itemize_accounts (hm : ∀ n, before.overlay.isMarked n = false) {value : Tensor Float}
    {p : Proposal} (hp : (itemize m before t value).result = .ok p) :
    ∃ u shifts r l created deleted, before.lookup? t = some u ∧
      (u.children.toList.mapM (revise m) : Step _)
        ((Run.proposing { world := before } t).replace t u (u.setValue value)) = .ok shifts r ∧
      Accounts before t r.world l ∧ List.Forall₂ (CreatedItem r) (r.survivors l) created ∧
      List.Forall₂ (DeletedItem r l) (r.losses l) deleted ∧
      p = { target := ⟨u.logProb, (u.setValue value).logProb⟩
            children := (shifts.filterMap id).filter fun c => !r.world.overlay.isMarked c.1
            created, deleted, live := r.world.liveLogProbs } := by
  obtain ⟨r', hr', -⟩ := itemize_eq_ok hp
  obtain ⟨-, u, shifts, r, created, deleted, hu, hrev, hbal, -, heq⟩ := proposal_eq_ok hr'
  have hinit : Accounted before t (Run.proposing { world := before } t) :=
    ⟨_, rfl, accounts_init hm t⟩
  obtain ⟨l, hl, ha⟩ := accounted_revisions hrev (accounted_replace hinit hu (u.setValue value))
  obtain ⟨hc, hd, -⟩ := balance_eq_ok hl hbal
  exact ⟨u, shifts, r, l, created, deleted, hu, hrev, ha, hc, hd, heq⟩

end Stochastic.World
