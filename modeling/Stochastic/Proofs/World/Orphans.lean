import Stochastic.Proofs.World.Accounting

/-!
# No orphan is leaked

A live variable that nothing reads, and that is not protected, is of no use to anybody.  A
proposal leaves no such variable behind that was not there before: whatever it creates or revives
gets a reader at once, and whatever loses its last reader is marked at once.

While a program runs, the variable that it reads may have no reader for a moment: after it was
created or revived, and before it is connected to the program.  That is the one exception, so
what is proved of making a variable live leaves that variable out, and connecting it takes care of
it.  A chain of deletions leaves nothing out at any of its links, so it does not matter how long
it gets.

## Main definitions

* `World.Unread` — a live variable has no readers.
* `World.Reclaims` — every unprotected variable without readers was there before.

## Main results

* `World.unread_of_revive`, `World.unread_of_execute` — reviving a variable and executing a
  program.
* `World.reclaims_detach` — detaching, along a chain of deletions of any length.
* `World.unread_of_propose` — a proposal that succeeds leaves no new orphan.
-/

namespace Stochastic.World

variable {w : World} {r r' : Run} {n k c p : Ident} {v v' : Variable} {m : Model} {ex : Executor}

/-! ## Variables that nothing reads -/

/-- The live variable `n` has no readers. -/
def Unread (w : World) (n : Ident) : Prop := ∃ v, w.live? n = some v ∧ v.children.toList = []

instance (w : World) (n : Ident) : Decidable (w.Unread n) :=
  decidable_of_iff ((w.live? n).any fun v => v.children.toList.isEmpty) <| by
    simp only [Unread, Option.any_eq_true, List.isEmpty_iff]

theorem unread_iff : w.Unread n ↔ w.overlay.isMarked n = false ∧
    ∃ v, w.lookup? n = some v ∧ v.children.toList = [] := by
  simp only [Unread, live?_eq_some]
  constructor
  · rintro ⟨v, ⟨hm, hv⟩, hc⟩
    exact ⟨hm, v, hv, hc⟩
  · rintro ⟨hm, v, hv, hc⟩
    exact ⟨v, ⟨hm, hv⟩, hc⟩

/-- A variable that is there is marked, or has a reader, unless it is one that nothing reads. -/
theorem isMarked_or_lists (hv : w.lookup? n = some v) (hn : ¬ w.Unread n) :
    w.overlay.isMarked n = true ∨ ∃ c, w.Lists n c := by
  by_cases hm : w.overlay.isMarked n = true
  · exact .inl hm
  · have hm := Bool.eq_false_iff.2 hm
    obtain ⟨c, hc⟩ := List.exists_mem_of_ne_nil _ fun hnil => hn (unread_iff.2 ⟨hm, v, hv, hnil⟩)
    refine .inr ⟨c, (lists_of_lookup? hm hv).2 ?_⟩
    exact List.contains_iff_exists_mem_beq.2 ⟨c, hc, BEq.refl c⟩

/-- A variable with a reader is not one that nothing reads. -/
theorem Lists.not_unread (h : w.Lists n c) : ¬ w.Unread n := by
  rintro ⟨v, hv, hnil⟩
  obtain ⟨v', hv', hc⟩ := h
  obtain rfl : v = v' := Option.some.inj (hv.symm.trans hv')
  rw [contains_eq_false_of_toList hnil] at hc
  cases hc

theorem unread_congr (w : World) (h : (n == k) = true) : w.Unread n ↔ w.Unread k := by
  rw [Unread, Unread, live?_congr w h]

theorem unread_put (w : World) (n : Ident) (v : Variable) (k : Ident) :
    (w.put n v).Unread k ↔
      if n == k then w.overlay.isMarked k = false ∧ v.children.toList = [] else w.Unread k := by
  rw [unread_iff, unread_iff, isMarked_put, lookup?_put]
  by_cases h : (n == k) = true <;> simp [h]

theorem unread_marking (w : World) (n k : Ident) :
    (w.marking n).Unread k ↔ w.Unread k ∧ (k == n) = false := by
  rw [unread_iff, unread_iff, isMarked_marking, lookup?_marking, Bool.or_eq_false_iff]
  exact ⟨fun ⟨⟨hm, hn⟩, hv⟩ => ⟨⟨hm, hv⟩, hn⟩, fun ⟨⟨hm, hv⟩, hn⟩ => ⟨⟨hm, hn⟩, hv⟩⟩

/-- Taking a mark away brings back no variable but that one. -/
theorem unread_of_unmarking (h : (w.unmarking n).Unread k) : w.Unread k ∨ (k == n) = true := by
  rw [unread_iff, isMarked_unmarking, lookup?_unmarking] at h
  obtain ⟨hm, hv⟩ := h
  by_cases hk : (k == n) = true
  · exact .inr hk
  · rw [Bool.eq_false_iff.2 hk, Bool.not_false, Bool.and_true] at hm
    exact .inl (unread_iff.2 ⟨hm, hv⟩)

theorem unread_relist (r : Run) (n : Ident) (v : Variable) (readers : OrderedSet Ident)
    (k : Ident) : (r.relist n v readers).world.Unread k ↔
      if n == k then r.world.overlay.isMarked k = false ∧ readers.toList = []
      else r.world.Unread k := by
  rw [unread_iff, isMarked_relist, lookup?_relist]
  by_cases h : (n == k) = true
  · simp [h]
  · simp only [h, Bool.false_eq_true, if_false, unread_iff]

/-! ## Reading -/

/-- A variable that a reader has been attached to has one. -/
theorem unread_of_attach (h : attach c p r = .ok () r') (hk : r'.world.Unread k) :
    r.world.Unread k ∧ (p == k) = false := by
  rw [attach_eq] at h
  cases hv : r.world.lookup? p with
  | none =>
    rw [hv] at h
    cases h
  | some v =>
    rw [hv] at h
    simp only at h
    by_cases hc : v.children.contains c = true
    -- it was listed before, so nothing has changed and the list is not empty
    · rw [if_pos hc] at h
      cases h
      refine ⟨hk, Bool.eq_false_iff.2 fun hpk => ?_⟩
      obtain ⟨-, v', hv', hnil⟩ := unread_iff.1 ((unread_congr _ hpk).2 hk)
      obtain rfl : v = v' := Option.some.inj (hv.symm.trans hv')
      rw [contains_eq_false_of_toList hnil] at hc
      cases hc
    -- it has just been put on the list
    · rw [if_neg hc] at h
      cases h
      rw [unread_relist] at hk
      by_cases hpk : (p == k) = true
      · rw [if_pos hpk, OrderedSet.toList_insert, if_neg hc] at hk
        simp at hk
      · rw [if_neg hpk] at hk
        exact ⟨hk, Bool.eq_false_iff.2 hpk⟩

/-- Reviving a variable brings back no variable without readers but that one: the others that are
revived with it are read by the one that was revived before. -/
theorem unread_of_reviveWithin {depth : Nat} (h : reviveWithin depth n r = .ok () r')
    (hk : r'.world.Unread k) : r.world.Unread k ∨ (k == n) = true := by
  induction depth generalizing n r r' with
  | zero =>
    obtain ⟨-, rfl⟩ := Step.pure_eq_ok.1 h
    exact .inl hk
  | succ depth ih =>
    rw [reviveWithin_succ] at h
    cases hv : r.world.lookup? n with
    | none =>
      rw [hv] at h
      cases h
    | some v =>
      rw [hv] at h
      refine unread_of_unmarking (Step.forM_relates
        (R := fun a b : Run => b.world.Unread k → a.world.Unread k)
        (fun _ hu => hu) (fun hab hbc hu => hab (hbc hu)) (fun q _ {r₁ r₂} hq hu => ?_) h hk)
      -- one parent: revived if it is marked, and in any case attached
      change (ite (r₁.world.overlay.isMarked q = true) _ _ : Step Unit) r₁ = _ at hq
      by_cases hmarked : r₁.world.overlay.isMarked q = true
      · rw [if_pos hmarked] at hq
        obtain ⟨⟨⟩, r₀, hrevive, hattach⟩ := Step.bind_eq_ok.1 hq
        obtain ⟨hu₀, hne⟩ := unread_of_attach hattach hu
        refine (ih hrevive hu₀).resolve_right fun hkq => ?_
        rw [BEq.symm hkq] at hne
        cases hne
      · rw [if_neg hmarked] at hq
        exact (unread_of_attach hq hu).1

/-- **Reviving a variable** brings back no variable without readers but that one. -/
theorem unread_of_revive (h : revive n r = .ok () r') (hk : r'.world.Unread k) :
    r.world.Unread k ∨ (k == n) = true :=
  unread_of_reviveWithin h hk

/-- Executing a program leaves no variable without readers that was not there before. -/
def Executor.Connects (ex : Executor) : Prop :=
  ∀ {n r result r' k}, ex n r = .ok result r' → r'.world.Unread k → r.world.Unread k

theorem unread_of_create (hex : ex.Connects) (h : create m ex n r = .ok () r')
    (hk : r'.world.Unread k) : r.world.Unread k ∨ (k == n) = true := by
  obtain ⟨d, parents, r₁, value, r₂, hx, hv, rfl⟩ := create_eq_ok.1 h
  rw [Run.world_creating, unread_put] at hk
  by_cases hnk : (n == k) = true
  -- nobody reads it yet: this is what connecting it has to put right
  · exact .inr (BEq.symm hnk)
  · rw [if_neg hnk] at hk
    apply Or.inl
    apply hex hx
    rcases freshValue_eq_ok hv with ⟨-, rfl⟩ | ⟨-, -, rfl⟩ <;> exact hk

/-- Making a variable live leaves no other variable without readers. -/
theorem unread_of_provide (hex : ex.Connects) (h : provide m ex n r = .ok () r')
    (hk : r'.world.Unread k) : r.world.Unread k ∨ (k == n) = true := by
  rcases provide_eq_ok h with ⟨-, hc⟩ | ⟨-, hr⟩ | ⟨-, rfl⟩
  · exact unread_of_create hex hc hk
  · exact unread_of_revive hr hk
  · exact .inl hk

/-- A read by a running program leaves no variable without readers: the one that is read gets the
program as a reader. -/
theorem unread_of_read (hex : ex.Connects) (hp : ex.Proceeds) {x : Tensor Float}
    (hf : r.running ≠ []) (h : read m ex n r = .ok x r') (hk : r'.world.Unread k) :
    r.world.Unread k := by
  obtain ⟨hrun, r₁, hpr, hc, -⟩ := read_eq_ok h
  have hf₁ : r₁.frames = r.frames := Step.after_eq_of_ok hpr ▸ (returns_provide hp hrun).2
  rcases connect_cases n r₁ with ⟨hnil, -⟩ | ⟨f, fs, -, hw, hattach⟩
  · rw [Run.running, ← hf₁, hnil] at hf
    exact absurd rfl hf
  -- the innermost program is attached, so what it reads is not the exception any more
  · rw [hattach] at hc
    obtain ⟨hu, hne⟩ := unread_of_attach hc hk
    rw [hw] at hu
    refine (unread_of_provide hex hpr hu).resolve_right fun hkn => ?_
    rw [BEq.symm hkn] at hne
    cases hne

theorem unread_of_run (hex : ex.Connects) (hp : ex.Proceeds) {α : Type} {program : Program α}
    (hprog : program.Propagates) {a : α} (hf : r.running ≠ [])
    (h : program.run (fun q => (read m ex q).attempt) throw r = .ok a r')
    (hk : r'.world.Unread k) : r.world.Unread k := by
  induction program generalizing r with
  | done b =>
    obtain ⟨-, rfl⟩ := Step.pure_eq_ok.1 h
    exact hk
  | fail e => exact absurd h Step.throw_ne_ok
  | ask q next ih =>
    obtain ⟨x, r₁, hread, hrest⟩ := run_ask_eq_ok hprog h
    have hf₁ : r₁.running ≠ [] := by
      rw [← Step.after_eq_of_ok hread, (progress_read hp q r).running]
      exact hf
    exact unread_of_read hex hp hf hread (ih (.ok x) (hprog.2 x) hf₁ hrest)

/-- **Executing a program**, to any depth of nesting, leaves no variable without readers that was
not there before. -/
theorem unread_of_execute (hm : m.Propagates) (depth : Nat) : (execute m depth).Connects := by
  induction depth with
  | zero =>
    intro n r result r' k h _
    cases h
  | succ depth ih =>
    intro n r result r' k h hk
    obtain ⟨r₁, hb, -, rfl⟩ := execute_succ_eq_ok h
    -- the program itself is running, so there is a reader for whatever it reads
    have hf : Run.running { r with frames := ⟨n, .empty⟩ :: r.frames } ≠ [] := nofun
    have hu := unread_of_run ih (execute_proceeds m depth) (hm n) hf hb hk
    exact hu

/-! ## Protected variables -/

theorem isProtected_beq (r : Run) (h : (n == k) = true) : r.isProtected n = r.isProtected k := by
  have htarget : ∀ l : Ledger, (l.target == n) = (l.target == k) := fun l => BEq.congr_right h
  unfold Run.isProtected isObserved
  rw [Table.contains, Table.contains, Table.get?_congr _ h, OrderedSet.contains_congr _ h]
  simp only [htarget]

/-- Which variables are protected depends on what is observed and queried, and on the target of
the proposal. -/
theorem isProtected_congr (hw : r.world.Grows r'.world)
    (hl : r'.ledger.map Ledger.target = r.ledger.map Ledger.target) (n : Ident) :
    r'.isProtected n = r.isProtected n := by
  have htarget : ∀ l : Option Ledger, (l.any fun l => l.target == n) =
      (l.map Ledger.target).any (· == n) := fun l => by cases l <;> rfl
  rw [Run.isProtected, Run.isProtected, isObserved, isObserved, hw.observations, hw.queries,
    htarget, htarget, hl]

theorem target_replace (r : Run) (n : Ident) (v v' : Variable) :
    (r.replace n v v').ledger.map Ledger.target = r.ledger.map Ledger.target := by
  rw [Run.ledger_replace]
  cases r.ledger <;> simp

theorem target_of_move (h : Move r r') :
    r'.ledger.map Ledger.target = r.ledger.map Ledger.target := by
  cases h with
  | relist readers found => exact target_replace ..
  | mark found unread unprotected unmarked =>
    rw [Run.marking, Run.ledger_mapLedger, Run.ledger_mapOverlay, Run.ledger_recordPrior found]
    cases r.ledger <;> simp
  | create d value parents absent observed =>
    rw [Run.creating, Run.ledger_mapLedger, Run.ledger_mapOverlay]
    cases r.ledger <;> rfl
  | unmark | draw | write | frames => rfl

/-- While programs run, the same variables are protected. -/
theorem isProtected_of_moves (h : Moves r r') (n : Ident) : r'.isProtected n = r.isProtected n := by
  induction h with
  | refl => rfl
  | tail _ hm ih => rw [isProtected_congr (grows_of_move hm) (target_of_move hm), ih]

/-! ## Along a proposal -/

/-- The same variables are protected, and every other one that is live without readers afterwards
was so before. -/
structure Reclaims (r r' : Run) : Prop where
  guarded : ∀ n, r'.isProtected n = r.isProtected n
  unread : ∀ {n}, r.isProtected n = false → r'.world.Unread n → r.world.Unread n

theorem Reclaims.refl (r : Run) : Reclaims r r := ⟨fun _ => rfl, fun _ h => h⟩

theorem Reclaims.trans {a b c : Run} (h : Reclaims a b) (h' : Reclaims b c) : Reclaims a c where
  guarded n := (h'.guarded n).trans (h.guarded n)
  unread hn hu := h.unread hn (h'.unread (h.guarded _ ▸ hn) hu)

theorem reclaims_execute (hm : m.Propagates) {depth : Nat}
    {result : Distribution × OrderedSet Ident} (h : execute m depth n r = .ok result r') :
    Reclaims r r' :=
  ⟨isProtected_of_moves (moves_of_execute h), fun _ hu => unread_of_execute hm depth h hu⟩

/-- A variable that is replaced keeps its readers. -/
theorem reclaims_replace (hv : r.world.lookup? n = some v) (hc : v'.children = v.children) :
    Reclaims r (r.replace n v v') where
  guarded k := by
    rw [Run.isProtected, Run.isProtected, isObserved, isObserved, Run.world_replace,
      Run.ledger_replace]
    cases r.ledger <;> simp [put]
  unread {k} _ hu := by
    rw [unread_iff, isMarked_replace, lookup?_replace] at hu
    obtain ⟨hm, u, hu, hnil⟩ := hu
    by_cases hnk : (n == k) = true
    · rw [if_pos hnk] at hu
      cases hu
      exact unread_iff.2 ⟨hm, v, lookup?_congr _ hnk ▸ hv, hc ▸ hnil⟩
    · rw [if_neg hnk] at hu
      exact unread_iff.2 ⟨hm, u, hu, hnil⟩

/-- A chain of deletions leaves no orphan at any of its links: a variable that has lost its last
reader is protected or is marked at once. -/
theorem reclaims_detachWithin (depth : Nat) (c p : Ident) (r : Run) :
    Reclaims r ((detachWithin depth c p).after r) := by
  induction depth generalizing c p r with
  | zero => exact Reclaims.refl r
  | succ depth ih =>
    rw [Step.after, detachWithin_succ]
    cases hv : r.world.lookup? p with
    | none => exact Reclaims.refl r
    | some v =>
      have hmoves := (sheds_relist hv (v.children.erase c)).moves
      have hrelist := unread_relist r p v (v.children.erase c)
      have hfound := lookup?_relist_self r p v (v.children.erase c)
      have hmarks := isMarked_relist r p v (v.children.erase c)
      simp only
      generalize r.relist p v (v.children.erase c) = r₁ at hmoves hrelist hfound hmarks ⊢
      -- up to the variable that has lost a reader, nothing has changed
      have hother : ∀ {k}, (p == k) = false → r₁.world.Unread k → r.world.Unread k := by
        intro k hpk hu
        rw [hrelist, hpk] at hu
        exact hu
      by_cases ha : r₁.abandons p (v.children.erase c) = true
      · rw [if_pos ha]
        have hmarking : Reclaims r ((r₁.marking p).write (markLine p)) := by
          refine ⟨isProtected_of_moves (hmoves.trans (sheds_marking hfound rfl ha).moves),
            fun _ hu => ?_⟩
          rw [Run.world_write, Run.world_marking, unread_marking] at hu
          exact hother (BEq.comm.trans hu.2) hu.1
        exact hmarking.trans (Step.after_forM Reclaims.refl Reclaims.trans (fun q r => ih p q r) _)
      · rw [if_neg ha]
        refine ⟨isProtected_of_moves hmoves, fun {k} hfree hu => ?_⟩
        by_cases hpk : (p == k) = true
        · -- it has no reader left and is not marked, so it was kept because it is protected
          have hlast := (hrelist k).1 hu
          rw [if_pos hpk, ← isMarked_congr _ hpk] at hlast
          obtain ⟨hunmarked, hnil⟩ := hlast
          refine absurd ?_ ha
          rw [Run.abandons, hmarks, hunmarked, isProtected_of_moves hmoves, isProtected_beq r hpk, hfree,
            OrderedSet.isEmpty, hnil]
          rfl
        · exact hother (Bool.eq_false_iff.2 hpk) hu

/-- **Detaching leaves no orphan**, however long the chain of deletions is. -/
theorem reclaims_detach (c p : Ident) (r : Run) : Reclaims r ((detach c p).after r) :=
  reclaims_detachWithin _ c p r

theorem reclaims_reexecute (hm : m.Propagates) (h : reexecute m n r = .ok () r') :
    Reclaims r r' := by
  obtain ⟨d, parents, r₁, v, hx, hv, hd⟩ := reexecute_eq_ok.1 h
  have hreplace : Reclaims r₁ (r₁.replace n v (revised v d parents)) := reclaims_replace hv rfl
  -- what is read no more is detached, one variable after the other
  have hdetach : Reclaims (r₁.replace n v (revised v d parents)) r' :=
    Step.after_eq_of_ok hd ▸ Step.after_forM Reclaims.refl Reclaims.trans (reclaims_detach n) _
  exact (reclaims_execute hm hx).trans (hreplace.trans hdetach)

/-- A proposal that succeeds leaves no orphan, from the moment on that its target is known. -/
theorem reclaims_proposal (hm : m.Propagates) {value : Tensor Float} {result : Proposal}
    (h : proposal m n value r = .ok result r') : Reclaims (r.proposing n) r' := by
  obtain ⟨-, v, shifts, r₁, created, deleted, line, hv, hrev, -, rfl, -⟩ := proposal_eq_ok_write h
  have hmove : Reclaims (r.proposing n) ((r.proposing n).replace n v (v.setValue value)) :=
    reclaims_replace hv rfl
  have hrevise := revisions_relate Reclaims.refl Reclaims.trans
    (fun _ hx => reclaims_reexecute hm hx) hrev
  -- the log line that ends the proposal is all that comes after that
  have hwrite : Reclaims r₁ (r₁.write line) := ⟨fun _ => rfl, fun _ hu => hu⟩
  exact hmove.trans (hrevise.trans hwrite)

/-- **A proposal leaks no orphan.**  If every program ends with an error as soon as a read fails,
and the proposal succeeds, then every variable that is live without readers afterwards, is neither
observed nor queried, and is not the one proposed for, was live without readers before.  So a
variable that was created, or that had a reader before, is marked in the end or has a reader. -/
theorem unread_of_propose (hm : m.Propagates) {t : Ident} {value : Tensor Float}
    {outcome : Outcome} (ho : (propose m w t value).result = .ok outcome) (hn : (t == n) = false)
    (hobserved : w.isObserved n = false) (hqueried : w.queries.contains n = false) :
    let w' := (propose m w t value).state
    (w'.Unread n → w.Unread n) ∧
      ((w.lookup? n = none ∨ ∃ c, w.Lists n c) → ∀ v, w'.lookup? n = some v →
        w'.overlay.isMarked n = true ∨ ∃ c, w'.Lists n c) := by
  obtain ⟨result, hresult⟩ : ∃ result, (itemize m w t value).result = .ok result := by
    cases hi : (itemize m w t value).result with
    | ok result => exact ⟨result, rfl⟩
    | error e =>
      rw [propose, Reply.map, hi] at ho
      cases ho
  obtain ⟨r', hr', hstate⟩ := itemize_eq_ok hresult
  -- during the proposal, the target is protected besides what is observed or queried
  have hfree : (Run.proposing { world := w } t).isProtected n = false := by
    rw [Run.isProtected]
    simp [Run.proposing, hobserved, hqueried, hn]
  have hold : r'.world.Unread n → w.Unread n := (reclaims_proposal hm hr').unread hfree
  rw [hstate]
  refine ⟨hold, fun hbefore v hv => isMarked_or_lists hv fun hu => ?_⟩
  -- a new variable was not there before, and one with a reader was not without readers
  rcases hbefore with hnone | ⟨c, hc⟩
  · obtain ⟨-, u, hu, -⟩ := unread_iff.1 (hold hu)
    cases hnone.symm.trans hu
  · exact hc.not_unread (hold hu)

theorem Redropped.model_propagates : Redropped.model.Propagates := by
  have hreading : ∀ n wanted, (Redropped.reading n wanted).Propagates := fun n wanted => by
    cases wanted
    · exact trivial
    · exact (Program.propagates_readItem n).bind fun _ => trivial
  intro n
  unfold Redropped.model
  simp only
  split
  · exact trivial
  split
  · exact trivial
  refine (Program.propagates_readItem _).bind fun x => ?_
  split
  · exact hreading ..
  split
  · exact hreading ..
  · exact hreading ..

/-- A variable that is dropped by its reader, picked up by another one, and deleted together with
that one: it had a reader before, and it is marked in the end. -/
theorem unread_of_propose_redropped :
    let w := Redropped.before
    let reply := propose Redropped.model w Redropped.root (.scalar 1)
    Redropped.model.Propagates ∧ reply.result.isOk = true ∧
      (Redropped.root == Redropped.spare) = false ∧ w.isObserved Redropped.spare = false ∧
      w.queries.contains Redropped.spare = false ∧ w.Lists Redropped.spare Redropped.first ∧
      (reply.state.Unread Redropped.spare → w.Unread Redropped.spare) ∧
      (reply.state.overlay.isMarked Redropped.spare = true ∨
        ∃ c, reply.state.Lists Redropped.spare c) := by
  intro w reply
  have hok : reply.result.isOk = true := by decide +kernel
  have hobserved : w.isObserved Redropped.spare = false := by decide +kernel
  have hqueried : w.queries.contains Redropped.spare = false := by decide +kernel
  have hlists : w.Lists Redropped.spare Redropped.first := by decide +kernel
  have hthere : (reply.state.lookup? Redropped.spare).isSome = true := by decide +kernel
  obtain ⟨v, hv⟩ := Option.isSome_iff_exists.1 hthere
  cases ho : reply.result with
  | error e =>
    rw [ho] at hok
    cases hok
  | ok outcome =>
    obtain ⟨hold, hend⟩ := unread_of_propose Redropped.model_propagates ho
      (n := Redropped.spare) rfl hobserved hqueried
    exact ⟨Redropped.model_propagates, rfl, rfl, hobserved, hqueried, hlists, hold,
      hend (.inr ⟨_, hlists⟩) v hv⟩

end Stochastic.World
