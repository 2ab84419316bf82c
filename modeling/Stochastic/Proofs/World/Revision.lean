import Mathlib.Data.List.Forall2
import Stochastic.Proofs.World.Execution

/-!
# A proposal taken apart

A proposal that succeeds gives the variable its new value, then revises each of the variables
that read it, and then adds up.  Revising a variable that is marked by then does nothing; else
its program is executed again, what it comes to is put in place, and the variables that are no
longer read lose it as a reader.

A proposal may also fail at any of these steps.  What each of them keeps to is kept to by the
proposal, however it ends.

## Main definitions

* `World.Follows`, `World.Tracks` — relations between runs that all steps of a proposal keep to.

## Main results

* `World.reexecute_eq_ok`, `World.revise_eq_ok`, `World.move_eq_ok`, `World.balance_eq_ok` — the
  parts of a proposal.
* `World.revisions_relate` — what leads through one second execution leads through several.
* `World.proposal_eq_ok` — a proposal that succeeds, taken apart.
* `World.Follows.proposal` — a proposal keeps to what its steps keep to, however it ends.
-/

namespace Stochastic.World

variable {w : World} {r r' : Run} {n : Ident} {v : Variable} {m : Model}

theorem stage_eq_ok : stage n r = .ok v r' ↔
    r.world.lookup? n = some v ∧ r' = (r.mapOverlay (·.put n v)).recordPrior n := by
  unfold stage
  cases r.world.lookup? n with
  | none => simp
  | some v' =>
    simp only [EStateM.Result.ok.injEq, Option.some.injEq]
    constructor
    · rintro ⟨rfl, rfl⟩
      exact ⟨rfl, rfl⟩
    · rintro ⟨rfl, rfl⟩
      exact ⟨rfl, rfl⟩

/-- A variable whose program has been executed again: what it reads and its distribution are
replaced. -/
def revised (v : Variable) (d : Distribution) (parents : OrderedSet Ident) : Variable :=
  { v with parents }.setDistribution d

/-- The variables that a variable read and that its program has not read again. -/
def dropped (v : Variable) (parents : OrderedSet Ident) : List Ident :=
  v.parents.toList.filter fun p => !parents.contains p

/-- A second execution that succeeds, taken apart. -/
theorem reexecute_eq_ok : reexecute m n r = .ok () r' ↔ ∃ d parents r₁ v,
    execute m r.world.config.maxDepth n r = .ok (d, parents) r₁ ∧
    r₁.world.lookup? n = some v ∧
    ((dropped v parents).forM (detach n) : Step Unit) (r₁.replace n v (revised v d parents)) =
      .ok () r' := by
  unfold reexecute
  simp only [Step.bind_eq_ok, Step.get_eq_ok]
  constructor
  · rintro ⟨s, r₀, ⟨rfl, rfl⟩, ⟨d, parents⟩, r₁, hx, v, r₂, hs, ⟨⟩, r₃, hr, hd⟩
    obtain ⟨hv, rfl⟩ := stage_eq_ok.1 hs
    obtain rfl := Step.modify_eq_ok.1 hr
    exact ⟨d, parents, r₁, v, hx, hv, hd⟩
  · rintro ⟨d, parents, r₁, v, hx, hv, hd⟩
    exact ⟨r, r, ⟨rfl, rfl⟩, (d, parents), r₁, hx, v, _, stage_eq_ok.2 ⟨hv, rfl⟩, (), _,
      Step.modify_eq_ok.2 rfl, hd⟩

/-- A reader that is marked is left alone; another one is executed again. -/
theorem revise_eq_ok {o : Option (Ident × Shift)} (h : revise m n r = .ok o r') :
    (r.world.overlay.isMarked n = true ∧ o = none ∧ r' = r) ∨
      (r.world.overlay.isMarked n = false ∧ ∃ v v', r.world.lookup? n = some v ∧
        reexecute m n r = .ok () r' ∧ r'.world.lookup? n = some v' ∧
        o = some (n, ⟨v.logProb, v'.logProb⟩)) := by
  change (ite (r.world.overlay.isMarked n = true) _ _ : Step _) r = _ at h
  by_cases hm : r.world.overlay.isMarked n = true
  · rw [if_pos hm] at h
    obtain ⟨rfl, rfl⟩ := Step.pure_eq_ok.1 h
    exact .inl ⟨hm, rfl, rfl⟩
  · rw [if_neg hm] at h
    obtain ⟨v, r₁, hl, h⟩ := Step.bind_eq_ok.1 h
    obtain ⟨rfl, hv⟩ := Step.lookup_eq_ok.1 hl
    obtain ⟨⟨⟩, r₂, hx, h⟩ := Step.bind_eq_ok.1 h
    obtain ⟨v', r₃, hl', h⟩ := Step.bind_eq_ok.1 h
    obtain ⟨rfl, hv'⟩ := Step.lookup_eq_ok.1 hl'
    obtain ⟨rfl, rfl⟩ := Step.pure_eq_ok.1 h
    exact .inr ⟨Bool.eq_false_iff.2 hm, v, v', hv, hx, hv', rfl⟩

/-- A reflexive and transitive relation that leads through every second execution of a live
variable leads through the revision of several ones. -/
theorem revisions_relate {R : Run → Run → Prop} (refl : ∀ r, R r r)
    (trans : ∀ {a b c}, R a b → R b c → R a c)
    (hR : ∀ {c r r'}, r.world.overlay.isMarked c = false → reexecute m c r = .ok () r' → R r r')
    {cs : List Ident} {shifts : List (Option (Ident × Shift))}
    (ho : (cs.mapM (revise m) : Step _) r = .ok shifts r') : R r r' := by
  refine Step.mapM_relates refl trans (fun c _ {o r r'} hc => ?_) ho
  rcases revise_eq_ok hc with ⟨-, -, rfl⟩ | ⟨hn, v, v', -, hx, -, -⟩
  · exact refl r'
  · exact hR hn hx

/-- The run at the beginning of a proposal. -/
def Run.proposing (r : Run) (n : Ident) : Run := { r with ledger := some { target := n } }

theorem move_eq_ok {value : Tensor Float} {result : Shift × List Ident} :
    move n value r = .ok result r' ↔ ∃ v, r.world.lookup? n = some v ∧
      r' = (r.proposing n).replace n v (v.setValue value) ∧
      result = (⟨v.logProb, (v.setValue value).logProb⟩, v.children.toList) := by
  unfold move
  simp only [Step.bind_eq_ok, Step.modify_eq_ok, Step.pure_eq_ok]
  constructor
  · rintro ⟨⟨⟩, r₁, rfl, v, r₂, hs, ⟨⟩, r₃, hr, rfl, rfl⟩
    obtain ⟨hv, rfl⟩ := stage_eq_ok.1 hs
    obtain rfl := Step.modify_eq_ok.1 hr
    exact ⟨v, hv, rfl, rfl⟩
  · rintro ⟨v, hv, rfl, rfl⟩
    exact ⟨(), _, rfl, v, _, stage_eq_ok.2 ⟨hv, rfl⟩, (), _, Step.modify_eq_ok.2 rfl, rfl, rfl⟩

/-! ## Adding up -/

/-- A step for every member of a list that changes nothing has one result for each. -/
theorem mapM_eq_ok_of_pure {α β : Type} {f : α → Step β} {P : α → β → Prop} {as : List α}
    {bs : List β} (hf : ∀ a b r', f a r = .ok b r' → P a b ∧ r' = r)
    (h : (as.mapM f : Step (List β)) r = .ok bs r') : List.Forall₂ P as bs ∧ r' = r := by
  induction as generalizing bs with
  | nil =>
    obtain ⟨rfl, rfl⟩ := Step.mapM_nil_eq_ok.1 h
    exact ⟨.nil, rfl⟩
  | cons a as ih =>
    obtain ⟨b, bs', r₁, ha, has, rfl⟩ := Step.mapM_cons_eq_ok.1 h
    obtain ⟨hP, rfl⟩ := hf a b r₁ ha
    obtain ⟨hPs, rfl⟩ := ih has
    exact ⟨.cons hP hPs, rfl⟩

/-- An item for a created variable: its log-probability now. -/
def CreatedItem (r : Run) (n : Ident) (item : Ident × Float) : Prop :=
  item.1 = n ∧ ∃ v, r.world.lookup? n = some v ∧ item.2 = v.logProb

/-- An item for a deleted variable: the log-probability that it had before. -/
def DeletedItem (r : Run) (l : Ledger) (n : Ident) (item : Ident × Float) : Prop :=
  item.1 = n ∧ (l.prior.get? n = some item.2 ∨
    l.prior.get? n = none ∧ ∃ v, r.world.lookup? n = some v ∧ item.2 = v.logProb)

theorem prior_eq_ok {l : Ledger} {x : Float} (h : prior l n r = .ok x r') :
    DeletedItem r l n (n, x) ∧ r' = r := by
  unfold prior at h
  cases hp : l.prior.get? n with
  | some y =>
    rw [hp] at h
    obtain ⟨rfl, rfl⟩ := Step.pure_eq_ok.1 h
    exact ⟨⟨rfl, .inl hp⟩, rfl⟩
  | none =>
    rw [hp] at h
    obtain ⟨v, r₁, hl, h⟩ := Step.bind_eq_ok.1 h
    obtain ⟨rfl, hv⟩ := Step.lookup_eq_ok.1 hl
    obtain ⟨rfl, rfl⟩ := Step.pure_eq_ok.1 h
    exact ⟨⟨rfl, .inr ⟨hp, v, hv, rfl⟩⟩, rfl⟩

/-- The created variables of a ledger that are live. -/
def Run.survivors (r : Run) (l : Ledger) : List Ident :=
  l.created.filter fun n => !r.world.overlay.isMarked n

/-- The marks of a ledger that are still there, on variables that it has not created. -/
def Run.losses (r : Run) (l : Ledger) : List Ident :=
  l.marked.filter fun n => r.world.overlay.isMarked n && !l.created.contains n

/-- Adding up changes nothing; there is one item for every created variable that is live, and
one for every mark that is still there on a variable that was not created. -/
theorem balance_eq_ok {created deleted : List (Ident × Float)} {l : Ledger}
    (hl : r.ledger = some l) (h : balance r = .ok (created, deleted) r') :
    List.Forall₂ (CreatedItem r) (r.survivors l) created ∧
      List.Forall₂ (DeletedItem r l) (r.losses l) deleted ∧ r' = r := by
  obtain ⟨s, r₁, hs, h⟩ := Step.bind_eq_ok.1 h
  obtain ⟨rfl, rfl⟩ := Step.get_eq_ok.1 hs
  rw [hl] at h
  obtain ⟨cs, r₁, hc, h⟩ := Step.bind_eq_ok.1 h
  obtain ⟨ds, r₂, hd, h⟩ := Step.bind_eq_ok.1 h
  obtain ⟨heq, rfl⟩ := Step.pure_eq_ok.1 h
  cases heq
  obtain ⟨hcs, rfl⟩ := mapM_eq_ok_of_pure (P := CreatedItem s) (fun n item r' h => by
    obtain ⟨v, r₁, hl, h⟩ := Step.bind_eq_ok.1 h
    obtain ⟨rfl, hv⟩ := Step.lookup_eq_ok.1 hl
    obtain ⟨rfl, rfl⟩ := Step.pure_eq_ok.1 h
    exact ⟨⟨rfl, v, hv, rfl⟩, rfl⟩) hc
  obtain ⟨hds, rfl⟩ := mapM_eq_ok_of_pure (P := DeletedItem r₁ l) (fun n item r' h => by
    obtain ⟨x, r₁, hp, hx⟩ := Step.bind_eq_ok.1 h
    obtain ⟨hitem, rfl⟩ := prior_eq_ok hp
    obtain ⟨rfl, rfl⟩ := Step.pure_eq_ok.1 hx
    exact ⟨hitem, rfl⟩) hd
  exact ⟨hcs, hds, rfl⟩

/-- Looking up variables and handing on what they hold changes nothing. -/
theorem after_lookup_bind {α : Type} (n : Ident) (f : Variable → α) (r : Run) :
    (do return f (← lookup n) : Step α).after r = r := by
  refine Step.after_bind (R := fun a b => b = a) (fun h h' => h'.trans h) ?_ fun _ _ _ => rfl
  exact Step.after_lookup n

theorem after_prior (l : Ledger) (n : Ident) (r : Run) : (prior l n).after r = r := by
  unfold prior
  split
  · rfl
  · exact after_lookup_bind n (·.logProb) r

/-- Adding up changes nothing, also if it fails. -/
theorem after_balance (r : Run) : balance.after r = r := by
  have trans : ∀ {a b c : Run}, b = a → c = b → c = a := fun h h' => h'.trans h
  refine Step.after_bind (R := fun a b => b = a) trans rfl fun s r₁ _ => ?_
  split
  · rfl
  · next l _ =>
    refine Step.after_bind (R := fun a b => b = a) trans
      (Step.after_mapM (R := fun a b => b = a) (fun _ => rfl) trans (fun n _ r => ?_) r₁)
      fun _ r₂ _ => ?_
    · exact after_lookup_bind n (fun v => (n, v.logProb)) r
    · refine Step.after_bind (R := fun a b => b = a) trans
        (Step.after_mapM (R := fun a b => b = a) (fun _ => rfl) trans (fun n _ r => ?_) r₂)
        fun _ _ _ => rfl
      exact Step.after_bind (R := fun a b => b = a) trans (after_prior l n r) fun _ _ _ => rfl

theorem balance_pure {items : List (Ident × Float) × List (Ident × Float)}
    (h : balance r = .ok items r') : r' = r := by
  rw [← Step.after_eq_of_ok h, after_balance]

/-! ## The whole proposal -/

/-- A proposal that succeeds, up to the line that it logs in the end. -/
theorem proposal_eq_ok_write {value : Tensor Float} {p : Proposal}
    (h : proposal m n value r = .ok p r') :
    r.world.overlay.isMarked n = false ∧ ∃ v shifts r₁ created deleted line,
      r.world.lookup? n = some v ∧
      (v.children.toList.mapM (revise m) : Step _)
        ((r.proposing n).replace n v (v.setValue value)) = .ok shifts r₁ ∧
      balance r₁ = .ok (created, deleted) r₁ ∧ r' = r₁.write line ∧
      p = { target := ⟨v.logProb, (v.setValue value).logProb⟩
            children := (shifts.filterMap id).filter fun c => !r₁.world.overlay.isMarked c.1
            created, deleted, live := r₁.world.liveLogProbs } := by
  change (ite (r.world.overlay.isMarked n = true) _ _ : Step Proposal) r = _ at h
  by_cases hm : r.world.overlay.isMarked n = true
  · rw [if_pos hm] at h
    exact absurd h Step.throw_ne_ok
  rw [if_neg hm] at h
  change (ite (r.world.isObserved n = true) _ _ : Step Proposal) r = _ at h
  by_cases ho : r.world.isObserved n = true
  · rw [if_pos ho] at h
    exact absurd h Step.throw_ne_ok
  rw [if_neg ho] at h
  obtain ⟨⟨target, readers⟩, r₀, hmove, hrest⟩ := Step.bind_eq_ok.1 h
  obtain ⟨v, hv, rfl, heq⟩ := move_eq_ok.1 hmove
  cases heq
  obtain ⟨shifts, r₁, hrev, hsum⟩ := Step.bind_eq_ok.1 hrest
  obtain ⟨⟨created, deleted⟩, r₂, hbal, hend⟩ := Step.bind_eq_ok.1 hsum
  obtain rfl : r₂ = r₁ := balance_pure hbal
  obtain ⟨s, r₃, hs, hlog⟩ := Step.bind_eq_ok.1 hend
  obtain ⟨rfl, rfl⟩ := Step.get_eq_ok.1 hs
  obtain ⟨v', r₄, hl, hwrite⟩ := Step.bind_eq_ok.1 hlog
  obtain ⟨rfl, -⟩ := Step.lookup_eq_ok.1 hl
  obtain ⟨⟨⟩, r₅, hw, hp⟩ := Step.bind_eq_ok.1 hwrite
  obtain rfl := Step.modify_eq_ok.1 hw
  obtain ⟨rfl, rfl⟩ := Step.pure_eq_ok.1 hp
  exact ⟨Bool.eq_false_iff.2 hm, v, shifts, s, created, deleted, _, hv, hrev, hbal, rfl, rfl⟩

/-- **A proposal that succeeds, taken apart**: the variable, neither marked nor observed, gets
its value; then each of its readers is revised; then the log-probabilities are added up. -/
theorem proposal_eq_ok {value : Tensor Float} {p : Proposal} (h : proposal m n value r = .ok p r') :
    r.world.overlay.isMarked n = false ∧ ∃ v shifts r₁ created deleted,
      r.world.lookup? n = some v ∧
      (v.children.toList.mapM (revise m) : Step _)
        ((r.proposing n).replace n v (v.setValue value)) = .ok shifts r₁ ∧
      balance r₁ = .ok (created, deleted) r₁ ∧ r'.world = r₁.world ∧
      p = { target := ⟨v.logProb, (v.setValue value).logProb⟩
            children := (shifts.filterMap id).filter fun c => !r₁.world.overlay.isMarked c.1
            created, deleted, live := r₁.world.liveLogProbs } := by
  obtain ⟨hm, v, shifts, r₁, created, deleted, line, hv, hrev, hbal, rfl, hp⟩ :=
    proposal_eq_ok_write h
  exact ⟨hm, v, shifts, r₁, created, deleted, hv, hrev, hbal, Run.world_write r₁ line, hp⟩

/-- A proposal that succeeds ends in a run of its step. -/
theorem itemize_eq_ok {t : Ident} {value : Tensor Float} {p : Proposal}
    (h : (itemize m w t value).result = .ok p) :
    ∃ r', proposal m t value { world := w } = .ok p r' ∧
      (propose m w t value).state = r'.world :=
  Step.reply_eq_ok h

/-! ## However a proposal ends -/

/-- The readers that a variable lists, none if it is not there. -/
def readersOf (w : World) (n : Ident) : OrderedSet Ident :=
  ((w.lookup? n).map Variable.children).getD .empty

/-- **A proposal keeps to what its two parts keep to**, however it ends: giving the variable its
value, and executing the programs of its readers again. -/
theorem after_proposal {R : Run → Run → Prop} {t : Ident} {value : Tensor Float}
    (refl : ∀ r, R r r) (trans : ∀ {a b c}, R a b → R b c → R a c)
    (hmove : R r ((move t value).after r))
    (hrevise : ∀ c, (r.world.readersOf t).contains c = true → ∀ r', R r' ((revise m c).after r'))
    (hwrite : ∀ line r, R r (r.write line)) : R r ((proposal m t value).after r) := by
  have hlookup : ∀ n r, R r ((lookup n).after r) := fun n r => by
    rw [Step.after_lookup]
    exact refl r
  refine Step.after_bind (R := R) trans (refl r) fun s r₁ hs => ?_
  obtain ⟨rfl, rfl⟩ := Step.get_eq_ok.1 hs
  simp only
  split
  · exact refl s
  split
  · exact refl s
  refine Step.after_bind (R := R) trans hmove fun a r₂ ho => ?_
  -- the readers that are revised are those that the variable has now
  obtain ⟨v, hv, -, rfl⟩ := move_eq_ok.1 ho
  have hreaders : ∀ c ∈ v.children.toList, (s.world.readersOf t).contains c = true := by
    intro c hc
    rw [readersOf, hv]
    exact List.contains_iff_exists_mem_beq.2 ⟨c, hc, BEq.refl c⟩
  refine Step.after_bind (R := R) trans (Step.after_mapM (R := R) refl trans
    (fun c hc => hrevise c (hreaders c hc)) r₂) fun shifts r₃ _ => ?_
  refine Step.after_bind (R := R) trans ?_ fun b r₄ _ => ?_
  · rw [after_balance]
    exact refl r₃
  refine Step.after_bind (R := R) trans (refl r₄) fun _ r₅ _ => ?_
  refine Step.after_bind (R := R) trans (hlookup t r₅) fun _ r₆ _ => ?_
  exact Step.after_bind (R := R) trans (hwrite _ r₆) fun _ r₇ _ => refl r₇

/-- A relation between runs that every step of a proposal for `t` keeps to, however it ends, if
`readers` are those of `t` in the beginning.  Besides what programs do, there are three changes to
variables: one is staged as it is, `t` gets its value, and a reader gets what its program has come
to. -/
structure Follows (m : Model) (t : Ident) (readers : OrderedSet Ident) (R : Run → Run → Prop) :
    Prop where
  refl : ∀ r, R r r
  trans : ∀ {a b c}, R a b → R b c → R a c
  execute : ∀ depth n r, R r ((execute m depth n).after r)
  detach : ∀ c p r, R r ((detach c p).after r)
  stage : ∀ {n v r}, r.world.lookup? n = some v → R r ((r.mapOverlay (·.put n v)).recordPrior n)
  move : ∀ {v r} (value : Tensor Float), r.world.lookup? t = some v →
    R r (r.mapOverlay (·.put t (v.setValue value)))
  revise : ∀ {c v r} (d : Distribution) (parents : OrderedSet Ident),
    readers.contains c = true → r.world.lookup? c = some v →
    R r (r.mapOverlay (·.put c (revised v d parents)))
  proposing : ∀ r, R r (r.proposing t)
  write : ∀ line r, R r (r.write line)

/-- A variable that has just been staged is there. -/
theorem lookup?_of_stage (h : stage n r = .ok v r') : r'.world.lookup? n = some v := by
  obtain ⟨-, rfl⟩ := stage_eq_ok.1 h
  rw [Run.world_recordPrior]
  exact lookup?_put_self ..

namespace Follows

variable {R : Run → Run → Prop} {t c : Ident} {readers : OrderedSet Ident}

theorem staging (h : Follows m t readers R) (n : Ident) (r : Run) :
    R r ((World.stage n).after r) := by
  rw [Step.after, World.stage]
  cases hv : r.world.lookup? n with
  | none => exact h.refl r
  | some v => exact h.stage hv

theorem lookup (h : Follows m t readers R) (n : Ident) (r : Run) :
    R r ((lookup n).after r) := by
  rw [Step.after_lookup]
  exact h.refl r

theorem reexecute (h : Follows m t readers R) (hc : readers.contains c = true) (r : Run) :
    R r ((reexecute m c).after r) := by
  refine Step.after_bind (R := R) h.trans (h.refl r) fun s r₁ _ => ?_
  -- the program, which may create and revive whatever it reads
  refine Step.after_bind (R := R) h.trans (h.execute _ c r₁) fun a r₂ _ => ?_
  refine Step.after_bind (R := R) h.trans (h.staging c r₂) fun v r₃ h₃ => ?_
  refine Step.after_bind (R := R) h.trans (h.revise _ _ hc (lookup?_of_stage h₃)) fun _ r₄ _ => ?_
  -- and what it reads no more, with all that goes with it
  exact Step.after_forM (R := R) h.refl h.trans (fun p r => h.detach c p r) r₄

theorem revision (h : Follows m t readers R) (hc : readers.contains c = true) (r : Run) :
    R r ((World.revise m c).after r) := by
  refine Step.after_bind (R := R) h.trans (h.refl r) fun s r₁ _ => ?_
  simp only
  split
  · exact h.refl r₁
  · refine Step.after_bind (R := R) h.trans (h.lookup c r₁) fun v r₂ _ => ?_
    refine Step.after_bind (R := R) h.trans (h.reexecute hc r₂) fun _ r₃ _ => ?_
    exact Step.after_bind (R := R) h.trans (h.lookup c r₃) fun v r₄ _ => h.refl r₄

theorem movement (h : Follows m t readers R) (value : Tensor Float) (r : Run) :
    R r ((World.move t value).after r) := by
  refine Step.after_bind (R := R) h.trans (h.proposing r) fun _ r₁ _ => ?_
  refine Step.after_bind (R := R) h.trans (h.staging t r₁) fun v r₂ h₂ => ?_
  exact Step.after_bind (R := R) h.trans (h.move value (lookup?_of_stage h₂)) fun _ r₃ _ =>
    h.refl r₃

/-- **A proposal keeps to what its steps keep to**, however it ends. -/
theorem proposal (h : Follows m t (r.world.readersOf t) R) (value : Tensor Float) :
    R r ((proposal m t value).after r) :=
  after_proposal h.refl h.trans (h.movement value r) (fun _ hc r' => h.revision hc r') h.write

end Follows

/-- A relation between runs that keeps to any change of a variable, and to whatever else a
proposal does. -/
structure Tracks (m : Model) (R : Run → Run → Prop) : Prop where
  refl : ∀ r, R r r
  trans : ∀ {a b c}, R a b → R b c → R a c
  execute : ∀ depth n r, R r ((execute m depth n).after r)
  detach : ∀ c p r, R r ((detach c p).after r)
  put : ∀ n v r, R r (r.mapOverlay (·.put n v))
  recordPrior : ∀ n r, R r (r.recordPrior n)
  proposing : ∀ n r, R r (r.proposing n)
  write : ∀ line r, R r (r.write line)

namespace Tracks

variable {R : Run → Run → Prop}

/-- The same if which variable is changed, and how, makes no difference. -/
theorem follows (h : Tracks m R) (t : Ident) (readers : OrderedSet Ident) :
    Follows m t readers R :=
  { h with
    stage := fun _ => h.trans (h.put ..) (h.recordPrior ..)
    move := fun _ _ => h.put ..
    revise := fun _ _ _ _ => h.put ..
    proposing := h.proposing t }

theorem revision (h : Tracks m R) (c : Ident) (r : Run) : R r ((World.revise m c).after r) := by
  refine (h.follows c (OrderedSet.empty.insert c)).revision ?_ r
  rw [OrderedSet.contains_insert, BEq.refl, Bool.or_true]

theorem proposal (h : Tracks m R) (n : Ident) (value : Tensor Float) (r : Run) :
    R r ((proposal m n value).after r) :=
  (h.follows n (r.world.readersOf n)).proposal value

end Tracks

end Stochastic.World
