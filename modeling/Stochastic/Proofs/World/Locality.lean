import Stochastic.Proofs.World.Isolation

/-!
# What a proposal can change

A proposal runs programs, and these may create, revive and rewire variables at any depth; what
nothing reads any more is marked, and so is what only that read.  None of this reaches far into
the variables that were there before.  Running programs and detaching readers change who reads a
variable, and marks; everything else that a proposal changes is changed by two of its steps.  The
proposed variable gets its value, and each of the readers that it had in the beginning gets the
distribution and the parents that its program has come to.

Nothing is assumed about the model or the world, and nothing about how the proposal ends: if it
fails half way, it has only got so far.

## Main definitions

* `World.Retains` — what is left of a variable, depending on what it is to the proposal.
* `World.Confined` — the same for all variables that were there.

## Main results

* `World.follows_confined` — every step of a proposal keeps to that, however it ends.
* `World.propose_confined` — a proposal only changes what it is about, and takes nothing away.
-/

namespace Stochastic.World

variable {w w' w'' : World} {r r' : Run} {m : Model} {t n : Ident} {v v' v'' : Variable}
  {readers : OrderedSet Ident}

/-- What a proposal for `t` leaves of the variable `n`, if `readers` are those that `t` had in the
beginning.  A variable that is neither may be marked or not and may be read by others than before;
that is all. -/
structure Retains (t : Ident) (readers : OrderedSet Ident) (n : Ident) (v v' : Variable) :
    Prop where
  /-- Only the proposed variable takes another value. -/
  value : (t == n) = false →
    v'.value = v.value ∧ v'.unconstrained = v.unconstrained ∧ v'.jacobian = v.jacobian
  /-- Only that variable and its readers are scored again, and lose where values come from. -/
  score : (t == n) = false → readers.contains n = false →
    v'.logProb = v.logProb ∧ v'.proposal = v.proposal
  /-- Only the readers get another distribution and read something else. -/
  law : readers.contains n = false →
    v'.distribution = v.distribution ∧ v'.parents = v.parents ∧ v'.isDiscrete = v.isDiscrete
  /-- All others are what they were, but for who reads them. -/
  rest : (t == n) = false → readers.contains n = false → v'.core = v.core
  /-- Transforms belong to a variable for good. -/
  transforms : v'.transforms = v.transforms

theorem retains_of_core (h : v'.core = v.core) : Retains t readers n v v' := by
  have hfield : ∀ {α : Type} (f : Variable → α), f v'.core = f v.core := fun f => by rw [h]
  exact ⟨fun _ => ⟨hfield (·.value), hfield (·.unconstrained), hfield (·.jacobian)⟩,
    fun _ _ => ⟨hfield (·.logProb), hfield (·.proposal)⟩,
    fun _ => ⟨hfield (·.distribution), hfield (·.parents), hfield (·.isDiscrete)⟩,
    fun _ _ => h, hfield (·.transforms)⟩

theorem Retains.trans (h : Retains t readers n v v') (h' : Retains t readers n v' v'') :
    Retains t readers n v v'' where
  value ht := by
    obtain ⟨hv, hu, hj⟩ := h.value ht
    obtain ⟨hv', hu', hj'⟩ := h'.value ht
    exact ⟨hv'.trans hv, hu'.trans hu, hj'.trans hj⟩
  score ht hn := by
    obtain ⟨hl, hp⟩ := h.score ht hn
    obtain ⟨hl', hp'⟩ := h'.score ht hn
    exact ⟨hl'.trans hl, hp'.trans hp⟩
  law hn := by
    obtain ⟨hd, hp, hi⟩ := h.law hn
    obtain ⟨hd', hp', hi'⟩ := h'.law hn
    exact ⟨hd'.trans hd, hp'.trans hp, hi'.trans hi⟩
  rest ht hn := (h'.rest ht hn).trans (h.rest ht hn)
  transforms := h'.transforms.trans h.transforms

/-- A new value is one for the proposed variable. -/
theorem retains_setValue (value : Tensor Float) (htn : (t == n) = true) :
    Retains t readers n v (v.setValue value) where
  value ht := absurd htn (Bool.eq_false_iff.1 ht)
  score ht := absurd htn (Bool.eq_false_iff.1 ht)
  law _ := ⟨rfl, rfl, rfl⟩
  rest ht := absurd htn (Bool.eq_false_iff.1 ht)
  transforms := rfl

/-- What a program comes to when it is executed again is put in place of a reader. -/
theorem retains_revised (d : Distribution) (parents : OrderedSet Ident)
    (hn : readers.contains n = true) : Retains t readers n v (revised v d parents) where
  value _ := ⟨rfl, rfl, rfl⟩
  score _ hno := absurd hn (Bool.eq_false_iff.1 hno)
  law hno := absurd hn (Bool.eq_false_iff.1 hno)
  rest _ hno := absurd hn (Bool.eq_false_iff.1 hno)
  transforms := rfl

/-! ## Along a proposal -/

/-- Every variable that was there is there, and is left alone as far as it is neither the proposed
variable nor a reader. -/
def Confined (t : Ident) (readers : OrderedSet Ident) (w w' : World) : Prop :=
  ∀ n v, w.lookup? n = some v → ∃ v', w'.lookup? n = some v' ∧ Retains t readers n v v'

theorem Confined.refl (w : World) : Confined t readers w w :=
  fun _ v hv => ⟨v, hv, retains_of_core rfl⟩

theorem Confined.trans (h : Confined t readers w w') (h' : Confined t readers w' w'') :
    Confined t readers w w'' := by
  intro n v hv
  obtain ⟨v₁, hv₁, hr₁⟩ := h n v hv
  obtain ⟨v₂, hv₂, hr₂⟩ := h' n v₁ hv₁
  exact ⟨v₂, hv₂, hr₁.trans hr₂⟩

/-- Whatever programs do to the variables that are there is within bounds. -/
theorem confined_of_moves (h : Moves r r') : Confined t readers r.world r'.world := by
  intro n v hv
  obtain ⟨v', hv', hc⟩ := (grows_of_moves h).exists_core hv
  exact ⟨v', hv', retains_of_core hc⟩

theorem confined_put (hv : w.lookup? n = some v)
    (h : ∀ k, (n == k) = true → Retains t readers k v v') :
    Confined t readers w (w.put n v') := by
  intro k u hu
  rw [lookup?_put]
  by_cases hnk : (n == k) = true
  · rw [← lookup?_congr w hnk, hv] at hu
    cases hu
    exact ⟨v', if_pos hnk, h k hnk⟩
  · exact ⟨u, (if_neg hnk).trans hu, retains_of_core rfl⟩

/-- **Every step of a proposal keeps within bounds.** -/
theorem follows_confined (m : Model) (t : Ident) (readers : OrderedSet Ident) :
    Follows m t readers fun r r' => Confined t readers r.world r'.world where
  refl r := Confined.refl r.world
  trans := Confined.trans
  execute depth n r := confined_of_moves (execute_proceeds m depth n r).1.1.moves
  detach c p r := confined_of_moves (sheds_detach c p r).moves
  stage hv := by
    rw [Run.world_recordPrior]
    exact confined_put hv fun _ _ => retains_of_core rfl
  move value hv := confined_put hv fun _ => retains_setValue value
  revise d parents hc hv := by
    refine confined_put hv fun k hck => retains_revised d parents ?_
    rwa [← OrderedSet.contains_congr readers hck]
  proposing r := Confined.refl r.world
  write _ r := Confined.refl r.world

theorem state_propose (m : Model) (w : World) (t : Ident) (value : Tensor Float) :
    (propose m w t value).state = ((proposal m t value).after { world := w }).world :=
  state_reply (proposal m t value) w

theorem confined_propose (m : Model) (w : World) (t : Ident) (value : Tensor Float) :
    Confined t (w.readersOf t) w (propose m w t value).state := by
  rw [state_propose]
  exact (follows_confined m t _).proposal (r := { world := w }) value

/-! ## Until changes are accepted or rejected -/

/-- Nothing but accepting and rejecting takes a variable away. -/
theorem contains_perform {op : Operation} (ha : op ≠ .accept) (hr : op ≠ .reject)
    (hn : w.contains n = true) : (perform m w op).state.contains n = true := by
  obtain ⟨v, hv⟩ := Option.isSome_iff_exists.1 hn
  apply Option.isSome_iff_exists.2
  cases op with
  | accept => exact absurd rfl ha
  | reject => exact absurd rfl hr
  | update k =>
    rw [state_perform_update]
    obtain ⟨v', hv', -⟩ :=
      (grows_of_moves (progress_visit m k { world := w }).moves).exists_core hv
    exact ⟨v', hv'⟩
  | propose t value =>
    obtain ⟨v', hv', -⟩ := confined_propose m w t value n v hv
    exact ⟨v', hv'⟩
  | observe | ask => exact ⟨v, hv⟩

theorem contains_foldl_perform {ops : List Operation}
    (hops : ∀ op ∈ ops, op ≠ .accept ∧ op ≠ .reject) (hn : w.contains n = true) :
    (ops.foldl (fun w op => (perform m w op).state) w).contains n = true := by
  induction ops generalizing w with
  | nil => exact hn
  | cons op ops ih =>
    obtain ⟨⟨ha, hr⟩, hops⟩ := List.forall_mem_cons.1 hops
    exact ih hops (contains_perform ha hr hn)

/-- **A proposal is local.**  For every model, world and value, and however the proposal ends:
a variable that was there is there afterwards; only the proposed one takes another value; only it
and the readers that it had are scored again and lose their cached proposals; only these readers
get another distribution or other parents; and of all the rest nothing changes but who reads them,
and marks.  No committed variable is touched, and no variable goes away before the changes are
accepted or rejected. -/
theorem propose_confined (m : Model) (w : World) (t : Ident) (value : Tensor Float) :
    let w' := (propose m w t value).state
    (∀ n v, w.lookup? n = some v →
        ∃ v', w'.lookup? n = some v' ∧ Retains t (w.readersOf t) n v v') ∧
      w'.committed = w.committed ∧
      ∀ ops : List Operation, (∀ op ∈ ops, op ≠ .accept ∧ op ≠ .reject) →
        ∀ n, w.contains n = true →
          (ops.foldl (fun w op => (perform m w op).state) w').contains n = true := by
  intro w'
  have haccept : Operation.propose t value ≠ .accept := nofun
  have hreject : Operation.propose t value ≠ .reject := nofun
  refine ⟨confined_propose m w t value, committed_perform haccept, ?_⟩
  intro ops hops n hn
  apply contains_foldl_perform hops
  exact contains_perform haccept hreject hn

/-- A proposal that fails half way, in a world where `root` has three readers and one of these is
read itself; that one stays during further calls, in which it is marked and revived. -/
theorem propose_confined_forked :
    let w' := (propose Forked.model Forked.before Forked.root Forked.pair).state
    let ops : List Operation := [.propose Forked.root (.scalar 1), .update ⟨"other", []⟩]
    (propose Forked.model Forked.before Forked.root Forked.pair).result.toOption.isNone = true ∧
      (∀ op ∈ ops, op ≠ .accept ∧ op ≠ .reject) ∧
      ∃ v v', Forked.before.lookup? Forked.shared = some v ∧
        w'.lookup? Forked.shared = some v' ∧
        Retains Forked.root (Forked.before.readersOf Forked.root) Forked.shared v v' ∧
        (ops.foldl (fun w op => (perform Forked.model w op).state) w').contains
          Forked.shared = true := by
  intro w' ops
  have hops : ∀ op ∈ ops, op ≠ .accept ∧ op ≠ .reject := by simp [ops]
  have hn : Forked.before.contains Forked.shared = true := by decide +kernel
  obtain ⟨v, hv⟩ := Option.isSome_iff_exists.1 hn
  obtain ⟨hlocal, -, hstays⟩ :=
    propose_confined Forked.model Forked.before Forked.root Forked.pair
  obtain ⟨v', hv', hretains⟩ := hlocal Forked.shared v hv
  exact ⟨by decide +kernel, hops, v, v', hv, hv', hretains, hstays ops hops Forked.shared hn⟩

end Stochastic.World
