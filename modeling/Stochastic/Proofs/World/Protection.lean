import Stochastic.Proofs.World.Locality
import Stochastic.Proofs.World.Orphans

/-!
# Protected variables

Variables that are observed or queried must not be deleted, and neither must the one whose value is
proposed.  What is observed must moreover have the value that was observed.

A variable comes to be marked at one place only, at the end of a chain of deletions, and there it
is asked whether it is protected; so it does not matter how far a chain gets, or how many proposals
with their own targets are staged one after the other.  A variable takes a value when it is
created, which heeds observations, and as the target of a proposal, which is refused if it is
observed.  All this is as true of calls that fail half way as of those that succeed.

## Main definitions

* `World.Run.Safe` — what is observed has its value, and nothing protected is or was marked.
* `World.Guarded` — the same between calls, for what is staged and for what is committed.
* `World.follow` — one call after the other, each with a model of its own.
* `World.Operation.Marks` — what a call may do to the marks.

## Main results

* `World.Run.Safe.of_moves`, `World.follows_safe` — programs and proposals are safe at every step.
* `World.guarded_follow` — a world is guarded after any calls.
* `World.protected_of_follow` — variables that are observed, queried or proposed are safe.
-/

namespace Stochastic.World

variable {w w' : World} {r r' : Run} {n k t : Ident} {v : Variable} {m : Model} {op : Operation}
  {value : Tensor Float}

/-! ## Steps -/

/-- Every observed variable that is there has its observed value; no protected variable is marked,
and none is among those that the proposal has marked so far. -/
structure Run.Safe (r : Run) : Prop where
  observed : ∀ n x v, r.world.observations.get? n = some x → r.world.lookup? n = some v →
    v.value = x
  unmarked : ∀ n, r.isProtected n = true → r.world.overlay.isMarked n = false
  unlisted : ∀ l ∈ r.ledger, ∀ n ∈ l.marked, r.isProtected n = false

theorem observed_of_move (h : Move r r') (hs : r.Safe) {x : Tensor Float}
    (hx : r'.world.observations.get? k = some x) (hv : r'.world.lookup? k = some v) :
    v.value = x := by
  rw [(grows_of_move h).observations] at hx
  cases h with
  | @relist n u readers found =>
    rw [lookup?_relist] at hv
    by_cases hnk : (n == k) = true
    · rw [if_pos hnk] at hv
      cases hv
      exact hs.observed k x u hx (lookup?_congr _ hnk ▸ found)
    · rw [if_neg hnk] at hv
      exact hs.observed k x v hx hv
  | mark =>
    rw [Run.world_marking, lookup?_marking] at hv
    exact hs.observed k x v hx hv
  | @create n d value parents absent observed =>
    rw [Run.world_creating, lookup?_put] at hv
    by_cases hnk : (n == k) = true
    · rw [if_pos hnk] at hv
      cases hv
      exact observed x (Table.get?_congr _ hnk ▸ hx)
    · rw [if_neg hnk] at hv
      exact hs.observed k x v hx hv
  | unmark | draw | write | frames => exact hs.observed k x v hx hv

theorem unmarked_of_move (h : Move r r') (hs : r.Safe) (hk : r.isProtected k = true) :
    r'.world.overlay.isMarked k = false := by
  have hunmarked := hs.unmarked k hk
  cases h with
  | relist => rwa [isMarked_relist]
  | @mark n _ _ _ unprotected =>
    -- what is marked is not protected, so it is another variable
    rw [Run.world_marking, isMarked_marking, hunmarked, Bool.false_or]
    refine Bool.eq_false_iff.2 fun hkn => ?_
    rw [isProtected_beq r hkn, unprotected] at hk
    cases hk
  | unmark n =>
    change (r.world.unmarking n).overlay.isMarked k = false
    rw [isMarked_unmarking, hunmarked, Bool.false_and]
  | create | draw | write | frames => exact hunmarked

/-- What the ledger lists as marked after a move was listed before, or is not protected. -/
theorem unlisted_of_move (h : Move r r') (hs : r.Safe) {l : Ledger} (hl : l ∈ r'.ledger)
    (hk : k ∈ l.marked) : r.isProtected k = false := by
  cases h with
  | relist readers found =>
    rw [Run.relist, Run.ledger_replace] at hl
    obtain ⟨l₀, hl₀, rfl⟩ := Option.mem_map.1 hl
    exact hs.unlisted l₀ hl₀ k (by rwa [marked_note] at hk)
  | mark found _ unprotected =>
    rw [Run.marking, Run.ledger_mapLedger, Run.ledger_mapOverlay,
      Run.ledger_recordPrior found] at hl
    obtain ⟨l₁, hl₁, rfl⟩ := Option.mem_map.1 hl
    obtain ⟨l₀, hl₀, rfl⟩ := Option.mem_map.1 hl₁
    rcases List.mem_append.1 hk with hk | hk
    · exact hs.unlisted l₀ hl₀ k (by rwa [marked_note] at hk)
    · obtain rfl := List.mem_singleton.1 hk
      exact unprotected
  | create =>
    rw [Run.creating, Run.ledger_mapLedger, Run.ledger_mapOverlay] at hl
    obtain ⟨l₀, hl₀, rfl⟩ := Option.mem_map.1 hl
    exact hs.unlisted l₀ hl₀ k hk
  | unmark | draw | write | frames => exact hs.unlisted l hl k hk

theorem Run.Safe.of_move (hs : r.Safe) (h : Move r r') : r'.Safe where
  observed _ _ _ hx hv := observed_of_move h hs hx hv
  unmarked n hn := unmarked_of_move h hs (isProtected_of_moves h.moves n ▸ hn)
  unlisted _ hl n hn := (isProtected_of_moves h.moves n).trans (unlisted_of_move h hs hl hn)

/-- **Whatever programs do is safe.** -/
theorem Run.Safe.of_moves (hs : r.Safe) (h : Moves r r') : r'.Safe := by
  induction h with
  | refl => exact hs
  | tail _ hmove ih => exact ih.of_move hmove

/-! ## Proposals -/

/-- A variable may be replaced by one that has its observed value, if there is one. -/
theorem Run.Safe.put (hs : r.Safe)
    (hv : ∀ x, r.world.observations.get? n = some x → v.value = x) :
    (r.mapOverlay (·.put n v)).Safe where
  observed k x u hx hu := by
    change (r.world.put n v).lookup? k = some u at hu
    rw [lookup?_put] at hu
    by_cases hnk : (n == k) = true
    · rw [if_pos hnk] at hu
      cases hu
      exact hv x (Table.get?_congr _ hnk ▸ hx)
    · rw [if_neg hnk] at hu
      exact hs.observed k x u hx hu
  unmarked := hs.unmarked
  unlisted := hs.unlisted

theorem target_recordPrior (hv : r.world.lookup? n = some v) :
    (r.recordPrior n).ledger.map Ledger.target = r.ledger.map Ledger.target := by
  rw [Run.ledger_recordPrior hv]
  cases r.ledger <;> simp

theorem Run.Safe.recordPrior (hs : r.Safe) (hv : r.world.lookup? n = some v) :
    (r.recordPrior n).Safe := by
  have hprotected : ∀ k, (r.recordPrior n).isProtected k = r.isProtected k := by
    refine isProtected_congr ?_ (target_recordPrior hv)
    rw [Run.world_recordPrior]
    exact Grows.refl _
  refine ⟨fun k x u hx hu => ?_, fun k hk => ?_, fun l hl k hk => ?_⟩
  · rw [Run.world_recordPrior] at hx hu
    exact hs.observed k x u hx hu
  · rw [Run.world_recordPrior]
    exact hs.unmarked k (hprotected k ▸ hk)
  · rw [Run.ledger_recordPrior hv] at hl
    obtain ⟨l₀, hl₀, rfl⟩ := Option.mem_map.1 hl
    rw [hprotected k]
    exact hs.unlisted l₀ hl₀ k (by rwa [marked_note] at hk)

/-- A proposal for `t` is being made, which is not observed. -/
structure Run.Proposes (r : Run) (t : Ident) : Prop where
  target : r.ledger.map Ledger.target = some t
  unobserved : r.world.isObserved t = false

theorem Run.Proposes.of_moves (hp : r.Proposes t) (h : Moves r r') : r'.Proposes t := by
  refine ⟨?_, ?_⟩
  · induction h with
    | refl => exact hp.target
    | tail _ hmove ih => rw [target_of_move hmove, ih]
  · rw [isObserved, (grows_of_moves h).observations]
    exact hp.unobserved

theorem Run.isProtected_of_proposes (hp : r.Proposes t) : r.isProtected t = true := by
  obtain ⟨l, hl, htarget⟩ := Option.map_eq_some_iff.1 hp.target
  rw [Run.isProtected, hl, Option.any_some, htarget, BEq.refl, Bool.or_true]

/-- **Every step of a proposal is safe**, once the proposal has begun. -/
theorem follows_safe (m : Model) (t : Ident) (readers : OrderedSet Ident) :
    Follows m t readers fun a b => a.Proposes t ∧ a.Safe → b.Proposes t ∧ b.Safe where
  refl _ h := h
  trans hab hbc ha := hbc (hab ha)
  execute depth n r h :=
    have hmoves := (execute_proceeds m depth n r).1.1.moves
    ⟨h.1.of_moves hmoves, h.2.of_moves hmoves⟩
  detach c p r h :=
    have hmoves := (sheds_detach c p r).moves
    ⟨h.1.of_moves hmoves, h.2.of_moves hmoves⟩
  stage {n v r} hv h := by
    have hs : (r.mapOverlay (·.put n v)).Safe := h.2.put fun x hx => h.2.observed n x v hx hv
    have hfound : (r.mapOverlay (·.put n v)).world.lookup? n = some v := lookup?_put_self ..
    refine ⟨⟨(target_recordPrior hfound).trans h.1.target, ?_⟩, hs.recordPrior hfound⟩
    rw [Run.world_recordPrior]
    exact h.1.unobserved
  move value _ h := by
    -- the one place where a variable that is there takes another value
    refine ⟨⟨h.1.target, h.1.unobserved⟩, h.2.put fun x hx => ?_⟩
    have ht := h.1.unobserved
    rw [isObserved, Table.contains, hx] at ht
    cases ht
  revise {_ v _} _ _ _ hv h :=
    ⟨⟨h.1.target, h.1.unobserved⟩, h.2.put fun x hx => h.2.observed _ x v hx hv⟩
  proposing r h := by
    have hprotected : ∀ k, (r.proposing t).isProtected k = r.isProtected k :=
      isProtected_congr (Grows.refl _) h.1.target.symm
    refine ⟨⟨rfl, h.1.unobserved⟩, h.2.observed, fun k hk => ?_, fun l hl k hk => ?_⟩
    · exact h.2.unmarked k (hprotected k ▸ hk)
    · cases hl
      cases hk
  write _ _ h := ⟨⟨h.1.target, h.1.unobserved⟩, h.2.observed, h.2.unmarked, h.2.unlisted⟩

/-- A proposal does nothing, or its variable is neither marked nor observed and it goes on as if
it had begun. -/
theorem proposal_cases (m : Model) (t : Ident) (value : Tensor Float) (r : Run) :
    (proposal m t value).after r = r ∨
      r.world.overlay.isMarked t = false ∧ r.world.isObserved t = false ∧
        (proposal m t value).after r = (proposal m t value).after (r.proposing t) := by
  by_cases hm : r.world.overlay.isMarked t = true
  · refine .inl ?_
    change Step.final ((ite (r.world.overlay.isMarked t = true) _ _ : Step Proposal) r) = r
    rw [if_pos hm]
    rfl
  by_cases ho : r.world.isObserved t = true
  · refine .inl ?_
    change Step.final ((ite (r.world.overlay.isMarked t = true) _ _ : Step Proposal) r) = r
    rw [if_neg hm]
    rw [if_pos ho]
    rfl
  -- the first thing that is done then is to begin the ledger
  refine .inr ⟨Bool.eq_false_iff.2 hm, Bool.eq_false_iff.2 ho, congrArg Step.final ?_⟩
  change (ite (r.world.overlay.isMarked t = true) _ _ : Step Proposal) r =
    (ite (r.world.overlay.isMarked t = true) _ _ : Step Proposal) (r.proposing t)
  rw [if_neg hm, if_neg hm]
  change (ite (r.world.isObserved t = true) _ _ : Step Proposal) r =
    (ite (r.world.isObserved t = true) _ _ : Step Proposal) (r.proposing t)
  rw [if_neg ho]
  rfl

/-- At the beginning of a proposal for a variable that is not marked. -/
theorem Run.Safe.proposing (hs : r.Safe) (hl : r.ledger = none)
    (ht : r.world.overlay.isMarked t = false) : (r.proposing t).Safe where
  observed := hs.observed
  unmarked k hk := by
    simp only [Run.isProtected, Run.proposing, Option.any_some, Bool.or_eq_true] at hk
    rcases hk with hk | hk
    · refine hs.unmarked k ?_
      rw [Run.isProtected, hl]
      simpa using hk
    · rw [← isMarked_congr _ hk]
      exact ht
  unlisted l hl k hk := by
    cases hl
    cases hk

/-- **A proposal is safe**, however it ends, and protects its own variable if it does anything. -/
theorem safe_proposal (m : Model) (t : Ident) (value : Tensor Float) (hs : r.Safe)
    (hl : r.ledger = none) :
    ((proposal m t value).after r).Safe ∧ ((proposal m t value).after r = r ∨
      ((proposal m t value).after r).Proposes t) := by
  rcases proposal_cases m t value r with hsame | ⟨hm, ho, hsame⟩
  · rw [hsame]
    exact ⟨hs, .inl rfl⟩
  · rw [hsame]
    obtain ⟨hp, hs⟩ := (follows_safe m t _).proposal (r := r.proposing t) value
      ⟨⟨rfl, ho⟩, hs.proposing hl hm⟩
    exact ⟨hs, .inr hp⟩

/-! ## Calls -/

/-- Between calls only what is observed or queried is protected. -/
theorem Run.Safe.call (hs : r.Safe) : Run.Safe { world := r.world } where
  observed := hs.observed
  unmarked n hn := by
    refine hs.unmarked n ?_
    simp only [Run.isProtected, Option.any_none, Bool.or_false] at hn
    rw [Run.isProtected, hn, Bool.true_or]
  unlisted l hl := by cases hl

/-- A world with given observations and queries that is safe, and would be so if staged changes
were rejected. -/
structure Guarded (observations : Table Ident (Tensor Float)) (queries : OrderedSet Ident)
    (w : World) : Prop where
  observations_eq : w.observations = observations
  queries_eq : w.queries = queries
  staged : Run.Safe { world := w }
  rejected : Run.Safe { world := w.reject.state }

variable {observations : Table Ident (Tensor Float)} {queries : OrderedSet Ident}

/-- A new world, with nothing in it. -/
theorem guarded_new (config : Config) (observations : List (Ident × Tensor Float))
    (queries : List Ident) : Guarded (.ofList observations) (.ofList queries)
      (((World.new config).observe observations).state.ask queries) := by
  have hs : Run.Safe { world := ((World.new config).observe observations).state.ask queries } := by
    refine ⟨fun n x v _ hv => ?_, fun _ _ => rfl, fun l hl => ?_⟩
    · cases hv
    · cases hl
  exact ⟨rfl, rfl, hs, hs⟩

/-- Rejecting leads to the same variables as long as these are committed. -/
theorem Guarded.reject (h : Guarded observations queries w) (hc : w'.committed = w.committed)
    (ho : w'.observations = w.observations) : Run.Safe { world := w'.reject.state } where
  observed n x v hx hv := by
    change w'.observations.get? n = some x at hx
    change w'.committed.get? n = some v at hv
    rw [ho] at hx
    rw [hc] at hv
    exact h.rejected.observed n x v hx hv
  unmarked _ _ := rfl
  unlisted l hl := by cases hl

/-- Between calls, what is observed or queried is not marked. -/
theorem Guarded.isMarked_eq_false (h : Guarded observations queries w)
    (hn : (observations.contains n || queries.contains n) = true) :
    w.overlay.isMarked n = false := by
  refine h.staged.unmarked n ?_
  rw [Run.isProtected, isObserved, h.observations_eq, h.queries_eq, hn, Bool.true_or]

/-- The calls that make changes and settle them. -/
def Operation.isChange : Operation → Bool
  | .update _ | .propose .. | .accept | .reject => true
  | .observe _ | .ask _ => false

theorem tracks_requests (m : Model) : Tracks m fun r r' =>
    r'.world.observations = r.world.observations ∧ r'.world.queries = r.world.queries where
  refl _ := ⟨rfl, rfl⟩
  trans h h' := ⟨h'.1.trans h.1, h'.2.trans h.2⟩
  execute depth n r :=
    have hgrows := grows_of_moves (execute_proceeds m depth n r).1.1.moves
    ⟨hgrows.observations, hgrows.queries⟩
  detach c p r :=
    have hgrows := grows_of_moves (sheds_detach c p r).moves
    ⟨hgrows.observations, hgrows.queries⟩
  put _ _ _ := ⟨rfl, rfl⟩
  recordPrior n r := by
    rw [Run.world_recordPrior]
    exact ⟨rfl, rfl⟩
  proposing _ _ := ⟨rfl, rfl⟩
  write _ _ := ⟨rfl, rfl⟩

/-- Calls that make changes leave alone what is observed and what is queried. -/
theorem requests_perform (m : Model) (w : World) (hop : op.isChange = true) :
    (perform m w op).state.observations = w.observations ∧
      (perform m w op).state.queries = w.queries := by
  cases op with
  | update n =>
    have hgrows := grows_of_moves (progress_visit m n { world := w }).moves
    rw [state_perform_update]
    exact ⟨hgrows.observations, hgrows.queries⟩
  | propose n value =>
    rw [state_perform_propose]
    exact (tracks_requests m).proposal n value { world := w }
  | accept | reject => exact ⟨rfl, rfl⟩
  | observe | ask => cases hop

/-- **What is guarded stays guarded**, whatever changes are made, and however calls end. -/
theorem guarded_perform (m : Model) (h : Guarded observations queries w)
    (hop : op.isChange = true) : Guarded observations queries (perform m w op).state := by
  obtain ⟨ho, hq⟩ := requests_perform m w hop
  suffices hsafe : Run.Safe { world := (perform m w op).state } ∧
      Run.Safe { world := (perform m w op).state.reject.state } from
    ⟨ho.trans h.observations_eq, hq.trans h.queries_eq, hsafe.1, hsafe.2⟩
  cases op with
  | update n =>
    refine ⟨?_, h.reject (committed_perform nofun) ho⟩
    rw [state_perform_update]
    exact (h.staged.of_moves (progress_visit m n { world := w }).moves).call
  | propose n value =>
    refine ⟨?_, h.reject (committed_perform nofun) ho⟩
    rw [state_perform_propose]
    exact (safe_proposal m n value h.staged rfl).1.call
  | accept =>
    have hs : Run.Safe { world := w.accept.state } := by
      refine ⟨fun n x v hx hv => ?_, fun _ _ => rfl, fun l hl => ?_⟩
      · rw [lookup?_accept] at hv
        exact h.staged.observed n x v hx (live?_eq_some.1 hv).2
      · cases hl
    exact ⟨hs, hs⟩
  | reject => exact ⟨h.rejected, h.rejected⟩
  | observe | ask => cases hop

/-- One call after the other, each with a model of its own. -/
def follow (w : World) (calls : List (Model × Operation)) : World :=
  calls.foldl (fun w call => (perform call.1 w call.2).state) w

/-- What calls that make changes keep, one by one, they keep together. -/
theorem follow_induction {P : World → Prop} {calls : List (Model × Operation)}
    (hcalls : ∀ call ∈ calls, call.2.isChange = true)
    (hstep : ∀ (m : Model) (op : Operation) (w : World), op.isChange = true → P w →
      P (perform m w op).state) (hw : P w) : P (w.follow calls) := by
  induction calls generalizing w with
  | nil => exact hw
  | cons call calls ih =>
    obtain ⟨hcall, hcalls⟩ := List.forall_mem_cons.1 hcalls
    exact ih hcalls (hstep call.1 call.2 w hcall hw)

theorem guarded_follow {calls : List (Model × Operation)}
    (hcalls : ∀ call ∈ calls, call.2.isChange = true) (h : Guarded observations queries w) :
    Guarded observations queries (w.follow calls) :=
  follow_induction hcalls (fun m _ _ hop h => guarded_perform m h hop) h

/-- What is observed or queried stays committed. -/
theorem committed_perform_fixed (h : Guarded observations queries w)
    (hn : (observations.contains n || queries.contains n) = true)
    (hc : w.committed.contains n = true) :
    (perform m w op).state.committed.contains n = true := by
  by_cases hop : op = .accept
  · subst hop
    obtain ⟨v, hv⟩ : ∃ v, w.lookup? n = some v := by
      unfold lookup?
      cases w.overlay.staged.get? n with
      | some u => exact ⟨u, rfl⟩
      | none => exact Option.isSome_iff_exists.1 hc
    -- it is committed in the live view, from which only marked variables are missing
    have hlive : w.live? n = some v := live?_eq_some.2 ⟨h.isMarked_eq_false hn, hv⟩
    rw [← lookup?_accept] at hlive
    exact Option.isSome_iff_exists.2 ⟨v, hlive⟩
  · rwa [committed_perform hop]

/-- A proposal marks neither what is observed or queried nor its own variable, at any time. -/
theorem Guarded.unlisted_of_proposal (h : Guarded observations queries w) (m : Model) (t : Ident)
    (value : Tensor Float) {l : Ledger}
    (hl : l ∈ ((proposal m t value).after { world := w }).ledger) (hn : n ∈ l.marked) :
    (observations.contains n || queries.contains n) = false ∧ (t == n) = false := by
  obtain ⟨hs, hsame | hp⟩ := safe_proposal m t value h.staged rfl
  · rw [hsame] at hl
    cases hl
  · have hunprotected := hs.unlisted l hl n hn
    obtain ⟨ho, hq⟩ := (tracks_requests m).proposal t value { world := w }
    rw [Run.isProtected, isObserved, ho, hq, Bool.or_eq_false_iff, Option.mem_def.1 hl,
      Option.any_some] at hunprotected
    obtain ⟨l', hl', htarget⟩ := Option.map_eq_some_iff.1 hp.target
    cases hl.symm.trans hl'
    rw [htarget] at hunprotected
    rwa [← h.observations_eq, ← h.queries_eq]

/-- A proposal does not leave its own variable marked. -/
theorem Guarded.isMarked_propose (h : Guarded observations queries w) (m : Model)
    (value : Tensor Float) (ht : w.overlay.isMarked t = false) :
    (propose m w t value).state.overlay.isMarked t = false := by
  rw [state_propose]
  obtain ⟨hs, hsame | hp⟩ := safe_proposal m t value h.staged rfl
  · rw [hsame]
    exact ht
  · exact hs.unmarked t (Run.isProtected_of_proposes hp)

/-- What a call may do to the marks: a visit may take some away, a proposal may do anything,
accepting and rejecting take all of them away, and the other calls do nothing. -/
def Operation.Marks (before after : OrderedSet Ident) : Operation → Prop
  | .update _ => ∀ n, after.contains n = true → before.contains n = true
  | .propose .. => True
  | .accept | .reject => after = .empty
  | .observe _ | .ask _ => after = before

theorem marks_perform (m : Model) (w : World) (op : Operation) :
    op.Marks w.overlay.marked (perform m w op).state.overlay.marked := by
  cases op with
  | update n =>
    rw [state_perform_update]
    exact (progress_visit m n { world := w }).marks
  | propose => trivial
  | accept | reject | observe | ask => rfl

/-- **Variables that are observed, queried or proposed are safe.**  Begin with a new world, set
observations and queries, and then make and settle changes in any way and with any models, whether
calls succeed or fail.  An observed variable that is live or committed has its observed value.  A
variable that is observed or queried is not marked, and once it is committed it stays committed.
A proposal marks neither such a variable nor its own, not even for a while.  Marks are made by
proposals only, visits take some away, accepting and rejecting take all away, and nothing else
touches them. -/
theorem protected_of_follow (config : Config) (observations : List (Ident × Tensor Float))
    (queries : List Ident) (calls : List (Model × Operation))
    (hcalls : ∀ call ∈ calls, call.2.isChange = true) :
    let w := (((World.new config).observe observations).state.ask queries).follow calls
    let isFixed n :=
      (Table.ofList observations).contains n || (OrderedSet.ofList queries).contains n
    (∀ n x v, (Table.ofList observations).get? n = some x →
        w.live? n = some v ∨ w.committed.get? n = some v → v.value = x) ∧
      (∀ n, isFixed n = true → w.overlay.isMarked n = false ∧
        ∀ later : List (Model × Operation), (∀ call ∈ later, call.2.isChange = true) →
          w.committed.contains n = true → (w.follow later).committed.contains n = true) ∧
      (∀ m t value, (∀ l ∈ ((proposal m t value).after { world := w }).ledger, ∀ n ∈ l.marked,
          isFixed n = false ∧ (t == n) = false) ∧
        (w.overlay.isMarked t = false →
          (propose m w t value).state.overlay.isMarked t = false)) ∧
      (∀ m (op : Operation), op.Marks w.overlay.marked (perform m w op).state.overlay.marked) ∧
      ∀ n v f, (w.commit n v).overlay = w.overlay ∧ (w.remove n).overlay = w.overlay ∧
        (w.amend n f).overlay = w.overlay := by
  intro w isFixed
  have h : Guarded (.ofList observations) (.ofList queries) w :=
    guarded_follow hcalls (guarded_new config observations queries)
  refine ⟨?_, fun n hn => ⟨h.isMarked_eq_false hn, fun later hlater hc => ?_⟩,
    fun m t value => ⟨fun l hl n => h.unlisted_of_proposal m t value hl,
      h.isMarked_propose m value⟩,
    fun m op => marks_perform m w op, fun _ _ _ => ⟨rfl, rfl, rfl⟩⟩
  · rintro n x v hx (hv | hv)
    · exact h.staged.observed n x v (h.observations_eq ▸ hx) (live?_eq_some.1 hv).2
    · exact h.rejected.observed n x v (h.observations_eq ▸ hx) hv
  · let P : World → Prop := fun w =>
      Guarded (.ofList observations) (.ofList queries) w ∧ w.committed.contains n = true
    have hkept : P (w.follow later) := follow_induction hlater
      (fun m _ _ hop h => ⟨guarded_perform m h.1 hop, committed_perform_fixed h.1 hn h.2⟩) ⟨h, hc⟩
    exact hkept.2

namespace Forked

/-- Calls after which nothing reads `shared` any more. -/
def parting : List (Model × Operation) :=
  [.update early, .accept, .propose root (.scalar 1)].map fun op => (model, op)

/-- The world after these calls, if `shared` was observed. -/
def bereft : World :=
  (((World.new {}).observe [(shared, .scalar 0.75)]).state.ask []).follow parting

end Forked

/-- An observed variable that has lost its last reader. -/
theorem protected_of_follow_forked :
    (∀ call ∈ Forked.parting, call.2.isChange = true) ∧ Forked.bereft.Unread Forked.shared ∧
      Forked.bereft.committed.contains Forked.shared = true ∧
      (∃ v, Forked.bereft.live? Forked.shared = some v ∧ v.value = .scalar 0.75) ∧
      Forked.bereft.overlay.isMarked Forked.shared = false ∧
      (Forked.bereft.follow [(Forked.model, .accept)]).committed.contains Forked.shared = true := by
  have hcalls : ∀ call ∈ Forked.parting, call.2.isChange = true := by
    simp [Forked.parting, Operation.isChange]
  obtain ⟨v, hv, hnil⟩ : Forked.bereft.Unread Forked.shared := by decide +kernel
  have hcommitted : Forked.bereft.committed.contains Forked.shared = true := by decide +kernel
  obtain ⟨hvalue, hfixed, -⟩ :=
    protected_of_follow {} [(Forked.shared, .scalar 0.75)] [] Forked.parting hcalls
  obtain ⟨hunmarked, hstays⟩ := hfixed Forked.shared (by decide +kernel)
  have hx := hvalue Forked.shared (.scalar 0.75) v rfl (.inl hv)
  exact ⟨hcalls, ⟨v, hv, hnil⟩, hcommitted, ⟨v, hv, hx⟩, hunmarked,
    hstays [(Forked.model, .accept)] (by simp [Operation.isChange]) hcommitted⟩

end Stochastic.World
