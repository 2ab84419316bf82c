import Stochastic.Proofs.World.Symmetry

/-!
# Staged changes are isolated

Until staged changes are accepted, nothing that is done to a world touches the committed
variables.  Programs call each other to any depth and may fail at any read, after variables have
been created, marked or revived; whatever they have done by then is staged.  So a world is as it
was once the changes are rejected.

A call from outside begins with an empty stack and without a ledger.  That is no assumption: a
run that goes from call to call finds its stack empty after each of them, because every program
that begins also ends, and the ledger of a proposal is gone when the proposal is over.

## Main definitions

* `World.serve` — a run that goes from call to call.

## Main results

* `World.frames_proposal` — a proposal leaves the stack as it was, however it ends.
* `World.serve_spec` — a run that goes on makes the same of a world as a new one.
* `World.isolated_of_serve` — until changes are accepted, the committed variables stay, and
  rejecting the changes leads back to them.
-/

namespace Stochastic.World

variable {w : World} {r r' : Run} {n : Ident} {m : Model} {op : Operation}

/-! ## The stack and the ledger -/

theorem tracks_sameFrames (m : Model) : Tracks m fun r r' => r'.frames = r.frames where
  refl _ := rfl
  trans h h' := h'.trans h
  execute depth n r := (execute_proceeds m depth n r).1.2
  detach c p r := (sheds_detach c p r).frames
  put _ _ _ := rfl
  recordPrior n r := Run.frames_recordPrior r n
  proposing _ _ := rfl
  write _ _ := rfl

/-- A proposal leaves the stack as it was, however it ends. -/
theorem frames_proposal (m : Model) (n : Ident) (value : Tensor Float) (r : Run) :
    ((proposal m n value).after r).frames = r.frames :=
  (tracks_sameFrames m).proposal n value r

/-- No move begins a ledger. -/
theorem ledger_eq_none_of_move (h : Move r r') (hl : r.ledger = none) : r'.ledger = none := by
  cases h with
  | relist readers found => rw [Run.relist, Run.ledger_replace, hl, Option.map_none]
  | mark found =>
    rw [Run.marking, Run.ledger_mapLedger, Run.ledger_mapOverlay, Run.ledger_recordPrior found, hl]
    rfl
  | create => rw [Run.creating, Run.ledger_mapLedger, Run.ledger_mapOverlay, hl, Option.map_none]
  | unmark | draw | write | frames => exact hl

theorem ledger_eq_none_of_moves (h : Moves r r') (hl : r.ledger = none) : r'.ledger = none := by
  induction h with
  | refl => exact hl
  | tail _ hmove ih => exact ledger_eq_none_of_move hmove ih

/-! ## From call to call -/

/-- A run that goes from call to call: the log is begun anew, and the ledger of a proposal is
dropped when the proposal is over. -/
def serve (m : Model) (r : Run) (op : Operation) : Run :=
  let r := { r with log := [] }
  match op with
  | .update n => (visit m n).after r
  | .propose n value => { (proposal m n value).after r with ledger := none }
  | .accept => { r with world := r.world.accept.state }
  | .reject => { r with world := r.world.reject.state }
  | .observe observations => { r with world := (r.world.observe observations).state }
  | .ask queries => { r with world := r.world.ask queries }

theorem state_reply {α : Type} (step : Step α) (w : World) :
    (step.reply w).state = (step.after { world := w }).world := by
  unfold Step.reply Step.after
  cases step { world := w } <;> rfl

theorem state_perform_update : (perform m w (.update n)).state =
    ((visit m n).after { world := w }).world :=
  state_reply (visit m n) w

theorem state_perform_propose {value : Tensor Float} : (perform m w (.propose n value)).state =
    ((proposal m n value).after { world := w }).world :=
  state_reply (proposal m n value) w

/-- A run that goes on makes the same of its world as a new one, and again leaves the stack empty
and no ledger. -/
theorem serve_spec (m : Model) (op : Operation) (hf : r.frames = []) (hl : r.ledger = none) :
    (serve m r op).world = (perform m r.world op).state ∧ (serve m r op).frames = [] ∧
      (serve m r op).ledger = none := by
  -- all there is to a run between two calls is its world
  have hr : { r with log := [] } = ({ world := r.world } : Run) := by
    cases r
    cases hf
    cases hl
    rfl
  unfold serve
  rw [hr]
  cases op with
  | update n =>
    rw [state_perform_update]
    exact ⟨rfl, frames_visit rfl, ledger_eq_none_of_moves (progress_visit m n _).moves rfl⟩
  | propose n value =>
    rw [state_perform_propose]
    exact ⟨rfl, frames_proposal m n value _, rfl⟩
  | accept | reject | observe | ask => exact ⟨rfl, rfl, rfl⟩

/-- Only accepting the staged changes touches what is committed. -/
theorem committed_perform (h : op ≠ .accept) :
    (perform m w op).state.committed = w.committed := by
  cases op with
  | accept => exact absurd rfl h
  | update n =>
    rw [state_perform_update]
    exact sameBase_visit m n _
  | propose n value =>
    rw [state_perform_propose]
    exact sameBase_proposal m n value _
  | reject | observe | ask => rfl

/-! ## Rejecting -/

theorem lookup?_reject (w : World) (n : Ident) :
    w.reject.state.lookup? n = w.committed.get? n := rfl

/-- Without staged changes the live view is what is committed. -/
theorem liveLogProbs_of_empty (h : w.overlay = .empty) :
    w.liveLogProbs = w.committed.entries.map fun e => e.2.logProb := by
  unfold liveLogProbs
  rw [h]
  have hall : ∀ es : List (Ident × Variable), (es.filter fun _ => true) = es :=
    fun es => List.filter_eq_self.2 fun _ _ => rfl
  exact congrArg (List.map _) ((hall _).trans (hall _))

theorem joint_of_empty (h : w.overlay = .empty) :
    w.joint = Arithmetic.float.total (w.committed.entries.map fun e => e.2.logProb) := by
  rw [joint, jointIn, liveLogProbs_of_empty h, List.map_id]

/-- What holds after each call holds after all of them. -/
theorem foldl_serve {ops : List Operation} (hops : ∀ op ∈ ops, op ≠ .accept)
    (hf : r.frames = []) (hl : r.ledger = none) :
    (ops.foldl (serve m) r).world = ops.foldl (fun w op => (perform m w op).state) r.world ∧
      (ops.foldl (serve m) r).frames = [] ∧ (ops.foldl (serve m) r).ledger = none ∧
      (ops.foldl (serve m) r).world.committed = r.world.committed := by
  induction ops generalizing r with
  | nil => exact ⟨rfl, hf, hl, rfl⟩
  | cons op ops ih =>
    obtain ⟨hop, hops⟩ := List.forall_mem_cons.1 hops
    obtain ⟨hw, hf', hl'⟩ := serve_spec m op hf hl
    obtain ⟨hworld, hframes, hledger, hcommitted⟩ := ih hops hf' hl'
    rw [List.foldl_cons, List.foldl_cons]
    rw [hw] at hworld hcommitted
    exact ⟨hworld, hframes, hledger, hcommitted.trans (committed_perform hop)⟩

/-- **Staged changes are isolated.**  Whatever is done to a world without accepting changes, and
whether the calls succeed or fail: after each call the stack is empty, there is no ledger, and
the same variables are committed.  When the changes are rejected, variables are found and the
joint log-probability is as it comes from the committed variables alone; so it is as in the
beginning, if there were no changes then. -/
theorem isolated_of_serve (m : Model) (w : World) (ops : List Operation)
    (hops : ∀ op ∈ ops, op ≠ .accept) :
    let r := ops.foldl (serve m) { world := w }
    r.world = ops.foldl (fun w op => (perform m w op).state) w ∧ r.frames = [] ∧
      r.ledger = none ∧ r.world.committed = w.committed ∧
      (∀ n, r.world.reject.state.lookup? n = w.committed.get? n) ∧
      r.world.reject.state.joint =
        Arithmetic.float.total (w.committed.entries.map fun e => e.2.logProb) ∧
      (w.overlay = .empty → (∀ n, r.world.reject.state.lookup? n = w.lookup? n) ∧
        r.world.reject.state.joint = w.joint) := by
  intro r
  obtain ⟨hworld, hframes, hledger, hcommitted⟩ :
      r.world = ops.foldl (fun w op => (perform m w op).state) w ∧ r.frames = [] ∧
        r.ledger = none ∧ r.world.committed = w.committed := foldl_serve hops rfl rfl
  have hlookup : ∀ n, r.world.reject.state.lookup? n = w.committed.get? n := by
    intro n
    rw [lookup?_reject, hcommitted]
  have hjoint : r.world.reject.state.joint =
      Arithmetic.float.total (w.committed.entries.map fun e => e.2.logProb) := by
    rw [joint_of_empty rfl]
    exact congrArg (fun t : Table Ident Variable => Arithmetic.float.total (t.entries.map _))
      hcommitted
  refine ⟨hworld, hframes, hledger, hcommitted, hlookup, hjoint, ?_⟩
  intro hempty
  refine ⟨fun n => ?_, hjoint.trans (joint_of_empty hempty).symm⟩
  rw [hlookup, lookup?, hempty]
  rfl

namespace Forked

/-- A value that no program can use as a number. -/
def pair : Tensor Float := .vector [1, 2]

/-- Calls that succeed and calls that fail, one of them after `root` has been changed. -/
def calls : List Operation :=
  [.propose root (.scalar 1), .update ⟨"other", []⟩, .propose root pair,
    .observe [(shared, .scalar 0.5)], .propose shared (.scalar 1), .ask [late]]

end Forked

/-- What the calls have done is gone when it is rejected, and so is what a call has done that has
failed half way. -/
theorem isolated_of_serve_forked :
    (∀ op ∈ Forked.calls, op ≠ .accept) ∧
      (propose Forked.model Forked.before Forked.root Forked.pair).result.toOption.isNone = true ∧
      (Forked.calls.foldl (serve Forked.model) { world := Forked.before }).world.contains
        ⟨"other", []⟩ = true ∧
      Forked.before.contains ⟨"other", []⟩ = false ∧
      (Forked.calls.foldl (serve Forked.model) { world := Forked.before }).frames = [] ∧
      ∀ n, (Forked.calls.foldl (serve Forked.model)
        { world := Forked.before }).world.reject.state.lookup? n = Forked.before.lookup? n := by
  have hcalls : ∀ op ∈ Forked.calls, op ≠ .accept := by
    simp [Forked.calls]
  have hempty : Forked.before.overlay = .empty := rfl
  obtain ⟨-, hframes, -, -, -, -, hback⟩ :=
    isolated_of_serve Forked.model Forked.before Forked.calls hcalls
  exact ⟨hcalls, by decide +kernel, by decide +kernel, by decide +kernel, hframes,
    (hback hempty).1⟩

end Stochastic.World
