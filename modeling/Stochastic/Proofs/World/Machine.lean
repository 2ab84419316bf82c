import Stochastic.Proofs.World.Isolation

/-!
# Calls one step at a time

A call from outside runs programs, whose reads run further programs, to any depth.  Here the same
is done by a machine that takes one step after the other and has no depth built in: what waits for
a program or for an answer is kept on a list, and whether another program may begin is decided by
the length of the stack of running programs.

The machine comes to an end for every model and every limit of nesting, with what the call comes
to: each program makes finitely many reads, and each read that runs a program leaves less room on
the stack.

## Main definitions

* `World.Context`, `World.Control`, `World.Machine` — what waits, what is to be done next, and the
  states of the machine.
* `World.Machine.step` — one step.
* `World.Machine.Path` — steps during which a list of contexts waits.

## Main results

* `World.read_eq`, `World.revise_eq`, `World.proposal_eq` — what is done before and after the
  programs that a call executes.
* `World.Machine.answersReads` — a read is answered with what it comes to.
* `World.Machine.path_visit`, `World.Machine.path_proposal` — the machine carries out calls from
  outside.
-/

namespace Stochastic.World

open Relation

variable {α β : Type} {r r' : Run} {n : Ident} {m : Model}

/-! ## What a step comes to -/

namespace Step

/-- What a step comes to. -/
def outcome (x : Step α) (r : Run) : Except Error α :=
  match x r with
  | .ok a _ => .ok a
  | .error e _ => .error e

theorem outcome_eq_of_ok {x : Step α} {a : α} (h : x r = .ok a r') : x.outcome r = .ok a := by
  rw [outcome, h]

theorem outcome_eq_of_error {x : Step α} {e : Error} (h : x r = .error e r') :
    x.outcome r = .error e := by
  rw [outcome, h]

theorem after_eq_of_error {x : Step α} {e : Error} (h : x r = .error e r') : x.after r = r' := by
  rw [after, h]
  rfl

/-- Steps that end alike come to the same and leave the same. -/
theorem ends_congr {x y : Step α} {s : Run} (h : x r = y s) :
    x.outcome r = y.outcome s ∧ x.after r = y.after s := by
  rw [outcome, outcome, after, after, h]
  exact ⟨rfl, rfl⟩

theorem attempt_eq (x : Step α) (r : Run) : x.attempt r = .ok (x.outcome r) (x.after r) := by
  unfold attempt outcome after
  cases x r <;> rfl

theorem reply_eq (x : Step α) (w : World) :
    x.reply w = ⟨(x.after { world := w }).world, x.outcome { world := w },
      (x.after { world := w }).log⟩ := by
  unfold reply outcome after
  cases x { world := w } <;> rfl

variable {f : α → Step β}

theorem bind_of_ok {x : Step α} {a : α} (h : x r = .ok a r') : (x >>= f) r = f a r' := by
  change EStateM.bind x f r = _
  rw [EStateM.bind, h]

theorem bind_of_error {x : Step α} {e : Error} (h : x r = .error e r') :
    (x >>= f) r = .error e r' := by
  change EStateM.bind x f r = _
  rw [EStateM.bind, h]

end Step

/-! ## The parts of a call -/

/-- Connects a variable, which is live, to its reader, and hands over its value. -/
def hand (n : Ident) : Step (Tensor Float) := do
  connect n
  return (← lookup n).value

/-- Reads a variable that is there. -/
def present (n : Ident) : Step (Tensor Float) := do
  if (← get).world.overlay.isMarked n then revive n
  hand n

/-- Reads a variable that was not there and whose program has ended. -/
def establish (m : Model) (n : Ident) (d : Distribution) (parents : OrderedSet Ident) :
    Step (Tensor Float) := do
  create m (fun _ => pure (d, parents)) n
  hand n

theorem create_bind (m : Model) (ex : Executor) (n : Ident) (f : Unit → Step α) :
    create m ex n >>= f = ex n >>= fun x => create m (fun _ => pure x) n >>= f := by
  simp only [create, bind_assoc, pure_bind]

/-- A read fails at once, or the variable is there, or its program is executed first. -/
theorem read_eq (m : Model) (ex : Executor) (n : Ident) (r : Run) :
    read m ex n r =
      if r.frames.any fun f => f.node == n then .error (.cyclic n) r
      else if r.world.contains n then present n r
      else (ex n >>= fun x => establish m n x.1 x.2) r := by
  change (ite ((r.frames.any fun f => f.node == n) = true) (throw (.cyclic n))
    (get >>= fun s => ite ((!s.world.contains n) = true) (create m ex n)
      (ite (s.world.overlay.isMarked n = true) (revive n) (pure ())) >>= fun _ => hand n) :
    Step (Tensor Float)) r = _
  by_cases hc : (r.frames.any fun f => f.node == n) = true
  · rw [if_pos hc, if_pos hc]
    rfl
  rw [if_neg hc, if_neg hc, Step.get_bind]
  cases hn : r.world.contains n with
  | false =>
    simp only [Bool.not_false, if_true, Bool.false_eq_true, if_false]
    -- what follows the program is `establish`, whichever way programs are executed
    rw [create_bind]
    rfl
  | true =>
    simp only [Bool.not_true, Bool.false_eq_true, if_false, if_true, present, Step.get_bind]
    by_cases hm : r.world.overlay.isMarked n = true
    · simp only [if_pos hm]
    · simp only [if_neg hm, pure_bind]

/-- What is left of a proposal between two executions. -/
structure Task where
  /-- The variable whose value is proposed. -/
  target : Ident
  /-- What happened to its log-probability. -/
  shift : Shift
  /-- What happened to those of the readers revised so far. -/
  shifts : List (Option (Ident × Shift))
  /-- The readers that are still to be revised. -/
  readers : List Ident

/-- A proposal up to the revision of the first reader. -/
def opening (n : Ident) (value : Tensor Float) : Step Task := do
  let w := (← get).world
  if w.overlay.isMarked n then throw (.markedForDelete n)
  if w.isObserved n then throw (.observedNode n)
  let (shift, readers) ← move n value
  return { target := n, shift, shifts := [], readers }

/-- A proposal from the end of the last revision on. -/
def closing (t : Task) : Step Proposal := do
  let (created, deleted) ← balance
  let w := (← get).world
  let children := (t.shifts.filterMap id).filter fun c => !w.overlay.isMarked c.1
  write .debug ("Proposed " ++ (← lookup t.target).value.text ++ " for " ++ t.target.text)
  return { target := t.shift, children, created, deleted, live := w.liveLogProbs }

/-- Puts in place what a program that was executed again has come to, and returns what that does
to the log-probability of its variable. -/
def adopt (n : Ident) (before : Float) (d : Distribution) (parents : OrderedSet Ident) :
    Step (Ident × Shift) := do
  let v ← stage n
  restage n ({ v with parents }.setDistribution d)
  let dropped := v.parents.toList.filter fun p => !parents.contains p
  dropped.forM (detach n)
  return (n, ⟨before, (← lookup n).logProb⟩)

theorem revise_eq (m : Model) (n : Ident) (r : Run) :
    revise m n r =
      if r.world.overlay.isMarked n then .ok none r
      else match r.world.lookup? n with
        | none => .error (.notFound n) r
        | some v => (execute m r.world.config.maxDepth n >>= fun x =>
            some <$> adopt n v.logProb x.1 x.2) r := by
  have hrest : ∀ v : Variable, (reexecute m n >>= fun _ => lookup n >>= fun v' =>
      pure (some (n, ⟨v.logProb, v'.logProb⟩)) : Step (Option (Ident × Shift))) =
      get >>= fun s => execute m s.world.config.maxDepth n >>= fun x =>
        some <$> adopt n v.logProb x.1 x.2 := by
    intro v
    simp only [reexecute, adopt, bind_assoc, map_bind, map_pure]
  simp only [revise, hrest]
  rw [Step.get_bind]
  by_cases hm : r.world.overlay.isMarked n = true
  · rw [if_pos hm, if_pos hm]
    rfl
  · rw [if_neg hm, if_neg hm]
    change EStateM.bind (lookup n) _ r = _
    rw [EStateM.bind, lookup, find]
    cases r.world.lookup? n <;> rfl

theorem proposal_eq (m : Model) (n : Ident) (value : Tensor Float) :
    proposal m n value = opening n value >>= fun t => t.readers.mapM (revise m) >>= fun shifts =>
      closing { t with shifts := t.shifts ++ shifts } := by
  simp only [proposal, opening, closing, bind_assoc]
  congr 1
  funext s
  split
  · rfl
  · split
    · rfl
    · simp only [bind_assoc, pure_bind, List.nil_append]

namespace Tracks

variable {R : Run → Run → Prop}

theorem opening (h : Tracks m R) (n : Ident) (value : Tensor Float) (r : Run) :
    R r ((opening n value).after r) := by
  refine Step.after_bind (R := R) h.trans (h.refl r) fun s r₁ _ => ?_
  simp only
  split
  · exact h.refl r₁
  split
  · exact h.refl r₁
  · exact Step.after_bind (R := R) h.trans ((h.follows n .empty).movement value r₁)
      fun _ r₂ _ => h.refl r₂

theorem closing (h : Tracks m R) (t : Task) (r : Run) : R r ((closing t).after r) := by
  refine Step.after_bind (R := R) h.trans ?_ fun _ r₁ _ => ?_
  · rw [after_balance]
    exact h.refl r
  refine Step.after_bind (R := R) h.trans (h.refl r₁) fun _ r₂ _ => ?_
  refine Step.after_bind (R := R) h.trans ((h.follows t.target .empty).lookup _ r₂) fun _ r₃ _ => ?_
  exact Step.after_bind (R := R) h.trans (h.write _ r₃) fun _ r₄ _ => h.refl r₄

theorem adopt (h : Tracks m R) (n : Ident) (before : Float) (d : Distribution)
    (parents : OrderedSet Ident) (r : Run) : R r ((adopt n before d parents).after r) := by
  have hf := h.follows n .empty
  refine Step.after_bind (R := R) h.trans (hf.staging n r) fun v r₁ _ => ?_
  refine Step.after_bind (R := R) h.trans (h.put ..) fun _ r₂ _ => ?_
  refine Step.after_bind (R := R) h.trans
    (Step.after_forM (R := R) h.refl h.trans (fun p r => h.detach n p r) r₂) fun _ r₃ _ => ?_
  exact Step.after_bind (R := R) h.trans (hf.lookup n r₃) fun _ r₄ _ => h.refl r₄

end Tracks

/-! ## The machine -/

/-- What waits for a program to end or for a read to be answered. -/
inductive Context where
  /-- A program waits for the answer to a read. -/
  | asked (next : Except Error (Tensor Float) → Program Distribution)
  /-- A read waits for the program that generates the variable. -/
  | creation (n : Ident)
  /-- A proposal waits for the program of a reader, which had a log-probability before. -/
  | revision (t : Task) (n : Ident) (before : Float)

/-- What is to be done next. -/
inductive Control where
  /-- A proposal begins. -/
  | propose (n : Ident) (value : Tensor Float)
  /-- A proposal goes on with the next reader, or ends if there is none. -/
  | revise (t : Task)
  /-- A proposal has ended. -/
  | ended (result : Except Error Proposal)
  /-- A read begins. -/
  | read (n : Ident)
  /-- The innermost program goes on. -/
  | program (p : Program Distribution)
  /-- A read has been answered. -/
  | answer (a : Except Error (Tensor Float))

/-- A proposal that goes on, or ends with an error. -/
def Control.goOn : Except Error Task → Control
  | .ok t => .revise t
  | .error e => .ended (.error e)

/-- A state of the machine. -/
structure Machine where
  run : Run
  /-- What waits, innermost first. -/
  contexts : List Context
  control : Control

/-- The run without the innermost frame. -/
def Run.left (r : Run) : Run := { r with frames := r.frames.tail }

/-- The variables that the innermost program has read. -/
def Run.gathered (r : Run) : OrderedSet Ident := (r.frames.head?.map Frame.parents).getD .empty

namespace Machine

/-- Does a step that runs no programs. -/
def perform (x : Step α) (r : Run) (waiting : List Context)
    (next : Except Error α → Control) : Machine :=
  ⟨x.after r, waiting, next (x.outcome r)⟩

theorem perform_congr {x y : Step α} {s : Run} (h : x r = y s) (waiting : List Context)
    (next : Except Error α → Control) : perform x r waiting next = perform y s waiting next := by
  obtain ⟨houtcome, hafter⟩ := Step.ends_congr h
  rw [perform, perform, houtcome, hafter]

theorem perform_of_ok {x : Step α} {a : α} (h : x r = .ok a r') (waiting : List Context)
    (next : Except Error α → Control) : perform x r waiting next = ⟨r', waiting, next (.ok a)⟩ :=
  perform_congr (y := pure a) h waiting next

theorem perform_of_error {x : Step α} {e : Error} (h : x r = .error e r')
    (waiting : List Context) (next : Except Error α → Control) :
    perform x r waiting next = ⟨r', waiting, next (.error e)⟩ :=
  perform_congr (y := throw e) h waiting next

/-- Begins to execute the program of a variable, unless the stack is full. -/
def launch (m : Model) (n : Ident) (r : Run) (waiting : List Context) (context : Context)
    (refuse : Error → Control) : Machine :=
  if r.world.config.maxDepth ≤ r.frames.length then
    ⟨r, waiting, refuse (.recursionLimit n r.world.config.maxDepth)⟩
  else ⟨{ r with frames := ⟨n, .empty⟩ :: r.frames }, context :: waiting, .program (m.program n)⟩

/-- Goes on after a program that has ended, with what waits for it. -/
def conclude (m : Model) (r : Run) (waiting : List Context) (result : Except Error Distribution) :
    Context → Option Machine
  | .asked _ => none
  | .creation n =>
    match result with
    | .ok d => some (perform (establish m n d r.gathered) r.left waiting .answer)
    | .error e => some ⟨r.left, waiting, .answer (.error e)⟩
  | .revision t n before =>
    match result with
    | .ok d => some (perform (adopt n before d r.gathered) r.left waiting fun shift =>
        .goOn (shift.map fun s => { t with shifts := t.shifts ++ [some s] }))
    | .error e => some ⟨r.left, waiting, .ended (.error e)⟩

/-- Revises the next reader. -/
def reviseNext (m : Model) (t : Task) (r : Run) (waiting : List Context) : Machine :=
  match t.readers with
  | [] => perform (closing t) r waiting .ended
  | c :: readers =>
    let t := { t with readers }
    if r.world.overlay.isMarked c then
      ⟨r, waiting, .revise { t with shifts := t.shifts ++ [none] }⟩
    else
      match r.world.lookup? c with
      | none => ⟨r, waiting, .ended (.error (.notFound c))⟩
      | some v => launch m c r waiting (.revision t c v.logProb) fun e => .ended (.error e)

/-- One step of the machine; none if it has halted. -/
def step (m : Model) : Machine → Option Machine
  | ⟨r, waiting, .propose n value⟩ => some (perform (opening n value) r waiting .goOn)
  | ⟨r, waiting, .revise t⟩ => some (reviseNext m t r waiting)
  | ⟨_, _, .ended _⟩ => none
  | ⟨r, waiting, .read n⟩ =>
    if r.frames.any fun f => f.node == n then some ⟨r, waiting, .answer (.error (.cyclic n))⟩
    else if r.world.contains n then some (perform (present n) r waiting .answer)
    else some (launch m n r waiting (.creation n) fun e => .answer (.error e))
  | ⟨r, waiting, .program (.ask n next)⟩ => some ⟨r, .asked next :: waiting, .read n⟩
  | ⟨r, context :: waiting, .program (.done d)⟩ => conclude m r waiting (.ok d) context
  | ⟨r, context :: waiting, .program (.fail e)⟩ => conclude m r waiting (.error e) context
  | ⟨r, .asked next :: waiting, .answer a⟩ => some ⟨r, waiting, .program (next a)⟩
  | _ => none

/-! ## Paths -/

variable {s s' : Machine} {waiting waiting' : List Context} {depth : Nat}

/-- Steps from one state to another, during which the given contexts wait. -/
abbrev Path (m : Model) (waiting : List Context) : Machine → Machine → Prop :=
  ReflTransGen fun s s' => waiting <:+ s.contexts ∧ step m s = some s'

theorem Path.mono (h : Path m waiting s s') (hw : waiting' <:+ waiting) : Path m waiting' s s' :=
  ReflTransGen.mono (fun _ _ hs => ⟨hw.trans hs.1, hs.2⟩) s s' h

theorem path_of_step (hw : waiting <:+ s.contexts) (h : step m s = some s') :
    Path m waiting s s' :=
  ReflTransGen.single ⟨hw, h⟩

/-- There is room on the stack for a number of further programs, and not for more. -/
def Room (depth : Nat) (r : Run) : Prop := depth + r.frames.length = r.world.config.maxDepth

theorem Room.progress (h : Room depth r) (hp : Progress r r') : Room depth r' := by
  have hlength := congrArg List.length hp.running
  rw [Run.running, Run.running, List.length_map, List.length_map] at hlength
  rw [Room, hlength, (grows_of_moves hp.moves).config]
  exact h

/-- A program that has ended is followed by what waits for it. -/
theorem step_ended (r : Run) (waiting : List Context) (context : Context)
    (result : Except Error Distribution) :
    step m ⟨r, context :: waiting, .program (.ofExcept id result)⟩ =
      conclude m r waiting result context := by
  cases result <;> rfl

/-- Runs a program with at most `depth` programs nested in it. -/
def follow (m : Model) (depth : Nat) (p : Program Distribution) : Step Distribution :=
  p.run (fun n => (read m (execute m depth) n).attempt) throw

theorem withFrame_of_ok {x : Step Distribution} {d : Distribution} {s : Run}
    (h : x { r with frames := ⟨n, .empty⟩ :: r.frames } = .ok d s) :
    withFrame n x r = .ok (d, s.gathered) s.left := by
  rw [withFrame, h]
  rfl

theorem withFrame_of_error {x : Step Distribution} {e : Error} {s : Run}
    (h : x { r with frames := ⟨n, .empty⟩ :: r.frames } = .error e s) :
    withFrame n x r = .error e s.left := by
  rw [withFrame, h]
  rfl

/-- Reads with room for `depth` programs are answered, after the first step while the read
waits for the program of its variable, with what they come to. -/
def AnswersReads (m : Model) (depth : Nat) : Prop :=
  ∀ n r waiting, Room depth r → ∃ s, step m ⟨r, waiting, .read n⟩ = some s ∧
    Path m (.creation n :: waiting) s ⟨(read m (execute m depth) n).after r, waiting,
      .answer ((read m (execute m depth) n).outcome r)⟩

/-- A program goes on until it ends, with what it comes to. -/
theorem AnswersReads.path_run (h : AnswersReads m depth) (p : Program Distribution)
    (waiting : List Context) (hroom : Room depth r) :
    Path m waiting ⟨r, waiting, .program p⟩ ⟨(follow m depth p).after r, waiting,
      .program (.ofExcept id ((follow m depth p).outcome r))⟩ := by
  induction p generalizing r with
  | done d => exact ReflTransGen.refl
  | fail e => exact ReflTransGen.refl
  | ask n next ih =>
    let x := read m (execute m depth) n
    -- the read is answered while the rest of the program waits, and then the rest goes on
    obtain ⟨s, hs, hread⟩ := h n r (.asked next :: waiting) hroom
    have hsuffix : waiting <:+ Context.asked next :: waiting := List.suffix_cons _ _
    have hask : Path m waiting ⟨r, waiting, .program (.ask n next)⟩
        ⟨r, .asked next :: waiting, .read n⟩ := path_of_step List.suffix_rfl rfl
    have hanswer : Path m waiting ⟨r, .asked next :: waiting, .read n⟩
        ⟨x.after r, .asked next :: waiting, .answer (x.outcome r)⟩ :=
      (path_of_step hsuffix hs).trans (hread.mono (hsuffix.trans (List.suffix_cons _ _)))
    have hroom' : Room depth (x.after r) :=
      hroom.progress (progress_read (execute_proceeds m depth) n r)
    have hrest := ih (x.outcome r) hroom'
    have hnext : follow m depth (.ask n next) r =
        follow m depth (next (x.outcome r)) (x.after r) := by
      change EStateM.bind x.attempt _ r = _
      rw [EStateM.bind, Step.attempt_eq]
      rfl
    obtain ⟨houtcome, hafter⟩ := Step.ends_congr hnext
    rw [houtcome, hafter]
    exact ((hask.trans hanswer).trans (path_of_step hsuffix rfl)).trans hrest

/-- A program that is executed is followed by what waits for it, or by its refusal if the stack is
full. -/
theorem path_execute (h : ∀ d, depth = d + 1 → AnswersReads m d) (hroom : Room depth r)
    (context : Context) (x : Distribution × OrderedSet Ident → Step α)
    (next : Except Error α → Control)
    (hok : ∀ r d, conclude m r waiting (.ok d) context =
      some (perform (x (d, r.gathered)) r.left waiting next))
    (herror : ∀ r e, conclude m r waiting (.error e) context =
      some ⟨r.left, waiting, next (.error e)⟩) :
    Path m (context :: waiting) (launch m n r waiting context fun e => next (.error e))
      (perform (execute m depth n >>= x) r waiting next) := by
  cases depth with
  | zero =>
    have hfull : r.world.config.maxDepth ≤ r.frames.length := by
      rw [← hroom, Nat.zero_add]
    rw [launch, if_pos hfull]
    exact ReflTransGen.refl
  | succ depth =>
    let start : Run := { r with frames := ⟨n, .empty⟩ :: r.frames }
    have hlength : depth + 1 + r.frames.length = r.world.config.maxDepth := hroom
    have hstart : Room depth start := by
      change depth + (r.frames.length + 1) = r.world.config.maxDepth
      rw [← hlength, Nat.add_right_comm, Nat.add_assoc]
    rw [launch, if_neg (by rw [← hlength]; omega)]
    have hrun := (h depth rfl).path_run (m.program n) (context :: waiting) hstart
    refine hrun.trans (path_of_step List.suffix_rfl ?_)
    rw [step_ended]
    -- what waits is told how the program has ended, in the run without its frame
    cases hfollow : follow m depth (m.program n) start with
    | ok d s =>
      have hexecute : execute m (depth + 1) n r = .ok (d, s.gathered) s.left :=
        withFrame_of_ok hfollow
      rw [Step.after_eq_of_ok hfollow, Step.outcome_eq_of_ok hfollow, hok,
        perform_congr (Step.bind_of_ok hexecute)]
    | error e s =>
      have hexecute : execute m (depth + 1) n r = .error e s.left := withFrame_of_error hfollow
      rw [Step.after_eq_of_error hfollow, Step.outcome_eq_of_error hfollow, herror,
        perform_of_error (Step.bind_of_error hexecute)]

/-- A read is answered if the reads that it gives rise to are. -/
theorem answersReads_of_lt (h : ∀ d, depth = d + 1 → AnswersReads m d) : AnswersReads m depth := by
  intro n r waiting hroom
  have hread := read_eq m (execute m depth) n r
  -- the first step asks what the read asks first: whether the variable is on the stack, and whether
  -- it is there; only if neither is so does a program begin
  by_cases hc : (r.frames.any fun f => f.node == n) = true
  · rw [if_pos hc] at hread
    refine ⟨⟨r, waiting, .answer (.error (.cyclic n))⟩, ?_, ?_⟩
    · simp only [step, if_pos hc]
    · rw [← perform_of_error hread waiting .answer]
      exact ReflTransGen.refl
  rw [if_neg hc] at hread
  by_cases hn : r.world.contains n = true
  · rw [if_pos hn] at hread
    refine ⟨perform (present n) r waiting .answer, ?_, ?_⟩
    · simp only [step, if_neg hc, if_pos hn]
    · rw [perform_congr hread.symm]
      exact ReflTransGen.refl
  · rw [if_neg hn] at hread
    refine ⟨launch m n r waiting (.creation n) fun e => .answer (.error e), ?_, ?_⟩
    · simp only [step, if_neg hc, if_neg hn]
    · change Path m _ _ (perform (read m (execute m depth) n) r waiting .answer)
      rw [perform_congr hread]
      exact path_execute h hroom (.creation n) (fun x => establish m n x.1 x.2) .answer
        (fun _ _ => rfl) fun _ _ => rfl

/-- **A read is answered with what it comes to**, to any depth of nesting. -/
theorem answersReads (m : Model) (depth : Nat) : AnswersReads m depth := by
  induction depth with
  | zero =>
    refine answersReads_of_lt fun d hd => ?_
    cases hd
  | succ depth ih =>
    refine answersReads_of_lt fun d hd => ?_
    cases hd
    exact ih

/-! ## Calls from outside -/

theorem perform_map {x : Step α} {f : α → β} (r : Run) (waiting : List Context)
    (next : Except Error β → Control) :
    perform (f <$> x) r waiting next = perform x r waiting fun a => next (a.map f) := by
  have hmap : f <$> x = x >>= fun a => pure (f a) := (bind_pure_comp f x).symm
  rw [hmap]
  cases hx : x r with
  | ok a r' => rw [perform_congr (Step.bind_of_ok hx), perform_of_ok hx]; rfl
  | error e r' => rw [perform_of_error (Step.bind_of_error hx), perform_of_error hx]; rfl

theorem room_of_nil (hf : r.frames = []) : Room r.world.config.maxDepth r := by
  rw [Room, hf, List.length_nil, Nat.add_zero]

/-- A proposal goes on from one reader to the next. -/
theorem path_reviseNext (t : Task) (c : Ident) (readers : List Ident) (hf : r.frames = []) :
    Path m [] ⟨r, [], .revise { t with readers := c :: readers }⟩
      (perform (revise m c) r [] fun shift =>
        .goOn (shift.map fun s => { t with readers, shifts := t.shifts ++ [s] })) := by
  have hrevise := revise_eq m c r
  refine (path_of_step (List.nil_suffix) rfl).trans ?_
  simp only [reviseNext]
  by_cases hm : r.world.overlay.isMarked c = true
  · rw [if_pos hm] at hrevise
    rw [if_pos hm, perform_of_ok hrevise]
    exact ReflTransGen.refl
  rw [if_neg hm] at hrevise
  rw [if_neg hm]
  cases hv : r.world.lookup? c with
  | none =>
    rw [hv] at hrevise
    rw [perform_of_error hrevise]
    exact ReflTransGen.refl
  | some v =>
    have hsome : revise m c r = (some <$> (execute m r.world.config.maxDepth c >>= fun x =>
        adopt c v.logProb x.1 x.2)) r := by
      rw [hrevise, hv, map_bind]
    let next : Except Error (Ident × Shift) → Control := fun shift =>
      .goOn (shift.map fun s => { t with readers, shifts := t.shifts ++ [some s] })
    have hnext : (fun shift : Except Error (Ident × Shift) => Control.goOn ((shift.map some).map
        fun s => { t with readers, shifts := t.shifts ++ [s] })) = next := by
      funext shift
      cases shift <;> rfl
    rw [perform_congr hsome, perform_map, hnext]
    exact (path_execute (fun d _ => answersReads m d) (room_of_nil hf)
      (.revision { t with readers } c v.logProb) (fun x => adopt c v.logProb x.1 x.2) next
      (fun _ _ => rfl) fun _ _ => rfl).mono List.nil_suffix

/-- A proposal goes through all readers that are left. -/
theorem path_revise (t : Task) (readers : List Ident) (hf : r.frames = []) :
    Path m [] ⟨r, [], .revise { t with readers }⟩
      (perform (readers.mapM (revise m) >>= fun shifts =>
        closing { t with shifts := t.shifts ++ shifts }) r [] .ended) := by
  -- what has been found out about the readers before is in `t.shifts`, so `t` varies
  induction readers generalizing t r with
  | nil =>
    refine path_of_step List.nil_suffix ?_
    rw [List.mapM_nil, pure_bind, List.append_nil]
    rfl
  | cons c readers ih =>
    rw [List.mapM_cons, bind_assoc]
    refine (path_reviseNext t c readers hf).trans ?_
    cases hc : revise m c r with
    | ok s r' =>
      have hf' : r'.frames = [] := by
        rw [← Step.after_eq_of_ok hc, (tracks_sameFrames m).revision c r, hf]
      have hrest := ih { t with shifts := t.shifts ++ [s] } hf'
      rw [perform_of_ok hc, perform_congr (Step.bind_of_ok hc)]
      simp only [bind_assoc, pure_bind, List.append_assoc, List.singleton_append] at hrest ⊢
      exact hrest
    | error e r' =>
      rw [perform_of_error hc, perform_of_error (Step.bind_of_error hc)]
      exact ReflTransGen.refl

/-- **A visit is taken step by step**, however it ends. -/
theorem path_visit (m : Model) (n : Ident) (hf : r.frames = []) :
    Path m [] ⟨r, [], .read n⟩ (perform (visit m n) r [] .answer) := by
  obtain ⟨s, hs, hpath⟩ := answersReads m r.world.config.maxDepth n r [] (room_of_nil hf)
  exact (path_of_step List.nil_suffix hs).trans (hpath.mono List.nil_suffix)

/-- **A proposal is taken step by step**, however it ends. -/
theorem path_proposal (m : Model) (n : Ident) (value : Tensor Float) (hf : r.frames = []) :
    Path m [] ⟨r, [], .propose n value⟩ (perform (proposal m n value) r [] .ended) := by
  refine (path_of_step List.nil_suffix rfl).trans ?_
  rw [proposal_eq]
  cases ho : opening n value r with
  | ok t r' =>
    have hf' : r'.frames = [] := by
      rw [← Step.after_eq_of_ok ho, (tracks_sameFrames m).opening n value r, hf]
    rw [perform_of_ok ho, perform_congr (Step.bind_of_ok ho)]
    exact path_revise t t.readers hf'
  | error e r' =>
    rw [perform_of_error ho, perform_of_error (Step.bind_of_error ho)]
    exact ReflTransGen.refl

end Machine

end Stochastic.World
