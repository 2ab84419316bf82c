import Stochastic.Proofs.World.Chains
import Stochastic.Proofs.World.Machine

/-!
# The discipline of the stack

While a call is under way, the stack holds the programs that are running.  No variable is on it
twice, since a program cannot read a variable that is being generated, and a reader is executed
again only when nothing else is running; and it never holds more programs than the settings allow.
A read that has been answered has left the stack as it was, but for what the innermost program
has read, however the read has ended.

These are facts about all that happens during a call and not about its end, so they are proved of
the machine: each of its steps leaves the stack alone, or begins a program, or ends one.

## Main definitions

* `World.SameStack` — the same programs are running, and have read the same but for the innermost.
* `World.Machine.Disciplined` — the invariant of the machine.

## Main results

* `World.Machine.disciplined_step`, `World.Machine.disciplined_of_path` — a step keeps the
  invariant, and so do all steps of a call.
* `World.stack_disciplined` — the stack during a call, and the ends of all calls.
-/

namespace Stochastic.World

variable {r r' : Run} {n k : Ident} {m : Model} {w : World}

/-! ## Steps that leave the stack alone -/

/-- The same programs are running, with the same settings, and all but the innermost have read the
same. -/
structure SameStack (r r' : Run) : Prop where
  running : r'.running = r.running
  below : r'.frames.tail = r.frames.tail
  config : r'.world.config = r.world.config

namespace SameStack

theorem refl (r : Run) : SameStack r r := ⟨rfl, rfl, rfl⟩

theorem trans {a b c : Run} (h : SameStack a b) (h' : SameStack b c) : SameStack a c :=
  ⟨h'.running.trans h.running, h'.below.trans h.below, h'.config.trans h.config⟩

theorem of_progress (h : Progress r r') : SameStack r r' :=
  ⟨h.running, h.below, (grows_of_moves h.moves).config⟩

theorem of_frames (h : r'.frames = r.frames) (hc : r'.world.config = r.world.config) :
    SameStack r r' :=
  ⟨congrArg (List.map Frame.node) h, congrArg List.tail h, hc⟩

theorem tracks (m : Model) : Tracks m SameStack where
  refl := refl
  trans := trans
  execute depth n r := of_progress (execute_proceeds m depth n r).1.1
  detach c p r :=
    have hs := sheds_detach c p r
    of_frames hs.frames (grows_of_moves hs.moves).config
  put _ _ _ := of_frames rfl rfl
  recordPrior n r := of_frames (Run.frames_recordPrior r n) (by rw [Run.world_recordPrior])
  proposing _ _ := of_frames rfl rfl
  write _ _ := of_frames rfl rfl

theorem hand (n : Ident) (r : Run) : SameStack r ((hand n).after r) := by
  refine Step.after_bind (R := SameStack) trans (of_progress (progress_connect n r))
    fun _ r₁ _ => ?_
  refine Step.after_bind (R := SameStack) trans ?_ fun _ r₂ _ => refl r₂
  rw [Step.after_lookup]
  exact refl r₁

theorem present (n : Ident) (r : Run) : SameStack r ((present n).after r) := by
  refine Step.after_bind (R := SameStack) trans (refl r) fun s r₁ _ => ?_
  simp only
  split
  · exact Step.after_bind (R := SameStack) trans (of_progress (restores_revive n r₁).progress)
      fun _ r₂ _ => hand n r₂
  · exact hand n r₁

theorem establish (m : Model) (n : Ident) (d : Distribution) (parents : OrderedSet Ident)
    (r : Run) : SameStack r ((establish m n d parents).after r) := by
  refine Step.after_bind (R := SameStack) trans ?_ fun _ r₁ _ => hand n r₁
  refine Step.after_bind (R := SameStack) trans (refl r) fun x r₁ _ => ?_
  refine Step.after_bind (R := SameStack) trans
    (of_progress (restores_freshValue m n x.1 r₁).progress) fun v r₂ _ => ?_
  exact Step.after_bind (R := SameStack) trans (of_frames rfl rfl) fun _ _ _ => of_frames rfl rfl

end SameStack

/-! ## The invariant -/

/-- The variable whose program a context waits for, if it waits for a program. -/
def Context.owner : Context → Option Ident
  | .asked _ => none
  | .creation n => some n
  | .revision _ n _ => some n

/-- Below the program of a reader that is executed again, nothing waits. -/
def Seated : List Context → Prop
  | [] => True
  | .revision _ _ _ :: waiting => waiting = []
  | _ :: waiting => Seated waiting

/-- A proposal is about to begin or to go on. -/
def Control.Outer : Control → Prop
  | .propose _ _ | .revise _ | .ended _ => True
  | _ => False

namespace Machine

variable {s s' : Machine} {waiting waiting' : List Context} {context : Context}
  {control control' : Control} {limit : Nat}

/-- The programs on the stack are those that something waits for, in order; they are pairwise
different, and not too many. -/
structure Disciplined (limit : Nat) (s : Machine) : Prop where
  setting : s.run.world.config.maxDepth = limit
  owners : s.run.running = s.contexts.filterMap Context.owner
  distinct : s.run.running.Pairwise fun a b => (a == b) = false
  bounded : s.run.frames.length ≤ limit
  seated : Seated s.contexts
  outer : s.control.Outer → s.contexts = []

theorem length_running (r : Run) : r.running.length = r.frames.length := List.length_map ..

/-- A step that leaves the stack alone. -/
theorem Disciplined.keep (h : Disciplined limit ⟨r, waiting, control⟩) (hs : SameStack r r')
    (howners : waiting'.filterMap Context.owner = waiting.filterMap Context.owner)
    (hseated : Seated waiting') (houter : control'.Outer → waiting' = []) :
    Disciplined limit ⟨r', waiting', control'⟩ where
  setting := by rw [hs.config]; exact h.setting
  owners := by rw [hs.running, howners]; exact h.owners
  distinct := by rw [hs.running]; exact h.distinct
  bounded := by
    rw [← length_running, hs.running, length_running]
    exact h.bounded
  seated := hseated
  outer := houter

/-- A step with which a program ends. -/
theorem Disciplined.leave (h : Disciplined limit ⟨r, context :: waiting, control⟩)
    (hn : context.owner = some n) (hs : SameStack r.left r') (hseated : Seated waiting)
    (houter : control'.Outer → waiting = []) : Disciplined limit ⟨r', waiting, control'⟩ := by
  -- the frame that goes is that of the innermost context
  have howners : r.running = n :: waiting.filterMap Context.owner := by
    rw [h.owners, List.filterMap_cons_some hn]
  have hleft : r.left.running = waiting.filterMap Context.owner := by
    rw [Run.left, Run.running, List.map_tail, ← Run.running, howners, List.tail_cons]
  have hbounded : r.left.frames.length ≤ limit := by
    rw [Run.left, List.length_tail]
    exact (Nat.sub_le ..).trans h.bounded
  have hdistinct : r.left.running.Pairwise fun a b => (a == b) = false := by
    have hrunning := h.distinct
    rw [howners] at hrunning
    rw [hleft]
    exact hrunning.of_cons
  have hpopped : Disciplined limit ⟨r.left, waiting, control'⟩ :=
    ⟨h.setting, hleft, hdistinct, hbounded, hseated, houter⟩
  exact hpopped.keep hs rfl hseated houter

/-- A step with which a program begins, unless the stack is full. -/
theorem Disciplined.launch (h : Disciplined limit ⟨r, waiting, control⟩)
    (hn : context.owner = some n) (hstack : ∀ k ∈ r.running, (n == k) = false)
    (hseated : Seated (context :: waiting)) {refuse : Error → Control}
    (hrefuse : ∀ e, (refuse e).Outer → waiting = []) :
    Disciplined limit (launch m n r waiting context refuse) := by
  unfold Machine.launch
  split
  · exact h.keep (SameStack.refl r) rfl h.seated (hrefuse _)
  · next hroom =>
    refine ⟨h.setting, ?_, ?_, ?_, hseated, fun ho => ho.elim⟩
    · rw [List.filterMap_cons_some hn, ← h.owners]
      rfl
    · exact List.pairwise_cons.2 ⟨hstack, h.distinct⟩
    · rw [h.setting] at hroom
      exact Nat.lt_of_not_le hroom

/-- A step with which a proposal goes on. -/
theorem disciplined_reviseNext {t : Task} (h : Disciplined limit ⟨r, waiting, .revise t⟩) :
    Disciplined limit (reviseNext m t r waiting) := by
  have hnil : waiting = [] := h.outer trivial
  unfold reviseNext
  split
  · exact h.keep ((SameStack.tracks m).closing t r) rfl h.seated fun _ => hnil
  split
  · exact h.keep (SameStack.refl r) rfl h.seated fun _ => hnil
  split
  · exact h.keep (SameStack.refl r) rfl h.seated fun _ => hnil
  · -- nothing is running when a reader is executed again
    have hrunning : r.running = [] := by
      rw [h.owners, hnil]
      rfl
    have hstack : ∀ c, ∀ k ∈ r.running, (c == k) = false := by
      intro c k hk
      rw [hrunning] at hk
      cases hk
    exact Disciplined.launch h rfl (hstack _) (by exact hnil) fun _ _ => hnil

/-- A step with which a program ends. -/
theorem disciplined_conclude {result : Except Error Distribution}
    (h : Disciplined limit ⟨r, context :: waiting, control⟩)
    (hs : conclude m r waiting result context = some s') : Disciplined limit s' := by
  cases context with
  | asked next => cases hs
  | creation n =>
    have hseated : Seated waiting := h.seated
    cases result with
    | ok d =>
      cases hs
      exact h.leave rfl (SameStack.establish m n d r.gathered r.left) hseated fun ho => ho.elim
    | error e =>
      cases hs
      exact h.leave rfl (SameStack.refl _) hseated fun ho => ho.elim
  | revision t n before =>
    have hnil : waiting = [] := h.seated
    have hseated : Seated waiting := hnil ▸ trivial
    cases result with
    | ok d =>
      cases hs
      exact h.leave rfl ((SameStack.tracks m).adopt n before d r.gathered r.left) hseated
        fun _ => hnil
    | error e =>
      cases hs
      exact h.leave rfl (SameStack.refl _) hseated fun _ => hnil

/-- **A step of the machine keeps the discipline.** -/
theorem disciplined_step (h : Disciplined limit s) (hs : step m s = some s') :
    Disciplined limit s' := by
  obtain ⟨r, waiting, control⟩ := s
  cases control with
  | propose n value =>
    cases hs
    exact h.keep ((SameStack.tracks m).opening n value r) rfl h.seated fun _ => h.outer trivial
  | revise t =>
    cases hs
    exact disciplined_reviseNext h
  | ended result => cases hs
  | read n =>
    simp only [step] at hs
    split at hs
    · cases hs
      exact h.keep (SameStack.refl r) rfl h.seated fun ho => ho.elim
    · next hstack =>
      split at hs
      · cases hs
        exact h.keep (SameStack.present n r) rfl h.seated fun ho => ho.elim
      · -- a variable that is on the stack has been refused before
        cases hs
        exact h.launch rfl (Run.ne_of_mem_running hstack) (by exact h.seated) fun _ ho => ho.elim
  | program p =>
    cases p with
    | ask n next =>
      cases hs
      exact h.keep (SameStack.refl r) rfl h.seated fun ho => ho.elim
    | done d =>
      cases waiting with
      | nil => cases hs
      | cons context waiting =>
        exact disciplined_conclude h (step_ended r waiting context (.ok d) ▸ hs)
    | fail e =>
      cases waiting with
      | nil => cases hs
      | cons context waiting =>
        exact disciplined_conclude h (step_ended r waiting context (.error e) ▸ hs)
  | answer a =>
    cases waiting with
    | nil => cases hs
    | cons context waiting =>
      cases context with
      | asked next =>
        cases hs
        exact h.keep (SameStack.refl r) rfl h.seated fun ho => ho.elim
      | creation n => cases hs
      | revision t n before => cases hs

/-- **All steps of a call keep the discipline.** -/
theorem disciplined_of_path (h : Disciplined limit s) (hs : Path m [] s s') :
    Disciplined limit s' := by
  induction hs with
  | refl => exact h
  | tail _ hstep ih => exact disciplined_step ih hstep.2

/-! ## Reads -/

/-- The read with which a state goes on has been answered in another one: the first step leads to
the answer, or to a program which the read waits for until it is answered. -/
structure Answered (m : Model) (n : Ident) (s s' : Machine) : Prop where
  path : ∃ s₁, step m s = some s₁ ∧ Path m (.creation n :: s.contexts) s₁ s'
  contexts : s'.contexts = s.contexts
  answer : ∃ a, s'.control = .answer a

/-- The state in which a read has been answered. -/
def answered (m : Model) (limit : Nat) (r : Run) (waiting : List Context) (n : Ident) : Machine :=
  perform (read m (execute m (limit - r.frames.length)) n) r waiting .answer

theorem answered_of_disciplined (h : Disciplined limit ⟨r, waiting, .read n⟩) :
    Answered m n ⟨r, waiting, .read n⟩ (answered m limit r waiting n) := by
  have hroom : Room (limit - r.frames.length) r :=
    (Nat.sub_add_cancel h.bounded).trans h.setting.symm
  exact ⟨answersReads m _ n r waiting hroom, rfl, _, rfl⟩

theorem sameStack_answered : SameStack r (answered m limit r waiting n).run :=
  SameStack.of_progress (progress_read (execute_proceeds m _) n r)

/-- A read of a variable on the stack fails at once. -/
theorem answered_of_running (hn : ∃ k ∈ r.running, (k == n) = true) :
    answered m limit r waiting n = ⟨r, waiting, .answer (.error (.cyclic n))⟩ := by
  refine perform_of_error ?_ waiting .answer
  rw [read_eq, if_pos ((r.any_frames_iff n).2 hn)]

/-- A read of a variable that is not there fails at once if the stack is full. -/
theorem answered_of_full (hn : ∀ k ∈ r.running, (k == n) = false) (hv : r.world.lookup? n = none)
    (hfull : r.frames.length = limit) :
    answered m limit r waiting n =
      ⟨r, waiting, .answer (.error (.recursionLimit n r.world.config.maxDepth))⟩ := by
  refine perform_of_error ?_ waiting .answer
  have hstack : ¬ (r.frames.any fun f => f.node == n) = true := by
    rw [r.any_frames_iff n]
    rintro ⟨k, hk, hkn⟩
    cases (hn k hk).symm.trans hkn
  have habsent : ¬ r.world.contains n = true := by
    rw [contains, hv]
    exact Bool.false_ne_true
  rw [read_eq, if_neg hstack, if_neg habsent, hfull, Nat.sub_self]
  rfl

/-! ## Calls -/

/-- The machine comes to a halt. -/
def HaltsIn (m : Model) (s s' : Machine) : Prop := Path m [] s s' ∧ step m s' = none

/-- A variable is about to be visited from outside. -/
def visiting (w : World) (n : Ident) : Machine := ⟨{ world := w }, [], .read n⟩

/-- A value is about to be proposed for a variable. -/
def proposing (w : World) (n : Ident) (value : Tensor Float) : Machine :=
  ⟨{ world := w }, [], .propose n value⟩

/-- A state that a call on a world leads through. -/
def Underway (m : Model) (w : World) (s : Machine) : Prop :=
  (∃ n, Path m [] (visiting w n) s) ∨ ∃ n value, Path m [] (proposing w n value) s

theorem disciplined_begin (w : World) (control : Control) :
    Disciplined w.config.maxDepth ⟨{ world := w }, [], control⟩ :=
  ⟨rfl, rfl, List.Pairwise.nil, Nat.zero_le _, trivial, fun _ => rfl⟩

theorem Underway.disciplined (h : Underway m w s) : Disciplined w.config.maxDepth s := by
  rcases h with ⟨n, hpath⟩ | ⟨n, value, hpath⟩
  · exact disciplined_of_path (disciplined_begin w _) hpath
  · exact disciplined_of_path (disciplined_begin w _) hpath

theorem haltsIn_visiting (m : Model) (w : World) (n : Ident) :
    ∃ r, HaltsIn m (visiting w n) ⟨r, [], .answer (update m w n).result⟩ ∧ r.frames = [] ∧
      (update m w n).state = r.world ∧ (update m w n).log = r.log := by
  have hpath := path_visit m n (r := { world := w }) rfl
  rw [update, Step.reply_eq]
  exact ⟨_, ⟨hpath, rfl⟩, frames_visit rfl, rfl, rfl⟩

theorem haltsIn_proposing (m : Model) (w : World) (n : Ident) (value : Tensor Float) :
    ∃ r p, HaltsIn m (proposing w n value) ⟨r, [], .ended p⟩ ∧ r.frames = [] ∧
      propose m w n value = ⟨r.world, p.map Proposal.outcome, r.log⟩ := by
  have hpath := path_proposal m n value (r := { world := w }) rfl
  rw [propose, itemize, Step.reply_eq]
  exact ⟨_, _, ⟨hpath, rfl⟩, frames_proposal m n value { world := w }, rfl⟩

/-- A proposal ends at once if a reader cannot be executed again because the stack is full. -/
theorem haltsIn_of_full {t : Task} {c : Ident} {readers : List Ident} {v : Variable}
    (h : Disciplined limit ⟨r, waiting, .revise t⟩) (ht : t.readers = c :: readers)
    (hm : r.world.overlay.isMarked c = false) (hv : r.world.lookup? c = some v)
    (hfull : r.frames.length = limit) :
    HaltsIn m ⟨r, waiting, .revise t⟩ ⟨r, waiting, .ended (.error (.recursionLimit c limit))⟩ := by
  refine ⟨path_of_step List.nil_suffix ?_, rfl⟩
  have hlimit : r.world.config.maxDepth = limit := h.setting
  simp only [step, reviseNext, ht, hm, hv, Bool.false_eq_true, if_false, launch, hlimit,
    if_pos hfull.ge]

end Machine

open Machine

/-- **The stack of running programs is disciplined.**  For every model, every limit of nesting and
every world, a visit and a proposal come to an end, with nothing left on the stack; the chains of
deletions and revivals in them end by themselves.  In every state on the way, no variable is on
the stack twice, and there are no more programs on it than the limit allows.  Every read on the
way is answered, be it with an error, and the same programs are running then, those below the
innermost with the same reads.  It fails if the variable is on the stack, and so does the
execution of a program when the stack is full. -/
theorem stack_disciplined (m : Model) (w : World) :
    (∀ n, ∃ r, HaltsIn m (visiting w n) ⟨r, [], .answer (update m w n).result⟩ ∧ r.frames = [] ∧
      (update m w n).state = r.world ∧ (update m w n).log = r.log) ∧
    (∀ n value, ∃ r p, HaltsIn m (proposing w n value) ⟨r, [], .ended p⟩ ∧ r.frames = [] ∧
      propose m w n value = ⟨r.world, p.map Proposal.outcome, r.log⟩) ∧
    (∀ (r : Run) depth c p, r.world.size < depth → detachWithin depth c p r = detach c p r) ∧
    (∀ (r : Run) depth n, r.world.overlay.marked.size < depth →
      reviveWithin depth n r = revive n r) ∧
    ∀ s, Underway m w s →
      s.run.running.Pairwise (fun a b => (a == b) = false) ∧
      s.run.frames.length ≤ w.config.maxDepth ∧
      (∀ n, s.control = .read n → ∃ s', Answered m n s s' ∧
        s'.run.running = s.run.running ∧ s'.run.frames.tail = s.run.frames.tail ∧
        ((∃ k ∈ s.run.running, (k == n) = true) →
          s' = { s with control := .answer (.error (.cyclic n)) }) ∧
        ((∀ k ∈ s.run.running, (k == n) = false) → s.run.world.lookup? n = none →
          s.run.frames.length = w.config.maxDepth →
          s' = { s with control := .answer (.error (.recursionLimit n w.config.maxDepth)) })) ∧
      ∀ t c readers v, s.control = .revise t → t.readers = c :: readers →
        s.run.world.overlay.isMarked c = false → s.run.world.lookup? c = some v →
        s.run.frames.length = w.config.maxDepth →
        HaltsIn m s
          { s with control := .ended (.error (.recursionLimit c w.config.maxDepth)) } := by
  refine ⟨haltsIn_visiting m w, haltsIn_proposing m w, fun _ _ _ _ => detachWithin_eq_detach,
    fun _ _ _ => reviveWithin_eq_revive, fun s hs => ?_⟩
  have h := hs.disciplined
  obtain ⟨r, waiting, control⟩ := s
  refine ⟨h.distinct, h.bounded, ?_, ?_⟩
  · rintro n rfl
    have hstack : SameStack r (answered m w.config.maxDepth r waiting n).run := sameStack_answered
    refine ⟨_, answered_of_disciplined h, hstack.running, hstack.below, answered_of_running, ?_⟩
    intro hn hv hfull
    rw [answered_of_full hn hv hfull, h.setting]
  · rintro t c readers v rfl ht hm hv hfull
    exact haltsIn_of_full h ht hm hv hfull

/-- Every variable reads another one, without end. -/
def endless : Model where
  program n := do
    let x ← .readItem ⟨n.name ++ "'", []⟩
    return .uniform 0 x
  sampler _ _ := .scalar 0.5

example : (update endless (.new { maxDepth := 2 }) ⟨"n", []⟩).result =
    .error (.recursionLimit ⟨"n''", []⟩ 2) := rfl

end Stochastic.World
