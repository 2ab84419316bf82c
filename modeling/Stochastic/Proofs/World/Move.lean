import Mathlib.Logic.Relation
import Stochastic.Proofs.World.View

/-!
# What reading, reviving and detaching can do

Programs run each other to any depth and may fail anywhere, but all they ever do to a run is a
sequence of a few moves: a variable gets other readers, a variable that nothing reads is marked,
a mark is taken away, a variable that was not there is created, and besides that a value is
drawn, a line is logged, or the stack of running programs changes.  Whatever every move
preserves is preserved by reading, also by a read that fails half way.

A variable that is being generated is not there while its program runs: a program that reads it
fails.  So a variable is created at most once, and this is why the induction over nested
programs carries the identifiers on the stack.

## Main definitions

* `World.Move`, `World.Moves` — one move, and a sequence of moves.
* `World.Progress` — moves that keep the stack, and create nothing that is on it.

## Main results

* `World.sheds_detach`, `World.restores_revive` — detaching and reviving make moves only.
* `World.execute_proceeds` — so do programs, to any depth of nesting and however they end.
* `World.progress_read` — so does a read.
-/

namespace Stochastic.World

variable {r r' r'' : Run} {n k : Ident} {v : Variable}

namespace Run

@[simp] theorem world_mapOverlay (r : Run) (f : Overlay → Overlay) :
    (r.mapOverlay f).world = { r.world with overlay := f r.world.overlay } := rfl

@[simp] theorem frames_mapOverlay (r : Run) (f : Overlay → Overlay) :
    (r.mapOverlay f).frames = r.frames := rfl

@[simp] theorem ledger_mapOverlay (r : Run) (f : Overlay → Overlay) :
    (r.mapOverlay f).ledger = r.ledger := rfl

@[simp] theorem world_mapLedger (r : Run) (f : Ledger → Ledger) :
    (r.mapLedger f).world = r.world := rfl

@[simp] theorem frames_mapLedger (r : Run) (f : Ledger → Ledger) :
    (r.mapLedger f).frames = r.frames := rfl

@[simp] theorem ledger_mapLedger (r : Run) (f : Ledger → Ledger) :
    (r.mapLedger f).ledger = r.ledger.map f := rfl

@[simp] theorem world_write (r : Run) (line : LogLine) : (r.write line).world = r.world := rfl

@[simp] theorem frames_write (r : Run) (line : LogLine) : (r.write line).frames = r.frames := rfl

@[simp] theorem ledger_write (r : Run) (line : LogLine) : (r.write line).ledger = r.ledger := rfl

@[simp] theorem world_recordPrior (r : Run) (n : Ident) : (r.recordPrior n).world = r.world := by
  unfold recordPrior
  split <;> rfl

@[simp] theorem frames_recordPrior (r : Run) (n : Ident) : (r.recordPrior n).frames = r.frames := by
  unfold recordPrior
  split <;> rfl

theorem ledger_recordPrior (h : r.world.lookup? n = some v) :
    (r.recordPrior n).ledger = r.ledger.map (·.note n v.logProb) := by
  rw [recordPrior, h]
  rfl

/-- The run with a variable staged as it is, and then replaced. -/
def replace (r : Run) (n : Ident) (v v' : Variable) : Run :=
  ((r.mapOverlay (·.put n v)).recordPrior n).mapOverlay (·.put n v')

/-- The run in which a variable gets other readers. -/
def relist (r : Run) (n : Ident) (v : Variable) (readers : OrderedSet Ident) : Run :=
  r.replace n v { v with children := readers }

/-- The run with a variable marked. -/
def marking (r : Run) (n : Ident) : Run :=
  ((r.recordPrior n).mapOverlay (·.mark n)).mapLedger fun l => { l with marked := l.marked ++ [n] }

/-- The run with a variable created. -/
def creating (r : Run) (n : Ident) (v : Variable) : Run :=
  (r.mapOverlay (·.put n v)).mapLedger fun l => { l with created := l.created ++ [n] }

@[simp] theorem frames_replace (r : Run) (n : Ident) (v v' : Variable) :
    (r.replace n v v').frames = r.frames := by
  simp [replace]

@[simp] theorem frames_relist (r : Run) (n : Ident) (v : Variable) (readers : OrderedSet Ident) :
    (r.relist n v readers).frames = r.frames :=
  frames_replace ..

@[simp] theorem frames_marking (r : Run) (n : Ident) : (r.marking n).frames = r.frames := by
  simp [marking]

@[simp] theorem frames_creating (r : Run) (n : Ident) (v : Variable) :
    (r.creating n v).frames = r.frames := rfl

theorem world_marking (r : Run) (n : Ident) : (r.marking n).world = r.world.marking n := by
  simp [marking, World.marking]

theorem world_creating (r : Run) (n : Ident) (v : Variable) :
    (r.creating n v).world = r.world.put n v := rfl

theorem world_replace (r : Run) (n : Ident) (v v' : Variable) :
    (r.replace n v v').world = (r.world.put n v).put n v' := by
  simp [replace, World.put]

theorem ledger_replace (r : Run) (n : Ident) (v v' : Variable) :
    (r.replace n v v').ledger = r.ledger.map (·.note n v.logProb) := by
  rw [replace, ledger_mapOverlay, ledger_recordPrior (lookup?_put_self r.world n v)]
  rfl

end Run

/-! ## Moves -/

/-- One change that reading, reviving or detaching makes. -/
inductive Move : Run → Run → Prop where
  /-- A variable gets other readers. -/
  | relist {r : Run} {n : Ident} {v : Variable} (readers : OrderedSet Ident)
      (found : r.world.lookup? n = some v) : Move r (r.relist n v readers)
  /-- A variable that nothing reads, and that is not protected, is marked. -/
  | mark {r : Run} {n : Ident} {v : Variable} (found : r.world.lookup? n = some v)
      (unread : v.children.toList = []) (unprotected : r.isProtected n = false)
      (unmarked : r.world.overlay.isMarked n = false) : Move r (r.marking n)
  /-- A mark is taken away. -/
  | unmark {r : Run} (n : Ident) : Move r (r.mapOverlay (·.unmark n))
  /-- A variable that was not there is created, with its observed value if it has one. -/
  | create {r : Run} {n : Ident} (d : Distribution) (value : Tensor Float)
      (parents : OrderedSet Ident) (absent : r.world.lookup? n = none)
      (observed : ∀ o, r.world.observations.get? n = some o → value = o) :
      Move r (r.creating n (.create d value parents r.world.config.transformConstrained))
  /-- A value is drawn. -/
  | draw {r : Run} : Move r { r with world := { r.world with drawn := r.world.drawn + 1 } }
  /-- A line is logged. -/
  | write {r : Run} (line : LogLine) : Move r (r.write line)
  /-- A program begins, ends, or has read a variable. -/
  | frames {r : Run} (frames : List Frame) : Move r { r with frames }

/-- A sequence of moves. -/
abbrev Moves : Run → Run → Prop := Relation.ReflTransGen Move

theorem Moves.refl (r : Run) : Moves r r := Relation.ReflTransGen.refl

theorem Moves.trans {a b c : Run} (h : Moves a b) (h' : Moves b c) : Moves a c :=
  Relation.ReflTransGen.trans h h'

theorem Move.moves (h : Move r r') : Moves r r' := Relation.ReflTransGen.single h

/-! ## Detaching and reviving -/

theorem setReaders_eq (n : Ident) (change : OrderedSet Ident → OrderedSet Ident) (r : Run) :
    setReaders n change r = match r.world.lookup? n with
      | none => .error (.notFound n) r
      | some v => .ok (change v.children) (r.relist n v (change v.children)) := by
  change EStateM.bind (stage n) _ r = _
  unfold EStateM.bind stage
  cases r.world.lookup? n <;> rfl

/-- Moves that leave the stack alone, and all of every variable but who reads it. -/
structure Steady (r r' : Run) : Prop where
  moves : Moves r r'
  frames : r'.frames = r.frames
  cores : r.world.SameCores r'.world

theorem Steady.refl (r : Run) : Steady r r := ⟨Moves.refl r, rfl, SameCores.refl _⟩

theorem Steady.trans {a b c : Run} (h : Steady a b) (h' : Steady b c) : Steady a c :=
  ⟨h.moves.trans h'.moves, h'.frames.trans h.frames, h.cores.trans h'.cores⟩

theorem lookup?_replace (r : Run) (n : Ident) (v v' : Variable) (k : Ident) :
    (r.replace n v v').world.lookup? k = if n == k then some v' else r.world.lookup? k := by
  rw [Run.world_replace, lookup?_put, lookup?_put]
  by_cases h : (n == k) = true <;> simp [h]

theorem lookup?_relist (r : Run) (n : Ident) (v : Variable) (readers : OrderedSet Ident)
    (k : Ident) : (r.relist n v readers).world.lookup? k =
      if n == k then some { v with children := readers } else r.world.lookup? k :=
  lookup?_replace ..

theorem sameCores_relist (h : r.world.lookup? n = some v) (readers : OrderedSet Ident) :
    r.world.SameCores (r.relist n v readers).world := by
  intro k
  rw [lookup?_relist]
  by_cases hk : (n == k) = true
  · rw [if_pos hk, ← lookup?_congr _ hk, h]
    rfl
  · rw [if_neg hk]

theorem steady_relist (h : r.world.lookup? n = some v) (readers : OrderedSet Ident) :
    Steady r (r.relist n v readers) :=
  ⟨(Move.relist readers h).moves, Run.frames_relist .., sameCores_relist h readers⟩

theorem steady_write (r : Run) (line : LogLine) : Steady r (r.write line) :=
  ⟨(Move.write line).moves, rfl, SameCores.refl _⟩

theorem lookup?_relist_self (r : Run) (n : Ident) (v : Variable) (readers : OrderedSet Ident) :
    (r.relist n v readers).world.lookup? n = some { v with children := readers } := by
  rw [lookup?_relist, if_pos (BEq.refl n)]

/-- The log line for a mark. -/
def markLine (n : Ident) : LogLine := ⟨.trace, "Marked " ++ n.text ++ " for delete"⟩

/-- The log line for a revival. -/
def reviveLine (n : Ident) : LogLine := ⟨.trace, "Revived " ++ n.text⟩

/-- Whether a variable that has just lost a reader goes with it. -/
def Run.abandons (r : Run) (n : Ident) (readers : OrderedSet Ident) : Bool :=
  readers.isEmpty && !r.isProtected n && !r.world.overlay.isMarked n

/-- Detaching, one link of the chain at a time. -/
theorem detachWithin_succ (depth : Nat) (c p : Ident) (r : Run) :
    detachWithin (depth + 1) c p r = match r.world.lookup? p with
      | none => .error (.notFound p) r
      | some v =>
        let r₁ := r.relist p v (v.children.erase c)
        if r₁.abandons p (v.children.erase c) then
          (v.parents.toList.forM (detachWithin depth p) : Step Unit)
            ((r₁.marking p).write (markLine p))
        else .ok () r₁ := by
  rw [detachWithin]
  change EStateM.bind (setReaders p _) _ r = _
  rw [EStateM.bind, setReaders_eq]
  cases hp : r.world.lookup? p with
  | none => rfl
  | some v =>
    simp only
    change (ite _ _ _ : Step Unit) (r.relist p v (v.children.erase c)) = _
    rw [← Run.abandons]
    by_cases hc : (r.relist p v (v.children.erase c)).abandons p (v.children.erase c) = true
    · rw [if_pos hc, if_pos hc]
      have hl : ((r.relist p v (v.children.erase c)).marking p).world.lookup? p =
          some { v with children := v.children.erase c } := by
        rw [Run.world_marking, lookup?_marking, lookup?_relist_self]
      change EStateM.bind (lookup p) _ (((r.relist p v (v.children.erase c)).marking p).write _) = _
      rw [EStateM.bind, lookup, find, Run.world_write, hl]
      rfl
    · rw [if_neg hc, if_neg hc]
      rfl

/-- Steady moves that take no mark away. -/
structure Sheds (r r' : Run) : Prop extends Steady r r' where
  marks : ∀ n, r.world.overlay.isMarked n = true → r'.world.overlay.isMarked n = true

theorem Sheds.refl (r : Run) : Sheds r r := ⟨Steady.refl r, fun _ h => h⟩

theorem Sheds.trans {a b c : Run} (h : Sheds a b) (h' : Sheds b c) : Sheds a c :=
  ⟨h.toSteady.trans h'.toSteady, fun n hn => h'.marks n (h.marks n hn)⟩

@[simp] theorem isMarked_replace (r : Run) (n : Ident) (v v' : Variable) (k : Ident) :
    (r.replace n v v').world.overlay.isMarked k = r.world.overlay.isMarked k := by
  rw [Run.world_replace, isMarked_put, isMarked_put]

@[simp] theorem isMarked_relist (r : Run) (n : Ident) (v : Variable) (readers : OrderedSet Ident)
    (k : Ident) : (r.relist n v readers).world.overlay.isMarked k = r.world.overlay.isMarked k :=
  isMarked_replace ..

theorem sheds_relist (h : r.world.lookup? n = some v) (readers : OrderedSet Ident) :
    Sheds r (r.relist n v readers) :=
  ⟨steady_relist h readers, fun k hk => by rwa [isMarked_relist]⟩

/-- A variable that goes with its last reader is marked, which is a move. -/
theorem sheds_marking {readers : OrderedSet Ident} (h : r.world.lookup? n = some v)
    (hv : v.children = readers) (ha : r.abandons n readers = true) :
    Sheds r ((r.marking n).write (markLine n)) := by
  simp only [Run.abandons, Bool.and_eq_true, Bool.not_eq_true'] at ha
  obtain ⟨⟨hr, hp⟩, hm⟩ := ha
  have hu : v.children.toList = [] := by
    rw [hv]
    exact List.isEmpty_iff.1 hr
  have hs : r.world.SameCores (r.marking n).world := fun k => by
    rw [Run.world_marking, lookup?_marking]
  refine ⟨Steady.trans ⟨(Move.mark h hu hp hm).moves, Run.frames_marking .., hs⟩ (steady_write ..),
    fun k hk => ?_⟩
  rw [Run.world_write, Run.world_marking, isMarked_marking, hk, Bool.true_or]

theorem sheds_detachWithin (depth : Nat) (c p : Ident) (r : Run) :
    Sheds r ((detachWithin depth c p).after r) := by
  induction depth generalizing c p r with
  | zero => exact Sheds.refl r
  | succ depth ih =>
    rw [Step.after, detachWithin_succ]
    cases hp : r.world.lookup? p with
    | none => exact Sheds.refl r
    | some v =>
      have hr := sheds_relist hp (v.children.erase c)
      simp only
      by_cases ha : (r.relist p v (v.children.erase c)).abandons p (v.children.erase c) = true
      · rw [if_pos ha]
        refine hr.trans ((sheds_marking (lookup?_relist_self ..) rfl ha).trans ?_)
        exact Step.after_forM Sheds.refl Sheds.trans (fun q r => ih p q r) _
      · rw [if_neg ha]
        exact hr

/-- **Detaching makes moves only**: it leaves the stack alone and takes no mark away. -/
theorem sheds_detach (c p : Ident) (r : Run) : Sheds r ((detach c p).after r) :=
  sheds_detachWithin _ c p r

/-- The same for a variable that is detached from several others. -/
theorem sheds_forM_detach {c : Ident} {ps : List Ident}
    (h : (ps.forM (detach c) : Step Unit) r = .ok () r') : Sheds r r' :=
  Step.after_eq_of_ok h ▸ Step.after_forM Sheds.refl Sheds.trans (sheds_detach c) r

/-- Every variable of a world is there in the other one and has at least the readers it had. -/
def KeepsReaders (w w' : World) : Prop :=
  ∀ {n v}, w.lookup? n = some v →
    ∃ v', w'.lookup? n = some v' ∧ ∀ c, v.children.contains c = true → v'.children.contains c = true

theorem KeepsReaders.refl (w : World) : w.KeepsReaders w := fun hv => ⟨_, hv, fun _ hc => hc⟩

/-- Steady moves that make no mark and take no reader away. -/
structure Restores (r r' : Run) : Prop extends Steady r r' where
  marks : ∀ n, r'.world.overlay.isMarked n = true → r.world.overlay.isMarked n = true
  readers : r.world.KeepsReaders r'.world

theorem Restores.refl (r : Run) : Restores r r :=
  ⟨Steady.refl r, fun _ h => h, KeepsReaders.refl _⟩

theorem Restores.trans {a b c : Run} (h : Restores a b) (h' : Restores b c) : Restores a c := by
  refine ⟨h.toSteady.trans h'.toSteady, fun n hn => h.marks n (h'.marks n hn), fun hv => ?_⟩
  obtain ⟨v₁, hv₁, hc₁⟩ := h.readers hv
  obtain ⟨v₂, hv₂, hc₂⟩ := h'.readers hv₁
  exact ⟨v₂, hv₂, fun k hk => hc₂ k (hc₁ k hk)⟩

theorem restores_write (r : Run) (line : LogLine) : Restores r (r.write line) :=
  ⟨steady_write r line, fun _ h => h, KeepsReaders.refl _⟩

theorem keepsReaders_relist_insert (h : r.world.lookup? n = some v) (k : Ident) :
    r.world.KeepsReaders (r.relist n v (v.children.insert k)).world := by
  intro n' v' hv'
  rw [lookup?_relist]
  by_cases hn : (n == n') = true
  · rw [if_pos hn]
    rw [← lookup?_congr _ hn, h] at hv'
    cases hv'
    refine ⟨_, rfl, fun c hc => ?_⟩
    rw [OrderedSet.contains_insert, hc, Bool.true_or]
  · rw [if_neg hn]
    exact ⟨v', hv', fun _ hc => hc⟩

theorem attach_eq (c p : Ident) (r : Run) :
    attach c p r = match r.world.lookup? p with
      | none => .error (.notFound p) r
      | some v =>
        if v.children.contains c then .ok () r
        else .ok () (r.relist p v (v.children.insert c)) := by
  change EStateM.bind (lookup p) _ r = _
  rw [EStateM.bind, lookup, find]
  cases hp : r.world.lookup? p with
  | none => rfl
  | some v =>
    simp only
    cases hc : v.children.contains c with
    | true => rfl
    | false =>
      change EStateM.map _ (setReaders p _) r = _
      rw [EStateM.map, setReaders_eq, hp]
      rfl

theorem restores_attach (c p : Ident) (r : Run) : Restores r ((attach c p).after r) := by
  rw [Step.after, attach_eq]
  cases hp : r.world.lookup? p with
  | none => exact Restores.refl r
  | some v =>
    simp only
    by_cases hc : v.children.contains c = true
    · rw [if_pos hc]
      exact Restores.refl r
    · rw [if_neg hc]
      exact ⟨steady_relist hp _, fun k hk => by rwa [Step.final, isMarked_relist] at hk,
        keepsReaders_relist_insert hp c⟩

/-- Reviving a variable, one link of the chain at a time: each parent is revived if it is
marked, and then attached. -/
theorem reviveWithin_succ (depth : Nat) (n : Ident) (r : Run) :
    reviveWithin (depth + 1) n r =
      let r₁ := (r.mapOverlay (·.unmark n)).write (reviveLine n)
      match r.world.lookup? n with
      | none => .error (.notFound n) r₁
      | some v => (v.parents.toList.forM fun p => do
          if (← get).world.overlay.isMarked p then reviveWithin depth p
          attach n p : Step Unit) r₁ := by
  rw [reviveWithin]
  change EStateM.bind (lookup n) _ ((r.mapOverlay (·.unmark n)).write (reviveLine n)) = _
  have hl : ((r.mapOverlay (·.unmark n)).write (reviveLine n)).world.lookup? n =
      r.world.lookup? n := rfl
  rw [EStateM.bind, lookup, find, hl]
  cases r.world.lookup? n <;> rfl

theorem restores_unmark (r : Run) (n : Ident) :
    Restores r ((r.mapOverlay (·.unmark n)).write (reviveLine n)) := by
  refine ⟨Steady.trans ⟨(Move.unmark n).moves, rfl, SameCores.refl _⟩ (steady_write ..),
    fun k hk => ?_, KeepsReaders.refl _⟩
  change (r.world.unmarking n).overlay.isMarked k = true at hk
  rw [isMarked_unmarking, Bool.and_eq_true] at hk
  exact hk.1

/-- One parent of a revived variable: revived if it is marked, and then attached. -/
theorem restores_reviveLink {f : Ident → Step Unit} (hf : ∀ p r, Restores r ((f p).after r))
    (n p : Ident) (r : Run) :
    Restores r (Step.after (do
      if (← get).world.overlay.isMarked p then f p
      attach n p) r) := by
  refine Step.after_bind (R := Restores) Restores.trans (Restores.refl r) fun s r₁ hs => ?_
  simp only
  split
  · exact Step.after_bind (R := Restores) Restores.trans (hf p r₁) fun _ r₂ _ =>
      restores_attach n p r₂
  · exact restores_attach n p r₁

theorem restores_reviveWithin (depth : Nat) (n : Ident) (r : Run) :
    Restores r ((reviveWithin depth n).after r) := by
  induction depth generalizing n r with
  | zero => exact Restores.refl r
  | succ depth ih =>
    rw [Step.after, reviveWithin_succ]
    cases r.world.lookup? n with
    | none => exact restores_unmark r n
    | some v =>
      exact (restores_unmark r n).trans
        (Step.after_forM Restores.refl Restores.trans (fun p r => restores_reviveLink ih n p r) _)

/-- **Reviving makes moves only**: it leaves the stack alone and makes no mark. -/
theorem restores_revive (n : Ident) (r : Run) : Restores r ((revive n).after r) :=
  restores_reviveWithin _ n r

/-! ## Reading -/

/-- The identifiers of the programs that are running. -/
def Run.running (r : Run) : List Ident := r.frames.map Frame.node

theorem Run.any_frames_iff (r : Run) (n : Ident) :
    (r.frames.any fun f => f.node == n) = true ↔ ∃ k ∈ r.running, (k == n) = true := by
  rw [Run.running, ← List.any_eq_true, List.any_map]
  rfl

/-- A variable that has no frame differs from those that have one. -/
theorem Run.ne_of_mem_running (h : ¬ (r.frames.any fun f => f.node == n) = true) :
    ∀ k ∈ r.running, (n == k) = false := by
  intro k hk
  exact Bool.eq_false_iff.2 fun hn => h ((r.any_frames_iff n).2 ⟨k, hk, BEq.symm hn⟩)

/-- Moves that make no mark, that keep the identifiers on the stack and all of it below the top,
and that create no variable on it. -/
structure Progress (r r' : Run) : Prop where
  moves : Moves r r'
  marks : ∀ n, r'.world.overlay.isMarked n = true → r.world.overlay.isMarked n = true
  running : r'.running = r.running
  below : r'.frames.tail = r.frames.tail
  absent : ∀ k ∈ r.running, r.world.lookup? k = none → r'.world.lookup? k = none

theorem Progress.refl (r : Run) : Progress r r :=
  ⟨Moves.refl r, fun _ h => h, rfl, rfl, fun _ _ h => h⟩

theorem Progress.trans {a b c : Run} (h : Progress a b) (h' : Progress b c) : Progress a c where
  moves := h.moves.trans h'.moves
  marks n hn := h.marks n (h'.marks n hn)
  running := h'.running.trans h.running
  below := h'.below.trans h.below
  absent k hk ha := h'.absent k (h.running ▸ hk) (h.absent k hk ha)

theorem SameCores.lookup?_eq_none {w w' : World} (h : w.SameCores w') (hn : w.lookup? n = none) :
    w'.lookup? n = none := by
  have hm := h n
  rw [hn] at hm
  exact Option.map_eq_none_iff.1 hm

theorem Restores.progress (h : Restores r r') : Progress r r' where
  moves := h.moves
  marks := h.marks
  running := congrArg (List.map Frame.node) h.frames
  below := congrArg List.tail h.frames
  absent _ _ ha := h.cores.lookup?_eq_none ha

/-- Progress after which the stack is as it was. -/
def Returns (r r' : Run) : Prop := Progress r r' ∧ r'.frames = r.frames

theorem Returns.trans {a b c : Run} (h : Returns a b) (h' : Returns b c) : Returns a c :=
  ⟨h.1.trans h'.1, h'.2.trans h.2⟩

theorem Restores.returns (h : Restores r r') : Returns r r' := ⟨h.progress, h.frames⟩

/-- Executing a program makes moves only, none of which is a mark, and leaves the stack as it
was; meanwhile neither the variable being generated nor any other on the stack is created. -/
def Executor.Proceeds (ex : Executor) : Prop :=
  ∀ n r, Returns r ((ex n).after r) ∧
    (r.world.lookup? n = none → ((ex n).after r).world.lookup? n = none)

/-- The run with one more value drawn. -/
def Run.drawing (r : Run) : Run :=
  { r with world := { r.world with drawn := r.world.drawn + 1 } }

/-- A fresh value is the observed one, or is drawn. -/
theorem freshValue_eq_ok {m : Model} {d : Distribution} {value : Tensor Float}
    (h : freshValue m n d r = .ok value r') :
    (r.world.observations.get? n = some value ∧ r' = r) ∨
      (r.world.observations.get? n = none ∧ m.draw? r.world.drawn d = .ok value ∧
        r' = r.drawing) := by
  obtain ⟨s, r₁, hs, h⟩ := Step.bind_eq_ok.1 h
  obtain ⟨rfl, rfl⟩ := Step.get_eq_ok.1 hs
  cases ho : s.world.observations.get? n with
  | some o =>
    rw [ho] at h
    obtain ⟨rfl, rfl⟩ := Step.pure_eq_ok.1 h
    exact .inl ⟨rfl, rfl⟩
  | none =>
    rw [ho] at h
    simp only [draw] at h
    cases hd : m.draw? s.world.drawn d with
    | ok v =>
      rw [hd] at h
      cases h
      exact .inr ⟨rfl, rfl, rfl⟩
    | error e =>
      rw [hd] at h
      cases h

theorem restores_drawing (r : Run) : Restores r r.drawing :=
  ⟨⟨Move.draw.moves, rfl, SameCores.refl _⟩, fun _ h => h, KeepsReaders.refl _⟩

theorem restores_freshValue (m : Model) (n : Ident) (d : Distribution) (r : Run) :
    Restores r ((freshValue m n d).after r) := by
  refine Step.after_bind (R := Restores) Restores.trans (Restores.refl r) fun s r₁ _ => ?_
  split
  · exact Restores.refl r₁
  · rw [Step.after, draw]
    cases m.draw? r₁.world.drawn d with
    | ok v => exact restores_drawing r₁
    | error e => exact Restores.refl r₁

/-- The log line for a new variable. -/
def createLine (n : Ident) (value : Tensor Float) : LogLine :=
  ⟨.trace, "Created " ++ n.text ++ " = " ++ value.text⟩

/-- Creating a variable that succeeds, taken apart. -/
theorem create_eq_ok {m : Model} {ex : Executor} :
    create m ex n r = .ok () r' ↔ ∃ d parents r₁ value r₂, ex n r = .ok (d, parents) r₁ ∧
      freshValue m n d r₁ = .ok value r₂ ∧
      r' = (r₂.write (createLine n value)).creating n
        (.create d value parents r₂.world.config.transformConstrained) := by
  unfold create
  rw [Step.bind_eq_ok]
  constructor
  · rintro ⟨⟨d, parents⟩, r₁, hx, h⟩
    obtain ⟨value, r₂, hv, h⟩ := Step.bind_eq_ok.1 h
    cases h
    exact ⟨d, parents, r₁, value, r₂, hx, hv, rfl⟩
  · rintro ⟨d, parents, r₁, value, r₂, hx, hv, rfl⟩
    refine ⟨(d, parents), r₁, hx, Step.bind_eq_ok.2 ⟨value, r₂, hv, rfl⟩⟩

theorem returns_creating {d : Distribution} {value : Tensor Float} {parents : OrderedSet Ident}
    (hn : r.world.lookup? n = none) (hr : ∀ k ∈ r.running, (n == k) = false)
    (ho : ∀ o, r.world.observations.get? n = some o → value = o) :
    Returns r (r.creating n (.create d value parents r.world.config.transformConstrained)) := by
  refine ⟨⟨(Move.create d value parents hn ho).moves, fun _ h => h, rfl, rfl, fun k hk ha => ?_⟩,
    rfl⟩
  rw [Run.world_creating, lookup?_put, hr k hk]
  exact ha

theorem returns_create {m : Model} {ex : Executor} (hex : ex.Proceeds)
    (hn : r.world.lookup? n = none) (hr : ∀ k ∈ r.running, (n == k) = false) :
    Returns r ((create m ex n).after r) := by
  obtain ⟨hx, ha⟩ := hex n r
  refine Step.after_bind (R := Returns) Returns.trans hx fun a r₁ h₁ => ?_
  rw [Step.after_eq_of_ok h₁] at hx ha
  have hs := restores_freshValue m n a.1 r₁
  refine Step.after_bind (R := Returns) Returns.trans hs.returns fun value r₂ h₂ => ?_
  rw [Step.after_eq_of_ok h₂] at hs
  -- The variable is still not there: its program ran with it on the stack.
  have hn₂ : r₂.world.lookup? n = none := hs.cores.lookup?_eq_none (ha hn)
  have hr₂ : r₂.running = r.running := (hx.trans hs.returns).1.running
  refine Returns.trans (restores_write r₂ (createLine n value)).returns
    (returns_creating hn₂ (fun k hk => hr k (hr₂ ▸ hk)) fun o ho => ?_)
  rcases freshValue_eq_ok h₂ with ⟨hov, rfl⟩ | ⟨hon, -, rfl⟩
  · exact Option.some.inj (hov.symm.trans ho)
  · cases hon.symm.trans ho

theorem returns_provide {m : Model} {ex : Executor} (hex : ex.Proceeds)
    (hr : ∀ k ∈ r.running, (n == k) = false) : Returns r ((provide m ex n).after r) := by
  change Returns r (Step.after (ite _ _ _ : Step Unit) r)
  split
  · next hn =>
    refine returns_create hex ?_ hr
    simpa [contains] using hn
  · split
    · exact (restores_revive n r).returns
    · exact (Restores.refl r).returns

/-- The run in which the innermost program has read a variable. -/
def Run.noting (r : Run) (n : Ident) : Run :=
  match r.frames with
  | [] => r
  | f :: frames => { r with frames := { f with parents := f.parents.insert n } :: frames }

theorem connect_eq (n : Ident) (r : Run) :
    connect n r = match r.frames with
      | [] => .ok () r
      | f :: _ => attach f.node n (r.noting n) := by
  change (match r.frames with
    | [] => (pure () : Step Unit)
    | f :: frames => do
      modify fun s : Run => { s with frames := { f with parents := f.parents.insert n } :: frames }
      attach f.node n) r = _
  unfold Run.noting
  cases r.frames <;> rfl

theorem progress_noting (r : Run) (n : Ident) : Progress r (r.noting n) := by
  unfold Run.noting
  split
  · exact Progress.refl r
  · next f frames hf =>
    refine ⟨(Move.frames _).moves, fun _ h => h, ?_, ?_, fun _ _ ha => ha⟩
    · simp [Run.running, hf]
    · simp [hf]

theorem progress_connect (n : Ident) (r : Run) : Progress r ((connect n).after r) := by
  rw [Step.after, connect_eq]
  split
  · exact Progress.refl r
  · exact (progress_noting r n).trans (restores_attach _ n _).progress

/-- **A read makes moves only**, however it ends, and keeps the stack but for what the innermost
program has read. -/
theorem progress_read {m : Model} {ex : Executor} (hex : ex.Proceeds) (n : Ident) (r : Run) :
    Progress r ((read m ex n).after r) := by
  change Progress r (Step.after (ite _ _ _ : Step (Tensor Float)) r)
  split
  · exact Progress.refl r
  · next hn =>
    refine Step.after_bind (R := Progress) Progress.trans
      (returns_provide hex (Run.ne_of_mem_running hn)).1 fun _ r₁ _ => ?_
    refine Step.after_bind (R := Progress) Progress.trans (progress_connect n r₁) fun _ r₂ _ => ?_
    refine Step.after_bind (R := Progress) Progress.trans ?_ fun v r₃ _ => Progress.refl r₃
    rw [Step.after_lookup]
    exact Progress.refl r₂

theorem progress_run {α : Type} {answer : Ident → Step (Except Error (Tensor Float))}
    (ha : ∀ n r, Progress r ((answer n).after r)) (program : Program α) (r : Run) :
    Progress r ((program.run answer throw).after r) := by
  induction program generalizing r with
  | done a => exact Progress.refl r
  | fail e => exact Progress.refl r
  | ask n next ih =>
    exact Step.after_bind (R := Progress) Progress.trans (ha n r) fun a r₁ _ => ih a r₁

theorem moves_of_run {m : Model} {ex : Executor} (hex : ex.Proceeds) {α : Type}
    {program : Program α} {a : α}
    (h : program.run (fun p => (read m ex p).attempt) throw r = .ok a r') : Moves r r' := by
  rw [← Step.after_eq_of_ok h]
  refine (progress_run (fun p r => ?_) program r).moves
  rw [Step.after_attempt]
  exact progress_read hex p r

theorem after_withFrame (n : Ident) (body : Step Distribution) (r : Run) :
    (withFrame n body).after r =
      let r₁ := body.after { r with frames := ⟨n, .empty⟩ :: r.frames }
      { r₁ with frames := r₁.frames.tail } := by
  unfold Step.after withFrame
  cases body { r with frames := ⟨n, .empty⟩ :: r.frames } <;> rfl

theorem returns_withFrame {n : Ident} {body : Step Distribution}
    (hb : ∀ r, Progress r (body.after r)) (r : Run) :
    Returns r ((withFrame n body).after r) ∧
      (r.world.lookup? n = none → ((withFrame n body).after r).world.lookup? n = none) := by
  have h := hb { r with frames := ⟨n, .empty⟩ :: r.frames }
  rw [after_withFrame]
  have hf : (body.after { r with frames := ⟨n, .empty⟩ :: r.frames }).frames.tail = r.frames :=
    h.below
  refine ⟨⟨⟨?_, h.marks, congrArg (List.map Frame.node) hf, congrArg List.tail hf,
    fun k hk => h.absent k (List.mem_cons_of_mem _ hk)⟩, hf⟩, h.absent n List.mem_cons_self⟩
  exact ((Move.frames _).moves.trans h.moves).trans (Move.frames _).moves

/-- **Programs make moves only**, to any depth of nesting, and however they end. -/
theorem execute_proceeds (m : Model) (depth : Nat) : (execute m depth).Proceeds := by
  induction depth with
  | zero => exact fun n r => ⟨(Restores.refl r).returns, fun ha => ha⟩
  | succ depth ih =>
    intro n r
    refine returns_withFrame (fun r => progress_run (fun p r => ?_) (m.program n) r) r
    rw [Step.after_attempt]
    exact progress_read ih p r

theorem moves_of_execute {m : Model} {depth : Nat} {result : Distribution × OrderedSet Ident}
    (h : execute m depth n r = .ok result r') : Moves r r' := by
  rw [← Step.after_eq_of_ok h]
  exact (execute_proceeds m depth n r).1.1.moves

end Stochastic.World
