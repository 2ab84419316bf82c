import Stochastic.Proofs.World.Move

/-!
# What an executed program has done

A program that propagates errors and succeeds has been answered at every read.  The values it
was given do not change while it runs, so running it once more against the values that
variables have afterwards reads the same variables and comes to the same distribution.  These
variables are what its frame has recorded.

An invariant of runs that is kept when a program begins, when a variable is revived, when it is
connected to its reader and when it is created, is kept by every successful execution, to any
depth of nesting.

## Main definitions

* `Program.against` — what a program reads and comes to, given the values of variables.
* `World.Ran` — a program comes to a distribution and reads a set of variables.
* `World.Sustained` — an invariant that reading keeps.

## Main results

* `World.grows_of_moves` — nothing goes away while programs run.
* `World.read_eq_ok`, `World.run_ask_eq_ok`, `World.execute_succ_eq_ok` — what has succeeded if a
  read, a program that begins with a read, or an execution has.
* `World.execute_sustains` — executing a program keeps every sustained invariant, and the
  program has run.
-/

namespace Stochastic

/-- What a program reads and comes to if variables have the given values; nothing if it fails,
or reads a variable that has none. -/
def Program.against {α : Type} (values : Ident → Option (Tensor Float)) :
    Program α → Option (List Ident × α)
  | .done a => some ([], a)
  | .fail _ => none
  | .ask n next =>
    match values n with
    | none => none
    | some v => ((next (.ok v)).against values).map fun result => (n :: result.1, result.2)

/-- A program only depends on the values that it reads. -/
theorem Program.against_congr {α : Type} {values values' : Ident → Option (Tensor Float)}
    {program : Program α} {reads : List Ident} {a : α}
    (h : program.against values = some (reads, a)) (hv : ∀ n ∈ reads, values' n = values n) :
    program.against values' = some (reads, a) := by
  induction program generalizing reads with
  | done b => exact h
  | fail e => cases h
  | ask n next ih =>
    unfold against at h ⊢
    cases hn : values n with
    | none =>
      rw [hn] at h
      cases h
    | some v =>
      rw [hn] at h
      obtain ⟨⟨reads', b⟩, h', heq⟩ := Option.map_eq_some_iff.1 h
      cases heq
      rw [hv n List.mem_cons_self, hn]
      simp only
      rw [ih _ h' fun k hk => hv k (List.mem_cons_of_mem _ hk), Option.map_some]

/-- Whatever a program reads has a value. -/
theorem Program.exists_value_of_against {α : Type} {values : Ident → Option (Tensor Float)}
    {program : Program α} {reads : List Ident} {a : α}
    (h : program.against values = some (reads, a)) {n : Ident} (hn : n ∈ reads) :
    ∃ v, values n = some v := by
  induction program generalizing reads with
  | done b =>
    cases h
    cases hn
  | fail e => cases h
  | ask k next ih =>
    unfold against at h
    cases hk : values k with
    | none =>
      rw [hk] at h
      cases h
    | some v =>
      rw [hk] at h
      obtain ⟨⟨reads', b⟩, h', heq⟩ := Option.map_eq_some_iff.1 h
      cases heq
      rcases List.mem_cons.1 hn with rfl | hn
      · exact ⟨v, hk⟩
      · exact ih _ h' hn

namespace World

variable {w w' w'' : World} {r r' r'' : Run} {n k : Ident} {v : Variable} {m : Model}

/-! ## Nothing goes away -/

/-- The value of a variable, be it marked or not. -/
def known (w : World) (n : Ident) : Option (Tensor Float) := (w.lookup? n).map Variable.value

/-- Variables may have been added, but none is gone or different, up to who reads it; and what
is committed, observed, queried and configured is the same. -/
structure Grows (w w' : World) : Prop where
  exists_core : ∀ {n v}, w.lookup? n = some v → ∃ v', w'.lookup? n = some v' ∧ v'.core = v.core
  committed : w'.committed = w.committed
  config : w'.config = w.config
  observations : w'.observations = w.observations
  queries : w'.queries = w.queries

theorem Grows.refl (w : World) : w.Grows w := ⟨fun hv => ⟨_, hv, rfl⟩, rfl, rfl, rfl, rfl⟩

theorem Grows.trans (h : w.Grows w') (h' : w'.Grows w'') : w.Grows w'' where
  exists_core hv := by
    obtain ⟨v₁, hv₁, hc₁⟩ := h.exists_core hv
    obtain ⟨v₂, hv₂, hc₂⟩ := h'.exists_core hv₁
    exact ⟨v₂, hv₂, hc₂.trans hc₁⟩
  committed := h'.committed.trans h.committed
  config := h'.config.trans h.config
  observations := h'.observations.trans h.observations
  queries := h'.queries.trans h.queries

theorem value_of_core {v v' : Variable} (h : v'.core = v.core) : v'.value = v.value := by
  have hv := congrArg Variable.value h
  exact hv

theorem distribution_of_core {v v' : Variable} (h : v'.core = v.core) :
    v'.distribution = v.distribution := by
  have hv := congrArg Variable.distribution h
  exact hv

/-- Values that are known stay known. -/
theorem Grows.known_eq (h : w.Grows w') {x : Tensor Float} (hx : w.known n = some x) :
    w'.known n = some x := by
  obtain ⟨v, hv, rfl⟩ := Option.map_eq_some_iff.1 hx
  obtain ⟨v', hv', hc⟩ := h.exists_core hv
  rw [known, hv', Option.map_some, value_of_core hc]

theorem grows_creating (hn : r.world.lookup? n = none) (v : Variable) :
    r.world.Grows (r.creating n v).world := by
  refine ⟨fun {k v'} hv' => ⟨v', ?_, rfl⟩, rfl, rfl, rfl, rfl⟩
  rw [Run.world_creating, lookup?_put, if_neg, hv']
  intro hk
  rw [lookup?_congr _ hk, hv'] at hn
  cases hn

theorem grows_of_move (h : Move r r') : r.world.Grows r'.world := by
  cases h with
  | relist readers found =>
    refine ⟨(sameCores_relist found readers).exists_core, ?_, ?_, ?_, ?_⟩ <;>
      rw [Run.relist, Run.world_replace] <;> rfl
  | mark found unread unprotected unmarked =>
    rw [Run.world_marking]
    exact ⟨fun hv => ⟨_, hv, rfl⟩, rfl, rfl, rfl, rfl⟩
  | unmark n => exact ⟨fun hv => ⟨_, hv, rfl⟩, rfl, rfl, rfl, rfl⟩
  | create d value parents absent observed => exact grows_creating absent _
  | draw => exact ⟨fun hv => ⟨_, hv, rfl⟩, rfl, rfl, rfl, rfl⟩
  | write line => exact Grows.refl _
  | frames frames => exact Grows.refl _

/-- **Nothing goes away while programs run**: a variable that is there stays, with its
distribution, value and parents. -/
theorem grows_of_moves (h : Moves r r') : r.world.Grows r'.world := by
  induction h with
  | refl => exact Grows.refl _
  | tail _ hm ih => exact ih.trans (grows_of_move hm)

/-! ## Reads taken apart -/

/-- Making a variable live is creating it, reviving it, or nothing. -/
theorem provide_eq_ok {ex : Executor} (h : provide m ex n r = .ok () r') :
    (r.world.lookup? n = none ∧ create m ex n r = .ok () r') ∨
      (r.world.overlay.isMarked n = true ∧ revive n r = .ok () r') ∨
      ((∃ v, r.world.live? n = some v) ∧ r' = r) := by
  change (ite ((!r.world.contains n) = true) _ _ : Step Unit) r = _ at h
  cases hv : r.world.lookup? n with
  | none =>
    rw [if_pos (by rw [contains, hv]; rfl)] at h
    exact .inl ⟨rfl, h⟩
  | some v =>
    rw [if_neg (by rw [contains, hv]; exact Bool.false_ne_true)] at h
    by_cases hm : r.world.overlay.isMarked n = true
    · rw [if_pos hm] at h
      exact .inr (.inl ⟨hm, h⟩)
    · rw [if_neg hm] at h
      obtain ⟨-, rfl⟩ := Step.pure_eq_ok.1 h
      exact .inr (.inr ⟨⟨v, live?_eq_some.2 ⟨Bool.eq_false_iff.2 hm, hv⟩⟩, rfl⟩)

/-- A successful read makes the variable live, connects it to its reader, and returns its
value. -/
theorem read_eq_ok {ex : Executor} {x : Tensor Float} (h : read m ex n r = .ok x r') :
    (∀ k ∈ r.running, (n == k) = false) ∧ ∃ r₁, provide m ex n r = .ok () r₁ ∧
      connect n r₁ = .ok () r' ∧ r'.world.known n = some x := by
  change (ite ((r.frames.any fun f => f.node == n) = true) _ _ : Step (Tensor Float)) r = _ at h
  by_cases hc : (r.frames.any fun f => f.node == n) = true
  · rw [if_pos hc] at h
    exact absurd h Step.throw_ne_ok
  · rw [if_neg hc] at h
    obtain ⟨⟨⟩, r₁, hp, h⟩ := Step.bind_eq_ok.1 h
    obtain ⟨⟨⟩, r₂, hcn, h⟩ := Step.bind_eq_ok.1 h
    obtain ⟨v, r₃, hl, h⟩ := Step.bind_eq_ok.1 h
    obtain ⟨rfl, rfl⟩ := Step.pure_eq_ok.1 h
    obtain ⟨rfl, hv⟩ := Step.lookup_eq_ok.1 hl
    exact ⟨Run.ne_of_mem_running hc, r₁, hp, hcn, by rw [known, hv]; rfl⟩

/-- Connecting records the read in the innermost frame and leaves the rest of the stack. -/
theorem frames_of_connect {f : Frame} {fs : List Frame} (h : connect n r = .ok () r')
    (hf : r.frames = f :: fs) :
    r'.frames = { f with parents := f.parents.insert n } :: fs := by
  rw [connect_eq, hf] at h
  have ha := (restores_attach f.node n (r.noting n)).frames
  rw [Step.after_eq_of_ok h] at ha
  rw [ha, Run.noting, hf]

/-- A successful read is recorded in the innermost frame. -/
theorem frames_of_read {ex : Executor} (hp : ex.Proceeds) {x : Tensor Float} {f : Frame}
    {fs : List Frame} (h : read m ex n r = .ok x r') (hf : r.frames = f :: fs) :
    r'.frames = { f with parents := f.parents.insert n } :: fs := by
  obtain ⟨hrunning, r₁, hpr, hc, -⟩ := read_eq_ok h
  apply frames_of_connect hc
  rw [← hf, ← Step.after_eq_of_ok hpr]
  exact (returns_provide hp hrunning).2

/-- A program that propagates errors cannot succeed after a read that failed.  So if it begins
with a read and succeeds, then the read has succeeded, and so has the rest of it. -/
theorem run_ask_eq_ok {ex : Executor} {α : Type}
    {next : Except Error (Tensor Float) → Program α} {a : α}
    (hprog : (Program.ask n next).Propagates)
    (h : (Program.ask n next).run (fun p => (read m ex p).attempt) throw r = .ok a r') :
    ∃ x r₁, read m ex n r = .ok x r₁ ∧
      (next (.ok x)).run (fun p => (read m ex p).attempt) throw r₁ = .ok a r' := by
  obtain ⟨answer, r₁, hattempt, hrest⟩ := Step.bind_eq_ok.1 h
  rcases Step.attempt_eq_ok hattempt with ⟨x, rfl, hread⟩ | ⟨e, rfl⟩
  · exact ⟨x, r₁, hread, hrest⟩
  · obtain ⟨e', he'⟩ := hprog.1 e
    rw [he'] at hrest
    exact absurd hrest Step.throw_ne_ok

/-- An execution that succeeds runs the program in a frame of its own. -/
theorem execute_succ_eq_ok {depth : Nat} {d : Distribution} {parents : OrderedSet Ident}
    (h : execute m (depth + 1) n r = .ok (d, parents) r') :
    ∃ r₁, (m.program n).run (fun p => (read m (execute m depth) p).attempt) throw
        { r with frames := ⟨n, .empty⟩ :: r.frames } = .ok d r₁ ∧
      parents = (r₁.frames.head?.map Frame.parents).getD .empty ∧
      r' = { r₁ with frames := r₁.frames.tail } := by
  rw [execute, withFrame] at h
  generalize hb : (m.program n).run (fun p => (read m (execute m depth) p).attempt) throw
    { r with frames := ⟨n, .empty⟩ :: r.frames } = ending at h
  cases ending with
  | error e r₁ => cases h
  | ok d₁ r₁ =>
    cases h
    exact ⟨r₁, rfl, rfl, rfl⟩

/-! ## Invariants of runs -/

/-- With the given values of variables, the program of `n` reads the variables in `parents` and
comes to the distribution `d`. -/
def Ran (m : Model) (values : Ident → Option (Tensor Float)) (n : Ident) (d : Distribution)
    (parents : OrderedSet Ident) : Prop :=
  ∃ reads, (m.program n).against values = some (reads, d) ∧
    ∀ p, parents.contains p = reads.contains p

/-- Only the values of the variables that are read matter. -/
theorem Ran.congr {values values' : Ident → Option (Tensor Float)} {d : Distribution}
    {parents : OrderedSet Ident} (h : Ran m values n d parents)
    (hv : ∀ p x, parents.contains p = true → values p = some x → values' p = some x) :
    Ran m values' n d parents := by
  obtain ⟨reads, hr, hp⟩ := h
  refine ⟨reads, Program.against_congr hr fun k hk => ?_, hp⟩
  obtain ⟨x, hx⟩ := Program.exists_value_of_against hr hk
  have hk : parents.contains k = true := by
    rw [hp]
    exact List.contains_iff_exists_mem_beq.2 ⟨k, hk, BEq.refl k⟩
  rw [hx, hv k x hk hx]

/-- What has run would run the same way later on. -/
theorem Ran.grows {d : Distribution} {parents : OrderedSet Ident} (h : Ran m w.known n d parents)
    (hw : w.Grows w') : Ran m w'.known n d parents :=
  h.congr fun _ _ _ hx => hw.known_eq hx

/-- An invariant that reading keeps.  A variable that has been revived or created is live, and
only live variables are connected. -/
structure Sustained (m : Model) (I : Run → Prop) : Prop where
  view : ∀ {r r' : Run}, I r → r'.world.committed = r.world.committed →
    r'.world.overlay = r.world.overlay → r'.frames = r.frames → I r'
  enter : ∀ {r : Run} (n : Ident), I r → I { r with frames := ⟨n, .empty⟩ :: r.frames }
  revive : ∀ {r r' : Run} {n : Ident}, I r → r.world.overlay.isMarked n = true →
    revive n r = .ok () r' → I r' ∧ ∃ v, r'.world.live? n = some v
  connect : ∀ {r r' : Run} {n : Ident}, I r → (∃ v, r.world.live? n = some v) →
    connect n r = .ok () r' → I r'
  create : ∀ {r : Run} {n : Ident} {d : Distribution} {parents : OrderedSet Ident}
    (value : Tensor Float) (transformConstrained : Bool),
    I { r with frames := ⟨n, parents⟩ :: r.frames } → r.world.lookup? n = none →
    Ran m r.world.known n d parents →
    let r' := r.creating n (.create d value parents transformConstrained)
    I r' ∧ ∃ v, r'.world.live? n = some v

/-- Executing a program keeps an invariant, up to the frame that it has left, and the program
has run. -/
def Executor.Sustains (m : Model) (I : Run → Prop) (ex : Executor) : Prop :=
  ∀ {n r d parents r'}, I r → ex n r = .ok (d, parents) r' →
    I { r' with frames := ⟨n, parents⟩ :: r'.frames } ∧ Ran m r'.world.known n d parents

namespace Sustained

variable {I : Run → Prop} {ex : Executor}

theorem provide (hI : Sustained m I) (hex : ex.Sustains m I) (hp : ex.Proceeds) (h : I r)
    (ho : provide m ex n r = .ok () r') : I r' ∧ ∃ v, r'.world.live? n = some v := by
  rcases provide_eq_ok ho with ⟨hn, hc⟩ | ⟨hm, hr⟩ | ⟨hl, rfl⟩
  · obtain ⟨d, parents, r₁, value, r₂, hx, hv, rfl⟩ := create_eq_ok.1 hc
    obtain ⟨h₁, hran⟩ := hex h hx
    have hn₁ : r₁.world.lookup? n = none := Step.after_eq_of_ok hx ▸ (hp n r).2 hn
    -- Taking a value changes nothing that an invariant sees.
    have hview : r₂.world.committed = r₁.world.committed ∧ r₂.world.overlay = r₁.world.overlay ∧
        r₂.frames = r₁.frames := by
      rcases freshValue_eq_ok hv with ⟨-, rfl⟩ | ⟨-, -, rfl⟩ <;> exact ⟨rfl, rfl, rfl⟩
    obtain ⟨hc, ho, hf⟩ := hview
    have hlookup : r₂.world.lookup? = r₁.world.lookup? := by
      funext k
      rw [lookup?, lookup?, hc, ho]
    refine hI.create (r := r₂.write (createLine n value)) value _ (hI.view h₁ hc ho ?_) ?_ ?_
    · change _ :: r₂.frames = _ :: r₁.frames
      rw [hf]
    · rw [Run.world_write, hlookup, hn₁]
    · refine hran.congr fun k x _ hx => ?_
      rw [known, Run.world_write, hlookup]
      exact hx
  · exact hI.revive h hm hr
  · exact ⟨h, hl⟩

theorem read (hI : Sustained m I) (hex : ex.Sustains m I) (hp : ex.Proceeds) {x : Tensor Float}
    (h : I r) (ho : World.read m ex n r = .ok x r') : I r' := by
  obtain ⟨-, r₁, hpr, hc, -⟩ := read_eq_ok ho
  obtain ⟨h₁, hl⟩ := hI.provide hex hp h hpr
  exact hI.connect h₁ hl hc

/-- A program that propagates errors and succeeds keeps the invariant.  Against the values known
afterwards it reads what its frame has recorded, and comes to the same. -/
theorem run (hI : Sustained m I) (hex : ex.Sustains m I) (hp : ex.Proceeds) {α : Type}
    {program : Program α} (hprog : program.Propagates) {a : α} {f : Frame} {fs : List Frame}
    (h : I r) (hf : r.frames = f :: fs)
    (ho : program.run (fun p => (World.read m ex p).attempt) throw r = .ok a r') :
    I r' ∧ ∃ reads parents, program.against r'.world.known = some (reads, a) ∧
      r'.frames = { f with parents } :: fs ∧
      ∀ p, parents.contains p = (f.parents.contains p || reads.contains p) := by
  induction program generalizing r f with
  | done b =>
    obtain ⟨rfl, rfl⟩ := Step.pure_eq_ok.1 ho
    exact ⟨h, [], f.parents, rfl, hf, fun p => (Bool.or_false _).symm⟩
  | fail e => exact absurd ho Step.throw_ne_ok
  | ask n next ih =>
    -- a read, and then the rest of the program for the answer
    obtain ⟨x, r₁, hread, hrest⟩ := run_ask_eq_ok hprog ho
    have h₁ := hI.read hex hp h hread
    obtain ⟨-, -, -, -, hx⟩ := read_eq_ok hread
    obtain ⟨h', reads, parents, hag, hfr, hparents⟩ :=
      ih (.ok x) (hprog.2 x) h₁ (frames_of_read hp hread hf) hrest
    -- what was read stays known while the rest runs
    have hmoves := moves_of_run hp hrest
    refine ⟨h', n :: reads, parents, ?_, hfr, fun p => ?_⟩
    · rw [Program.against, (grows_of_moves hmoves).known_eq hx]
      simp only
      rw [hag, Option.map_some]
    · rw [hparents, OrderedSet.contains_insert, List.contains_cons, Bool.or_assoc]

end Sustained

/-- **A sustained invariant is kept by executing programs**, to any depth of nesting, up to the
frame that is left; and the program has run. -/
theorem execute_sustains {I : Run → Prop} (hm : m.Propagates) (hI : Sustained m I) (depth : Nat) :
    (execute m depth).Sustains m I := by
  induction depth with
  | zero =>
    intro n r d parents r' _ ho
    cases ho
  | succ depth ih =>
    intro n r d parents r' h ho
    obtain ⟨r₁, hb, rfl, rfl⟩ := execute_succ_eq_ok ho
    obtain ⟨h₁, reads, ps, hag, hfr, hps⟩ :=
      hI.run ih (execute_proceeds m depth) (hm n) (hI.enter n h) rfl hb
    rw [hfr]
    refine ⟨?_, reads, hag, fun p => ?_⟩
    · simp only [List.head?_cons, Option.map_some, Option.getD_some, List.tail_cons]
      exact hI.view h₁ rfl rfl hfr.symm
    · simp only [List.head?_cons, Option.map_some, Option.getD_some]
      rw [hps, OrderedSet.contains_empty, Bool.false_or]

end World

end Stochastic
