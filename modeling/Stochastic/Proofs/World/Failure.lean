import Stochastic.Proofs.World.Accounting
import Stochastic.Proofs.World.Growth
import Stochastic.Proofs.World.Mooring

/-!
# Visits that fail

A visit that fails has not generated its variable, and has changed nothing else but for what any
visit adds.  But it does not take back what it has added: a program that has read something and then
fails is listed as a reader there, although its variable is never generated.  Whatever was created
or revived on the way stays as well.

So a failed visit may leave the live variables as they were, or not, and if not, then this shows in
an edge to a reader that is not there.  For a variable that was created or revived by a read gets
the reader at once; if that one is generated, then it is read itself; and the last one in the line
is the one that failed.  In a world without such edges, nothing has changed exactly if no read has
succeeded at all.  This can be told in advance, from the programs alone: it is so if every program
that runs ends with an error when it is told at each read that the read has failed.

## Main definitions

* `World.SameLive` — the same variables are live.
* `World.Frayed` — there is a new edge to a reader that is not live.
* `World.createError?` — the error of generating a variable, if no read succeeds on the way.

## Main results

* `World.shows_execute` — if executing a program changes the live variables, this shows.
* `World.create_of_createError?`, `World.frayed_of_create` — if no read succeeds then nothing
  changes, and otherwise this shows.
* `World.unchanged_iff_of_create` — when failing to generate a variable changes nothing.
* `World.update_failed` — what a failed visit leaves behind.
-/

namespace Stochastic

/-- How a program ends if all its reads fail with the errors given, or nothing if a read has no
error. -/
def Program.refused {α : Type} (errors : Ident → Option World.Error) :
    Program α → Option (Except World.Error α)
  | .done a => some (.ok a)
  | .fail e => some (.error e)
  | .ask n next =>
    match errors n with
    | none => none
    | some e => (next (.error e)).refused errors

namespace World

variable {w w' w'' : World} {r r' : Run} {n c p : Ident} {m : Model} {depth : Nat} {e : Error}

/-! ## Changes that show -/

/-- The same variables are live, and they are the same. -/
def SameLive (w w' : World) : Prop := ∀ n, w'.live? n = w.live? n

/-- A live variable lists a reader that is not live, and did not do so before. -/
def Frayed (w w' : World) : Prop := ∃ p c, w'.Lists p c ∧ w'.live? c = none ∧ ¬ w.Lists p c

theorem SameLive.lists (h : w.SameLive w') : w'.Lists p c ↔ w.Lists p c := by
  unfold Lists
  rw [h]

theorem SameLive.not_frayed (h : w.SameLive w') : ¬ w.Frayed w' := by
  rintro ⟨p, c, hl, -, hno⟩
  exact hno (h.lists.1 hl)

/-- Readers are only added, marks only go away, and if the live variables change at all, then
this shows. -/
structure Shows (w w' : World) : Prop where
  grown : w.Extends w'
  marks : ∀ n, w'.overlay.isMarked n = true → w.overlay.isMarked n = true
  shown : w.SameLive w' ∨ w.Frayed w'

theorem Shows.refl (w : World) : w.Shows w := ⟨Extends.refl w, fun _ h => h, .inl fun _ => rfl⟩

/-- An edge that is listed stays listed. -/
theorem Shows.lists (h : w.Shows w') (hl : w.Lists p c) : w'.Lists p c := by
  obtain ⟨hm, v, hv, hc⟩ := lists_iff.1 hl
  obtain ⟨v', hv', -, hprefix⟩ := h.grown p v hv
  refine lists_iff.2 ⟨Bool.eq_false_iff.2 fun hm' => ?_, v', hv', ?_⟩
  · rw [h.marks p hm'] at hm
    cases hm
  · obtain ⟨k, hk, hck⟩ := List.contains_iff_exists_mem_beq.1 hc
    exact List.contains_iff_exists_mem_beq.2 ⟨k, hprefix.subset hk, hck⟩

/-- An edge that is new later was not there before. -/
theorem Shows.frayed (h : w.Shows w') (h' : w'.Frayed w'') : w.Frayed w'' := by
  obtain ⟨p, c, hlists, hc, hno⟩ := h'
  exact ⟨p, c, hlists, hc, fun hold => hno (h.lists hold)⟩

/-- What has once shown still shows: the edge is still there, or another one is. -/
theorem Frayed.trans (h : w.Frayed w') (h' : w'.Shows w'') (hl : w.Shows w') : w.Frayed w'' := by
  rcases h'.shown with hsame | hfrayed
  · obtain ⟨p, c, hlists, hc, hno⟩ := h
    exact ⟨p, c, hsame.lists.2 hlists, (hsame c).trans hc, hno⟩
  · exact hl.frayed hfrayed

theorem Shows.trans (h : w.Shows w') (h' : w'.Shows w'') : w.Shows w'' := by
  refine ⟨h.grown.trans h'.grown, fun n hn => h.marks n (h'.marks n hn), ?_⟩
  rcases h.shown with hsame | hfrayed
  · exact h'.shown.imp (fun hsame' n => (hsame' n).trans (hsame n)) h.frayed
  · exact .inr (hfrayed.trans h' h)

/-! ## Reading -/

/-- **A read fails for two reasons**: its variable is being generated, or generating it fails. -/
theorem read_eq_error (h : r.Moored) (ho : read m (execute m depth) n r = .error e r') :
    (r.frames.any fun f => f.node == n) = true ∧ r' = r ∨
      (r.frames.any fun f => f.node == n) = false ∧ r.world.lookup? n = none ∧
        create m (execute m depth) n r = .error e r' := by
  change (ite ((r.frames.any fun f => f.node == n) = true) _ _ : Step (Tensor Float)) r = _ at ho
  by_cases hstack : (r.frames.any fun f => f.node == n) = true
  · rw [if_pos hstack] at ho
    cases ho
    exact .inl ⟨hstack, rfl⟩
  rw [if_neg hstack] at ho
  obtain ⟨-, hlive⟩ := moored_kept.provide (m := m) (n := n) (execute_keeps moored_kept m depth)
    (execute_proceeds m depth) h
  rcases Step.bind_eq_error.1 ho with hprovide | ⟨⟨⟩, r₁, hprovide, ho⟩
  · refine .inr ⟨Bool.eq_false_iff.2 hstack, ?_⟩
    change (ite ((!r.world.contains n) = true) _ _ : Step Unit) r = _ at hprovide
    cases hv : r.world.lookup? n with
    | none =>
      rw [if_pos (by rw [contains, hv]; rfl)] at hprovide
      exact ⟨rfl, hprovide⟩
    | some v =>
      -- reviving cannot fail
      rw [if_neg (by rw [contains, hv]; exact Bool.false_ne_true)] at hprovide
      split at hprovide
      · obtain ⟨r₂, hrevive⟩ := exists_revive h.closed ⟨v, hv⟩
        cases hrevive.symm.trans hprovide
      · cases hprovide
  · -- neither can the rest, once the variable is live
    obtain ⟨v, hv⟩ := hlive hprovide
    have hfound : ∃ v, r₁.world.lookup? n = some v := ⟨v, (live?_eq_some.1 hv).2⟩
    obtain ⟨r₂, hconnect⟩ := exists_connect hfound
    rcases Step.bind_eq_error.1 ho with hc | ⟨⟨⟩, r₃, hc, ho⟩
    · cases hconnect.symm.trans hc
    · obtain ⟨v₃, hv₃⟩ : ∃ v, r₃.world.lookup? n = some v := by
        obtain ⟨v₃, hv₃, -⟩ := extends_connect n r₁ n v (live?_eq_some.1 hv).2
        rw [Step.after_eq_of_ok hc] at hv₃
        exact ⟨v₃, hv₃⟩
      have hlookup : (lookup n >>= fun v => pure v.value : Step (Tensor Float)) r₃ =
          .ok v₃.value r₃ := Step.bind_eq_ok.2 ⟨v₃, r₃, Step.lookup_eq_ok.2 ⟨rfl, hv₃⟩, rfl⟩
      cases hlookup.symm.trans ho

/-- The innermost program that runs is that of `c`, which is not there yet. -/
structure Run.Generates (r : Run) (c : Ident) : Prop where
  moored : r.Moored
  running : ∃ cs, r.running = c :: cs
  absent : r.world.lookup? c = none

theorem Run.Generates.enter (h : r.Moored) (hn : r.world.lookup? n = none) :
    Run.Generates { r with frames := ⟨n, .empty⟩ :: r.frames } n :=
  ⟨moored_kept.enter n h, ⟨_, rfl⟩, hn⟩

/-- A read leaves a program running. -/
theorem Run.Generates.read (h : r.Generates c) (m : Model) (depth : Nat) (n : Ident) :
    ((read m (execute m depth) n).after r).Generates c := by
  have hp := execute_proceeds m depth
  have hprogress := progress_read (m := m) hp n r
  obtain ⟨cs, hcs⟩ := h.running
  refine ⟨moored_kept.read (execute_keeps moored_kept m depth) hp h.moored,
    ⟨cs, hprogress.running.trans hcs⟩, hprogress.absent c ?_ h.absent⟩
  rw [hcs]
  exact List.mem_cons_self

/-- What a program reads lists it. -/
theorem lists_of_read {x : Tensor Float} (h : r.Generates c)
    (ho : read m (execute m depth) n r = .ok x r') : r'.world.Lists n c := by
  have hp := execute_proceeds m depth
  obtain ⟨hrun, r₁, hprovide, hconnect, -⟩ := read_eq_ok ho
  obtain ⟨v, hv⟩ := (moored_kept.provide (execute_keeps moored_kept m depth) hp h.moored).2 hprovide
  have hframes : r₁.frames = r.frames :=
    Step.after_eq_of_ok hprovide ▸ (returns_provide hp hrun).2
  obtain ⟨cs, hcs⟩ := h.running
  obtain ⟨f, fs, hf, rfl, -⟩ := List.map_eq_cons_iff.1 hcs
  rcases connect_cases n r₁ with ⟨hnil, -⟩ | ⟨f', fs', hf', hworld, hattach⟩
  · cases (hnil.symm.trans hframes).trans hf
  · obtain ⟨rfl, -⟩ := List.cons.inj ((hf'.symm.trans hframes).trans hf)
    rw [hattach] at hconnect
    obtain ⟨-, hlists, -⟩ := attach_eq_ok hconnect (hworld ▸ (live?_eq_some.1 hv).1)
    exact (hlists n f'.node).2 (.inr ⟨BEq.refl _, BEq.refl _⟩)

/-- Reading again what lists the reader already changes nothing. -/
theorem world_of_read {x : Tensor Float} (h : r.Generates c) (hl : r.world.Lists n c)
    (ho : read m (execute m depth) n r = .ok x r') : r'.world = r.world := by
  obtain ⟨hm, v, hv, hlisted⟩ := lists_iff.1 hl
  obtain ⟨-, r₁, hprovide, hconnect, -⟩ := read_eq_ok ho
  obtain ⟨cs, hcs⟩ := h.running
  obtain ⟨f, fs, hf, rfl, -⟩ := List.map_eq_cons_iff.1 hcs
  rcases provide_eq_ok hprovide with ⟨hn, -⟩ | ⟨hmarked, -⟩ | ⟨-, rfl⟩
  · cases hn.symm.trans hv
  · rw [hm] at hmarked
    cases hmarked
  · rcases connect_cases n r₁ with ⟨hnil, -⟩ | ⟨f', fs', hf', hworld, hattach⟩
    · cases hnil.symm.trans hf
    · obtain ⟨rfl, -⟩ := List.cons.inj (hf'.symm.trans hf)
      rw [hattach, attach_eq, hworld, hv] at hconnect
      simp only [hlisted, if_true] at hconnect
      cases hconnect
      exact hworld

/-- A read by a program shows, unless the variable that is read lists the program already. -/
theorem frayed_of_read {x : Tensor Float} (h : r.Generates c) (hl : ¬ r.world.Lists n c)
    (ho : read m (execute m depth) n r = .ok x r') : r.world.Frayed r'.world := by
  have habsent := (h.read m depth n).absent
  rw [Step.after_eq_of_ok ho] at habsent
  refine ⟨n, c, lists_of_read h ho, ?_, hl⟩
  rw [live?, habsent]
  split <;> rfl

/-- Executing the program of a variable that is not there leaves the live variables as they were,
or this shows. -/
def ShowsWithin (m : Model) (depth : Nat) : Prop :=
  ∀ {n} {r : Run}, r.Moored → r.world.lookup? n = none →
    r.world.Shows ((execute m depth n).after r).world

theorem shows_read (hex : ShowsWithin m depth) (h : r.Generates c) :
    r.world.Shows ((read m (execute m depth) n).after r).world := by
  have hp := execute_proceeds m depth
  refine ⟨extends_read (execute_extends m depth) hp n r, (progress_read hp n r).marks, ?_⟩
  cases ho : read m (execute m depth) n r with
  | ok x r' =>
    rw [Step.after_eq_of_ok ho]
    by_cases hl : r.world.Lists n c
    · left
      intro k
      rw [world_of_read h hl ho]
    · exact .inr (frayed_of_read h hl ho)
  | error e r' =>
    rw [Step.after, ho]
    rcases read_eq_error h.moored ho with ⟨-, rfl⟩ | ⟨-, hn, hcreate⟩
    · exact .inl fun _ => rfl
    · rw [← create_eq_error hcreate]
      exact (hex h.moored hn).shown

theorem shows_run (hex : ShowsWithin m depth) {α : Type} (program : Program α)
    (h : r.Generates c) :
    let r' := (program.run (fun p => (read m (execute m depth) p).attempt) throw).after r
    r'.Generates c ∧ r.world.Shows r'.world := by
  induction program generalizing r with
  | done a => exact ⟨h, Shows.refl _⟩
  | fail e => exact ⟨h, Shows.refl _⟩
  | ask p next ih =>
    refine Step.after_bind (R := fun a b => a.Generates c → b.Generates c ∧ a.world.Shows b.world)
      (fun hab hbc ha => ?_) (fun h => ?_) (fun a r₁ _ h₁ => ih a h₁) h
    · obtain ⟨hb, hs⟩ := hab ha
      obtain ⟨hc, hs'⟩ := hbc hb
      exact ⟨hc, hs.trans hs'⟩
    · rw [Step.after_attempt]
      exact ⟨h.read m depth p, shows_read hex h⟩

/-- **If executing a program changes the live variables, this shows**, however it ends. -/
theorem shows_execute (m : Model) (depth : Nat) : ShowsWithin m depth := by
  induction depth with
  | zero => exact fun _ _ => Shows.refl _
  | succ depth ih =>
    intro n r h hn
    rw [execute, after_withFrame]
    exact (shows_run ih (m.program n) (Run.Generates.enter h hn)).2

/-! ## Reads that change nothing -/

/-- The error of reading `n`, if no read succeeds on the way: `n` is being generated, or it is not
there and generating it fails. -/
def readError? (w : World) (creating : Ident → Option Error) (stack : List Ident) (n : Ident) :
    Option Error :=
  if stack.any (· == n) then some (.cyclic n) else if w.contains n then none else creating n

/-- The error of generating `n` while the variables of `stack` are being generated, if no read
succeeds on the way.  The program of `n` is told at each of its reads that it has failed. -/
def createError? (m : Model) (w : World) : (depth : Nat) → (stack : List Ident) → Ident →
    Option Error
  | 0, _, n => some (.recursionLimit n w.config.maxDepth)
  | depth + 1, stack, n =>
    let reading := w.readError? (createError? m w depth (n :: stack)) (n :: stack)
    match (m.program n).refused reading with
    | none => none
    | some (.error e) => some e
    | some (.ok d) =>
      match w.observations.get? n, d.check m.refusal with
      | none, .error e => some (.parameter e)
      | _, _ => none

/-- The errors of the reads of the programs that run now. -/
def Run.readError? (r : Run) (m : Model) (depth : Nat) : Ident → Option Error :=
  r.world.readError? (createError? m r.world depth r.running) r.running

theorem any_running (r : Run) (n : Ident) :
    r.running.any (· == n) = r.frames.any fun f => f.node == n := by
  rw [Run.running, List.any_map]
  rfl

/-- Executing programs with at most `depth` nested ones changes nothing if no read succeeds. -/
def BarsWithin (m : Model) (depth : Nat) : Prop :=
  ∀ {n e} {r : Run}, createError? m r.world depth r.running n = some e →
    create m (execute m depth) n r = .error e r

theorem read_of_readError? (hb : BarsWithin m depth) (h : r.readError? m depth n = some e) :
    read m (execute m depth) n r = .error e r := by
  unfold Run.readError? World.readError? at h
  rw [any_running] at h
  change (ite ((r.frames.any fun f => f.node == n) = true) _ _ : Step (Tensor Float)) r = _
  split at h
  · next hstack =>
    cases h
    rw [if_pos hstack]
    rfl
  · next hstack =>
    rw [if_neg hstack]
    split at h
    · cases h
    · next hn =>
      refine Step.bind_eq_error.2 (.inl ?_)
      change (ite ((!r.world.contains n) = true) _ _ : Step Unit) r = _
      rw [if_pos (by rw [Bool.eq_false_iff.2 hn]; rfl)]
      exact hb h

/-- A program goes on with the answer to its first read. -/
theorem run_ask {α : Type} (ex : Executor) (p : Ident)
    (next : Except Error (Tensor Float) → Program α) (r : Run) :
    (Program.ask p next).run (fun p => (read m ex p).attempt) throw r =
      match read m ex p r with
      | .ok x r₁ => (next (.ok x)).run (fun p => (read m ex p).attempt) throw r₁
      | .error e r₁ => (next (.error e)).run (fun p => (read m ex p).attempt) throw r₁ := by
  change EStateM.bind (read m ex p).attempt _ r = _
  unfold EStateM.bind Step.attempt
  cases read m ex p r <;> rfl

/-- The end of a step that changes nothing. -/
def Step.ending {α : Type} (r : Run) : Except Error α → EStateM.Result Error Run α
  | .ok a => .ok a r
  | .error e => .error e r

theorem run_of_refused (hb : BarsWithin m depth) {α : Type} {program : Program α}
    {result : Except Error α} (h : program.refused (r.readError? m depth) = some result) :
    program.run (fun p => (read m (execute m depth) p).attempt) throw r = Step.ending r result := by
  induction program with
  | done a =>
    cases h
    rfl
  | fail e =>
    cases h
    rfl
  | ask p next ih =>
    rw [Program.refused] at h
    cases hp : r.readError? m depth p with
    | none =>
      rw [hp] at h
      cases h
    | some e =>
      rw [hp] at h
      rw [run_ask, read_of_readError? hb hp]
      exact ih _ h

/-- A program that is refused leaves the stack as it was, and has read nothing. -/
theorem execute_of_refused (hb : BarsWithin m depth) {result : Except Error Distribution}
    (h : (m.program n).refused
      (Run.readError? { r with frames := ⟨n, .empty⟩ :: r.frames } m depth) = some result) :
    execute m (depth + 1) n r = Step.ending r (result.map fun d => (d, .empty)) := by
  rw [execute, withFrame, run_of_refused hb h]
  cases result <;> rfl

/-- **Generating a variable changes nothing if no read succeeds.** -/
theorem create_of_createError? (m : Model) (depth : Nat) : BarsWithin m depth := by
  induction depth with
  | zero =>
    intro n e r h
    cases h
    rfl
  | succ depth ih =>
    intro n e r h
    rw [createError?] at h
    split at h
    · cases h
    · next e' hrefused =>
      cases h
      refine Step.bind_eq_error.2 (.inl ?_)
      exact execute_of_refused ih hrefused
    · next d hrefused =>
      -- the program has ended, and its distribution cannot be drawn from
      split at h
      · next e' ho hd =>
        cases h
        refine Step.bind_eq_error.2 (.inr ⟨(d, .empty), r, execute_of_refused ih hrefused, ?_⟩)
        exact Step.bind_eq_error.2 (.inl (freshValue_eq_error.2 ⟨ho, e', hd, rfl, rfl⟩))
      · cases h

/-! ## Reads that change something -/

/-- No live variable lists a reader that is not live. -/
def Unfrayed (w : World) : Prop := ∀ p c, w.Lists p c → ∃ v, w.live? c = some v

instance (w : World) : Decidable w.Unfrayed :=
  decidable_of_iff
    (∀ entry ∈ w.liveEntries, ∀ c ∈ entry.2.children.toList, (w.live? c).isSome = true) <| by
    constructor
    · rintro h p c ⟨v, hv, hc⟩
      obtain ⟨⟨k, u⟩, hentry, hk⟩ := exists_mem_liveEntries hv
      have hu : w.live? k = some u := live?_of_mem_liveEntries hentry
      rw [live?_congr w hk, hv] at hu
      cases hu
      obtain ⟨c', hc', hcc'⟩ := List.contains_iff_exists_mem_beq.1 hc
      rw [live?_congr w hcc']
      exact Option.isSome_iff_exists.1 (h (k, v) hentry c' hc')
    · intro h entry hentry c hc
      refine Option.isSome_iff_exists.2 (h entry.1 c ⟨entry.2, live?_of_mem_liveEntries hentry, ?_⟩)
      exact List.contains_iff_exists_mem_beq.2 ⟨c, hc, BEq.refl c⟩

/-- If no read is refused, then generating a variable fails only with a change that shows. -/
def FraysWithin (m : Model) (depth : Nat) : Prop :=
  ∀ {n e} {r r' : Run}, r.Moored → r.world.Unfrayed → r.world.lookup? n = none →
    createError? m r.world depth r.running n = none →
    create m (execute m depth) n r = .error e r' → r.world.Frayed r'.world

/-- A read by a program shows, unless it is refused. -/
theorem frayed_of_readError? (hf : FraysWithin m depth) (h : r.Generates c)
    (hu : r.world.Unfrayed) (hn : r.readError? m depth n = none) :
    r.world.Frayed ((read m (execute m depth) n).after r).world := by
  cases ho : read m (execute m depth) n r with
  | ok x r' =>
    rw [Step.after_eq_of_ok ho]
    refine frayed_of_read h (fun hl => ?_) ho
    obtain ⟨v, hv⟩ := hu n c hl
    cases h.absent.symm.trans (live?_eq_some.1 hv).2
  | error e r' =>
    rw [Step.after, ho]
    unfold Run.readError? World.readError? at hn
    rw [any_running] at hn
    rcases read_eq_error h.moored ho with ⟨hstack, -⟩ | ⟨hstack, habsent, hcreate⟩
    · rw [if_pos hstack] at hn
      cases hn
    · rw [if_neg (Bool.eq_false_iff.1 hstack),
        if_neg (by rw [contains, habsent]; exact Bool.false_ne_true)] at hn
      exact hf h.moored hu habsent hn hcreate

theorem frayed_of_refused (hf : FraysWithin m depth) {α : Type} {program : Program α}
    (h : r.Generates c) (hu : r.world.Unfrayed)
    (hn : program.refused (r.readError? m depth) = none) : r.world.Frayed
      ((program.run (fun p => (read m (execute m depth) p).attempt) throw).after r).world := by
  induction program with
  | done a => cases hn
  | fail e => cases hn
  | ask p next ih =>
    rw [Program.refused] at hn
    cases hp : r.readError? m depth p with
    | some e =>
      -- this read is refused, and the program goes on as if nothing had happened
      rw [hp] at hn
      rw [Step.after, run_ask, read_of_readError? (create_of_createError? m depth) hp]
      exact ih _ hn
    | none =>
      have hfrayed := frayed_of_readError? hf h hu hp
      have hshows := shows_read (n := p) (shows_execute m depth) h
      have hnext := fun a => (shows_run (shows_execute m depth) (next a) (h.read m depth p)).2
      refine hfrayed.trans ?_ hshows
      unfold Step.after at hnext ⊢
      rw [run_ask]
      cases ho : read m (execute m depth) p r with
      | ok x r₁ =>
        rw [ho] at hnext
        exact hnext (.ok x)
      | error e r₁ =>
        rw [ho] at hnext
        exact hnext (.error e)

/-- **If some read succeeds, then a change shows**, if generating the variable fails. -/
theorem frayed_of_create (m : Model) (depth : Nat) : FraysWithin m depth := by
  induction depth with
  | zero =>
    intro n e r r' _ _ _ hn
    cases hn
  | succ depth ih =>
    intro n e r r' h hu habsent hn ho
    rw [createError?] at hn
    split at hn
    · next hrefused =>
      rw [← create_eq_error ho, execute, after_withFrame]
      exact frayed_of_refused ih (Run.Generates.enter h habsent) hu hrefused
    · cases hn
    · next d hrefused =>
      -- the program has ended without reading anything, so nothing can fail any more
      have hx := execute_of_refused (create_of_createError? m depth) hrefused
      rcases Step.bind_eq_error.1 ho with hx' | ⟨⟨d', parents⟩, r₁, hx', ho⟩
      · cases hx.symm.trans hx'
      · cases hx.symm.trans hx'
        rcases Step.bind_eq_error.1 ho with hv | ⟨x, r₂, -, ho⟩
        · obtain ⟨hobserved, e', hd, -⟩ := freshValue_eq_error.1 hv
          rw [hobserved, hd] at hn
          cases hn
        · cases ho

/-- **When failing to generate a variable changes nothing**, if there were no frayed edges: exactly
if the live variables are the same, and exactly if no read has succeeded. -/
theorem unchanged_iff_of_create (h : r.Moored) (hu : r.world.Unfrayed)
    (hn : r.world.lookup? n = none) (ho : create m (execute m depth) n r = .error e r') :
    (r.world.SameLive r'.world ↔ r'.world = r.world) ∧
      (r'.world = r.world ↔ createError? m r.world depth r.running n = some e) := by
  have hsame : createError? m r.world depth r.running n = some e → r'.world = r.world := by
    intro hrefused
    cases (create_of_createError? m depth hrefused).symm.trans ho
    rfl
  have hrefused : r.world.SameLive r'.world →
      createError? m r.world depth r.running n = some e := by
    intro hlive
    cases hb : createError? m r.world depth r.running n with
    | none => exact absurd (frayed_of_create m depth h hu hn hb ho) hlive.not_frayed
    | some e' =>
      cases (create_of_createError? m depth hb).symm.trans ho
      rfl
  have hlive : r'.world = r.world → r.world.SameLive r'.world := fun heq k => by rw [heq]
  exact ⟨⟨fun h => hsame (hrefused h), hlive⟩, ⟨fun h => hrefused (hlive h), hsame⟩⟩

/-! ## Visits -/

theorem lists_accept : w.accept.state.Lists p c ↔ w.Lists p c :=
  SameLive.lists (lookup?_accept w)

/-- A visit fails because generating its variable does, which is not there. -/
theorem visit_eq_error (h : w.Moored) (ho : visit m n { world := w } = .error e r') :
    w.lookup? n = none ∧ create m (execute m w.config.maxDepth) n { world := w } = .error e r' := by
  change read m (execute m w.config.maxDepth) n { world := w } = _ at ho
  rcases read_eq_error (h.run rfl) ho with ⟨hstack, -⟩ | ⟨-, hn, hcreate⟩
  · cases hstack
  · exact ⟨hn, hcreate⟩

/-- **What a failed visit leaves behind.**  Whatever calls were made before, if a visit of `n` fails
then `n` was not there and is not there afterwards.  A variable that was there has all it had, and
its readers begin with those it had; marks are only taken away; and as the same variables are
committed, rejecting the changes leads back to these.  The live variables are the same exactly if
accepting the changes commits no edge to a missing reader that was not there before.  If there was
no such edge before the visit, then they are the same exactly if the world is, and this is the case
exactly if no read has succeeded. -/
theorem update_failed (hw : Attained w) (h : (update m w n).result = .error e) :
    let w' := (update m w n).state
    (w.lookup? n = none ∧ w'.lookup? n = none) ∧
      (w.Extends w' ∧ ∀ k, w'.overlay.isMarked k = true → w.overlay.isMarked k = true) ∧
      (w'.committed = w.committed ∧ ∀ k, w'.reject.state.live? k = w.committed.get? k) ∧
      (w.SameLive w' ↔ ∀ p c, w'.accept.state.Lists p c → w'.accept.state.lookup? c = none →
        w.Lists p c) ∧
      (w.Unfrayed → (w.SameLive w' ↔ w' = w) ∧
        (w' = w ↔ createError? m w w.config.maxDepth [] n = some e)) := by
  intro w'
  obtain ⟨r', ho, hstate⟩ := Step.reply_eq_error h
  have hstate : w' = r'.world := hstate
  have hmoored : Run.Moored { world := w } := hw.moored.run rfl
  obtain ⟨hn, hcreate⟩ := visit_eq_error hw.moored ho
  -- all that has happened is that the program of the variable was executed
  have hr' : (execute m w.config.maxDepth n).after { world := w } = r' := create_eq_error hcreate
  obtain ⟨hreturns, habsent⟩ := execute_proceeds m w.config.maxDepth n { world := w }
  have hshows := shows_execute m w.config.maxDepth hmoored hn
  rw [hr'] at hreturns habsent hshows
  have hcommitted : r'.world.committed = w.committed :=
    (grows_of_moves hreturns.1.moves).committed
  rw [hstate]
  refine ⟨⟨hn, habsent hn⟩, ⟨hshows.grown, hshows.marks⟩, ⟨hcommitted, fun k => ?_⟩, ?_,
    fun hu => ?_⟩
  · change r'.world.committed.get? k = _
    rw [hcommitted]
  · refine ⟨fun hsame p c hl _ => hsame.lists.1 (lists_accept.1 hl), fun hno => ?_⟩
    refine hshows.shown.resolve_right ?_
    rintro ⟨p, c, hl, hc, hnew⟩
    exact hnew (hno p c (lists_accept.2 hl) ((lookup?_accept _ c).trans hc))
  · exact unchanged_iff_of_create hmoored hu hn hcreate

namespace Abrupt

/-- A variable that reads nothing. -/
def base : Ident := ⟨"base", []⟩

/-- A reader of `base`. -/
def between : Ident := ⟨"between", []⟩

/-- A reader of `between` whose program fails then. -/
def failing : Ident := ⟨"failing", []⟩

/-- Three variables, each of which reads the one before; the last is never generated. -/
def model : Model where
  program n :=
    if n.name = "base" then return .uniform 0 1
    else if n.name = "between" then do return .uniform (← .readItem base) 1
    else do
      let _ ← .readItem between
      .fail (.model failing "no")
  sampler _ _ := .scalar 0.25

/-- The world in which `base` is committed. -/
def before : World :=
  [.update base, .accept].foldl (fun w op => (perform model w op).state) (.new {})

theorem attained_before : Attained before :=
  ((Attained.new {}).step model (.update base)).step model .accept

end Abrupt

/-- A visit that fails after a variable was created. -/
theorem update_failed_abrupt :
    let w := Abrupt.before
    let w' := (update Abrupt.model w Abrupt.failing).state
    Attained w ∧ w.Unfrayed ∧ ∃ e, (update Abrupt.model w Abrupt.failing).result = .error e ∧
      (w.lookup? Abrupt.failing = none ∧ w'.lookup? Abrupt.failing = none) ∧
      (w.Extends w' ∧ ∀ k, w'.overlay.isMarked k = true → w.overlay.isMarked k = true) ∧
      (w'.committed = w.committed ∧ ∀ k, w'.reject.state.live? k = w.committed.get? k) ∧
      (w.SameLive w' ↔ ∀ p c, w'.accept.state.Lists p c → w'.accept.state.lookup? c = none →
        w.Lists p c) ∧
      (w.SameLive w' ↔ w' = w) ∧
      (w' = w ↔ createError? Abrupt.model w w.config.maxDepth [] Abrupt.failing = some e) := by
  have hunfrayed : Abrupt.before.Unfrayed := by decide +kernel
  have hfails : (update Abrupt.model Abrupt.before Abrupt.failing).result.isOk = false := by
    decide +kernel
  cases h : (update Abrupt.model Abrupt.before Abrupt.failing).result with
  | ok x =>
    rw [h] at hfails
    cases hfails
  | error e =>
    obtain ⟨habsent, hgrown, hbase, hsame, hrefused⟩ := update_failed Abrupt.attained_before h
    exact ⟨Abrupt.attained_before, hunfrayed, e, h, habsent, hgrown, hbase, hsame,
      hrefused hunfrayed⟩

/-- A failed visit after which other variables are live than before, and accepting the changes
commits a reader that does not exist. -/
theorem not_sameLive_abrupt :
    let w' := (update Abrupt.model Abrupt.before Abrupt.failing).state
    Attained Abrupt.before ∧ Abrupt.before.overlay.isEmpty = true ∧ Abrupt.before.Unfrayed ∧
      (update Abrupt.model Abrupt.before Abrupt.failing).result.isOk = false ∧
      ¬ Abrupt.before.SameLive w' ∧ w'.accept.state.Lists Abrupt.between Abrupt.failing ∧
      w'.accept.state.contains Abrupt.failing = false := by
  refine ⟨Abrupt.attained_before, by decide +kernel, by decide +kernel, by decide +kernel,
    fun hsame => ?_, by decide +kernel, by decide +kernel⟩
  have hnew : (update Abrupt.model Abrupt.before Abrupt.failing).state.Lists
      Abrupt.between Abrupt.failing := by decide +kernel
  have hold : ¬ Abrupt.before.Lists Abrupt.between Abrupt.failing := by decide +kernel
  exact hold (hsame.lists.1 hnew)

end World

end Stochastic
