import Stochastic.Proofs.World.Isolation

/-!
# A visit only adds

A visit runs programs to any depth.  They create variables, put their variables behind the readers
of what they read, and revive what was marked, with all that it reads.  None of this changes a
variable that is there, except that readers are added behind those that it has, in order; this is
so also if the visit fails.

If programs pass errors on, then a visit that succeeds has created nothing in vain: a program that
created a variable has read it, so the variable is among the parents of the one that the program
has generated.  Hence what is new hangs together with the variable that was visited.

A visit that finds its variable live does nothing.  For this it matters that no variable is marked
that is not there.  A variable is staged when it loses its last reader, before it is marked, and
stays staged as long as there are marks; so this is true of every world.

## Main definitions

* `World.Extends` — nothing has changed but for added variables and readers.
* `World.NewEdge`, `World.Stems` — variables that new ones need, directly or not.
* `World.Arises` — all worlds that calls can lead to.

## Main results

* `World.extends_read` — reading only adds, however it ends.
* `World.stems_of_read` — whatever a read creates stems from the variable that is read.
* `World.Arises.staged_of_isMarked` — what is marked is staged.
* `World.update_only_adds` — a visit only adds.
-/

namespace Stochastic.World

open Relation (TransGen)

variable {w w' w'' : World} {r r' : Run} {n k c p : Ident} {v : Variable} {m : Model}
  {ex : Executor}

/-! ## Nothing but added readers -/

/-- Every variable is still there, and is the same but for readers that have been added behind
those it had. -/
def Extends (w w' : World) : Prop :=
  ∀ n v, w.lookup? n = some v → ∃ v', w'.lookup? n = some v' ∧ v'.core = v.core ∧
    v.children.toList <+: v'.children.toList

theorem Extends.refl (w : World) : w.Extends w := fun _ v hv => ⟨v, hv, rfl, List.prefix_rfl⟩

theorem Extends.trans (h : w.Extends w') (h' : w'.Extends w'') : w.Extends w'' := by
  intro n v hv
  obtain ⟨v₁, hv₁, hc₁, hp₁⟩ := h n v hv
  obtain ⟨v₂, hv₂, hc₂, hp₂⟩ := h' n v₁ hv₁
  exact ⟨v₂, hv₂, hc₂.trans hc₁, hp₁.trans hp₂⟩

theorem extends_relist_insert (h : r.world.lookup? p = some v) (c : Ident) :
    r.world.Extends (r.relist p v (v.children.insert c)).world := by
  intro n v' hv'
  rw [lookup?_relist]
  by_cases hn : (p == n) = true
  · rw [← lookup?_congr _ hn, h] at hv'
    cases hv'
    exact ⟨_, if_pos hn, rfl, v.children.prefix_insert c⟩
  · exact ⟨v', (if_neg hn).trans hv', rfl, List.prefix_rfl⟩

theorem extends_attach (c p : Ident) (r : Run) : r.world.Extends ((attach c p).after r).world := by
  rw [Step.after, attach_eq]
  cases hp : r.world.lookup? p with
  | none => exact Extends.refl _
  | some v =>
    simp only
    split
    · exact Extends.refl _
    · exact extends_relist_insert hp c

theorem extends_reviveWithin (depth : Nat) (n : Ident) (r : Run) :
    r.world.Extends ((reviveWithin depth n).after r).world := by
  induction depth generalizing n r with
  | zero => exact Extends.refl _
  | succ depth ih =>
    rw [Step.after, reviveWithin_succ]
    cases r.world.lookup? n with
    | none => exact Extends.refl r.world
    | some v =>
      -- the mark is gone, and each parent is revived if need be and attached
      let R : Run → Run → Prop := fun a b => a.world.Extends b.world
      refine Step.after_forM (R := R) (fun a => Extends.refl a.world) Extends.trans
        (fun p r => ?_) ((r.mapOverlay (·.unmark n)).write (reviveLine n))
      refine Step.after_bind (R := R) Extends.trans (Extends.refl r.world) fun s r₁ _ => ?_
      simp only
      split
      · exact Step.after_bind (R := R) Extends.trans (ih p r₁) fun _ r₂ _ => extends_attach n p r₂
      · exact extends_attach n p r₁

theorem extends_freshValue (m : Model) (n : Ident) (d : Distribution) (r : Run) :
    r.world.Extends ((freshValue m n d).after r).world := by
  refine Step.after_bind (R := fun a b => a.world.Extends b.world) Extends.trans
    (Extends.refl r.world) fun s r₁ _ => ?_
  split
  · exact Extends.refl r₁.world
  · rw [Step.after, draw]
    cases m.draw? r₁.world.drawn d with
    | ok x => exact Extends.refl r₁.world
    | error e => exact Extends.refl r₁.world

theorem extends_creating (hn : r.world.lookup? n = none) (v : Variable) :
    r.world.Extends (r.creating n v).world := by
  intro k v' hv'
  refine ⟨v', ?_, rfl, List.prefix_rfl⟩
  rw [Run.world_creating, lookup?_put, beq_eq_false_of_lookup? hn hv']
  exact hv'

theorem extends_connect (n : Ident) (r : Run) :
    r.world.Extends ((connect n).after r).world := by
  rcases connect_cases n r with ⟨-, hc⟩ | ⟨f, fs, -, hw, hc⟩
  · rw [Step.after_eq_of_ok hc]
    exact Extends.refl _
  · rw [Step.after, hc, ← Step.after, ← hw]
    exact extends_attach f.node n (r.noting n)

/-- Executing a program only adds, however it ends. -/
def Executor.Extends (ex : Executor) : Prop :=
  ∀ n (r : Run), r.world.Extends ((ex n).after r).world

theorem extends_create (hex : ex.Extends) (hp : ex.Proceeds) (hn : r.world.lookup? n = none) :
    r.world.Extends ((create m ex n).after r).world := by
  let R : Run → Run → Prop := fun a b => a.world.Extends b.world
  refine Step.after_bind (R := R) Extends.trans (hex n r) fun a r₁ h₁ => ?_
  have hn₁ : r₁.world.lookup? n = none := Step.after_eq_of_ok h₁ ▸ (hp n r).2 hn
  have hs := restores_freshValue m n a.1 r₁
  refine Step.after_bind (R := R) Extends.trans (extends_freshValue m n a.1 r₁) fun x r₂ h₂ => ?_
  rw [Step.after_eq_of_ok h₂] at hs
  exact extends_creating (r := r₂.write _) (hs.cores.lookup?_eq_none hn₁) _

theorem extends_provide (hex : ex.Extends) (hp : ex.Proceeds) (n : Ident) (r : Run) :
    r.world.Extends ((provide m ex n).after r).world := by
  change r.world.Extends (Step.after (ite _ _ _ : Step Unit) r).world
  split
  · next hn => exact extends_create hex hp (by simpa [contains] using hn)
  · split
    · exact extends_reviveWithin _ n r
    · exact Extends.refl _

/-- **Reading only adds**, however it ends. -/
theorem extends_read (hex : ex.Extends) (hp : ex.Proceeds) (n : Ident) (r : Run) :
    r.world.Extends ((read m ex n).after r).world := by
  let R : Run → Run → Prop := fun a b => a.world.Extends b.world
  change R r (Step.after (ite _ _ _ : Step (Tensor Float)) r)
  split
  · exact Extends.refl _
  · refine Step.after_bind (R := R) Extends.trans (extends_provide hex hp n r) fun _ r₁ _ => ?_
    refine Step.after_bind (R := R) Extends.trans (extends_connect n r₁) fun _ r₂ _ => ?_
    refine Step.after_bind (R := R) Extends.trans ?_ fun _ r₃ _ => Extends.refl r₃.world
    rw [Step.after_lookup]
    exact Extends.refl r₂.world

theorem extends_run (hex : ex.Extends) (hp : ex.Proceeds) {α : Type} (program : Program α)
    (r : Run) :
    r.world.Extends ((program.run (fun p => (read m ex p).attempt) throw).after r).world := by
  induction program generalizing r with
  | done a => exact Extends.refl _
  | fail e => exact Extends.refl _
  | ask n next ih =>
    refine Step.after_bind (R := fun a b => a.world.Extends b.world) Extends.trans ?_
      fun a r₁ _ => ih a r₁
    rw [Step.after_attempt]
    exact extends_read hex hp n r

theorem execute_extends (m : Model) (depth : Nat) : (execute m depth).Extends := by
  induction depth with
  | zero => exact fun n r => Extends.refl _
  | succ depth ih =>
    intro n r
    rw [execute, after_withFrame]
    exact extends_run (m := m) ih (execute_proceeds m depth) (m.program n)
      { r with frames := ⟨n, .empty⟩ :: r.frames }

theorem extends_visit (m : Model) (n : Ident) (r : Run) :
    r.world.Extends ((visit m n).after r).world :=
  extends_read (execute_extends m _) (execute_proceeds m _) n r

/-! ## Where new variables come from -/

/-- A variable that is new in `w'` has another one among its parents. -/
def NewEdge (w w' : World) (c p : Ident) : Prop := w.lookup? c = none ∧ w'.Needs c p

/-- The variable `k` is `n`, or is reached from it through the parents of new variables. -/
def Stems (w w' : World) (n k : Ident) : Prop := (k == n) = true ∨ TransGen (NewEdge w w') n k

theorem Grows.needs (h : w.Grows w') (hcp : w.Needs c p) : w'.Needs c p := by
  obtain ⟨v, hv, hp⟩ := hcp
  obtain ⟨v', hv', hcore⟩ := h.exists_core hv
  exact ⟨v', hv', by rw [parents_of_core hcore, hp]⟩

/-- What was not there later on was not there before. -/
theorem Grows.lookup?_eq_none (h : w.Grows w') (hn : w'.lookup? n = none) : w.lookup? n = none := by
  cases hv : w.lookup? n with
  | none => rfl
  | some v =>
    obtain ⟨v', hv', -⟩ := h.exists_core hv
    cases hn.symm.trans hv'

/-- What is new in between is new in the end, with the same parents. -/
theorem Stems.mono {w₀ : World} (h₀ : w₀.Grows w) (h : w'.Grows w'') (hs : Stems w w' n k) :
    Stems w₀ w'' n k := by
  have hedge : w.NewEdge w' ≤ w₀.NewEdge w'' := fun c p hcp =>
    ⟨h₀.lookup?_eq_none hcp.1, h.needs hcp.2⟩
  exact hs.imp_right (TransGen.mono hedge n k)

/-- What stems from a parent of a new variable stems from that variable. -/
theorem Stems.head (hcp : NewEdge w w' c p) (hs : Stems w w' p k) : Stems w w' c k := by
  rcases hs with hk | hs
  · obtain ⟨hc, v, hv, hp⟩ := hcp
    exact .inr (.single ⟨hc, v, hv, by rwa [OrderedSet.contains_congr _ hk]⟩)
  · exact .inr (.head hcp hs)

/-- Whatever a program that succeeds has created stems from what it has read. -/
def Executor.Sprouts (ex : Executor) : Prop :=
  ∀ {n r d parents r'}, ex n r = .ok (d, parents) r' →
    ∀ {k v}, r.world.lookup? k = none → r'.world.lookup? k = some v →
      ∃ p, parents.contains p = true ∧ Stems r.world r'.world p k

theorem stems_of_create (hex : ex.Sprouts) (hp : ex.Proceeds) (hn : r.world.lookup? n = none)
    (ho : create m ex n r = .ok () r') (hk : r.world.lookup? k = none)
    (hk' : r'.world.lookup? k = some v) : Stems r.world r'.world n k := by
  obtain ⟨d, parents, r₁, x, r₂, hx, hf, rfl⟩ := create_eq_ok.1 ho
  have hn₁ : r₁.world.lookup? n = none := Step.after_eq_of_ok hx ▸ (hp n r).2 hn
  have hs : Restores r₁ r₂ := Step.after_eq_of_ok hf ▸ restores_freshValue m n d r₁
  have hn₂ : r₂.world.lookup? n = none := hs.cores.lookup?_eq_none hn₁
  by_cases hnk : (n == k) = true
  · exact .inl (BEq.symm hnk)
  · -- the variable was created while the program ran, so the program has led there
    rw [Run.world_creating, lookup?_put, if_neg hnk] at hk'
    obtain ⟨v₁, hv₁, -⟩ := hs.cores.symm.exists_core hk'
    obtain ⟨p, hparents, hstems⟩ := hex hx hk hv₁
    have hgrows : r₁.world.Grows ((r₂.write (createLine n x)).creating n
        (.create d x parents r₂.world.config.transformConstrained)).world :=
      (grows_of_moves hs.moves).trans (grows_creating (r := r₂.write _) hn₂ _)
    refine Stems.head ⟨hn, ?_⟩ (hstems.mono (Grows.refl _) hgrows)
    exact ⟨_, lookup?_put_self .., hparents⟩

/-- **Whatever a read creates stems from the variable that is read**, if the read succeeds. -/
theorem stems_of_read (hex : ex.Sprouts) (hp : ex.Proceeds) {x : Tensor Float}
    (ho : read m ex n r = .ok x r') (hk : r.world.lookup? k = none)
    (hk' : r'.world.lookup? k = some v) : Stems r.world r'.world n k := by
  obtain ⟨-, r₁, hprovide, hconnect, -⟩ := read_eq_ok ho
  -- connecting creates nothing
  have hgrows : r₁.world.Grows r'.world :=
    Step.after_eq_of_ok hconnect ▸ grows_of_moves (progress_connect n r₁).moves
  obtain ⟨v₁, hv₁⟩ : ∃ v₁, r₁.world.lookup? k = some v₁ := by
    rcases connect_cases n r₁ with ⟨-, hc⟩ | ⟨f, fs, -, hw, hc⟩
    · cases hconnect.symm.trans hc
      exact ⟨v, hk'⟩
    · have hs := restores_attach f.node n (r₁.noting n)
      rw [Step.after_eq_of_ok (hc ▸ hconnect)] at hs
      obtain ⟨v₁, hv₁, -⟩ := hs.cores.symm.exists_core hk'
      exact ⟨v₁, hw ▸ hv₁⟩
  rcases provide_eq_ok hprovide with ⟨hn, hcreate⟩ | ⟨-, hrevive⟩ | ⟨-, rfl⟩
  · exact (stems_of_create hex hp hn hcreate hk hv₁).mono (Grows.refl _) hgrows
  · -- neither does reviving
    have hs : Restores r r₁ := Step.after_eq_of_ok hrevive ▸ restores_revive n r
    cases (hs.cores.lookup?_eq_none hk).symm.trans hv₁
  · cases hk.symm.trans hv₁

/-- A program that passes errors on and succeeds has read whatever it has created, directly or
through what it has read. -/
theorem stems_of_run (hex : ex.Sprouts) (hp : ex.Proceeds) {α : Type} {program : Program α}
    (hprog : program.Propagates) {a : α} {f : Frame} {fs : List Frame} (hf : r.frames = f :: fs)
    (ho : program.run (fun p => (read m ex p).attempt) throw r = .ok a r') :
    ∃ parents, r'.frames = { f with parents } :: fs ∧
      (∀ p, f.parents.contains p = true → parents.contains p = true) ∧
      ∀ {k v}, r.world.lookup? k = none → r'.world.lookup? k = some v →
        ∃ p, parents.contains p = true ∧ Stems r.world r'.world p k := by
  induction program generalizing r f with
  | done b =>
    obtain ⟨-, rfl⟩ := Step.pure_eq_ok.1 ho
    refine ⟨f.parents, hf, fun _ h => h, fun hk hk' => ?_⟩
    cases hk.symm.trans hk'
  | fail e => exact absurd ho Step.throw_ne_ok
  | ask n next ih =>
    obtain ⟨x, r₁, hread, hrest⟩ := run_ask_eq_ok hprog ho
    obtain ⟨parents, hframes, hsub, hnew⟩ :=
      ih (.ok x) (hprog.2 x) (frames_of_read hp hread hf) hrest
    have hfirst : r.world.Grows r₁.world := by
      have hprogress := progress_read (m := m) hp n r
      rw [Step.after_eq_of_ok hread] at hprogress
      exact grows_of_moves hprogress.moves
    have hlast : r₁.world.Grows r'.world := grows_of_moves (moves_of_run hp hrest)
    refine ⟨parents, hframes, fun p hfp => hsub p ?_, fun {k v} hk hk' => ?_⟩
    · rw [OrderedSet.contains_insert, hfp, Bool.true_or]
    · cases hk₁ : r₁.world.lookup? k with
      | some v₁ =>
        -- created by the read, whose variable is among the parents from then on
        refine ⟨n, hsub n ?_, (stems_of_read hex hp hread hk hk₁).mono (Grows.refl _) hlast⟩
        rw [OrderedSet.contains_insert, BEq.refl, Bool.or_true]
      | none =>
        obtain ⟨p, hparents, hstems⟩ := hnew hk₁ hk'
        exact ⟨p, hparents, hstems.mono hfirst (Grows.refl _)⟩

theorem execute_sprouts (hm : m.Propagates) (depth : Nat) : (execute m depth).Sprouts := by
  induction depth with
  | zero =>
    intro n r d parents r' ho
    cases ho
  | succ depth ih =>
    intro n r d parents r' ho k v hk hk'
    obtain ⟨r₁, hbody, rfl, rfl⟩ := execute_succ_eq_ok ho
    obtain ⟨ps, hframes, -, hnew⟩ := stems_of_run ih (execute_proceeds m depth) (hm n) rfl hbody
    rw [hframes]
    exact hnew hk hk'

/-! ## What is marked is staged -/

/-- Every marked variable is staged. -/
def MarksStaged (w : World) : Prop :=
  ∀ n, w.overlay.isMarked n = true → ∃ v, w.overlay.staged.get? n = some v

/-- No staged variable goes away. -/
def KeepsStaged (w w' : World) : Prop :=
  ∀ n, (∃ v, w.overlay.staged.get? n = some v) → ∃ v, w'.overlay.staged.get? n = some v

theorem keepsStaged_put (w : World) (n : Ident) (v : Variable) : w.KeepsStaged (w.put n v) := by
  rintro k ⟨u, hu⟩
  change ∃ v', (w.overlay.staged.insert n v).get? k = some v'
  rw [Table.get?_insert]
  split
  · exact ⟨v, rfl⟩
  · exact ⟨u, hu⟩

theorem keepsStaged_replace (r : Run) (n : Ident) (v v' : Variable) :
    r.world.KeepsStaged (r.replace n v v').world := by
  rw [Run.world_replace]
  exact fun k hk => keepsStaged_put _ n v' k (keepsStaged_put _ n v k hk)

theorem keepsStaged_of_moves (h : Moves r r') : r.world.KeepsStaged r'.world := by
  induction h with
  | refl => exact fun _ hk => hk
  | tail _ hmove ih =>
    intro k hk
    have hk := ih k hk
    cases hmove with
    | relist readers found => exact keepsStaged_replace _ _ _ _ k hk
    | mark => rwa [Run.world_marking]
    | create => exact keepsStaged_put _ _ _ k hk
    | unmark | draw | write | frames => exact hk

theorem MarksStaged.of_marks (h : w.MarksStaged) (hs : w.KeepsStaged w')
    (hm : ∀ n, w'.overlay.isMarked n = true → w.overlay.isMarked n = true) : w'.MarksStaged :=
  fun n hn => hs n (h n (hm n hn))

theorem marksStaged_put (h : w.MarksStaged) (n : Ident) (v : Variable) : (w.put n v).MarksStaged :=
  h.of_marks (keepsStaged_put w n v) fun _ hk => hk

theorem marksStaged_progress (h : r.world.MarksStaged) (hp : Progress r r') :
    r'.world.MarksStaged :=
  h.of_marks (keepsStaged_of_moves hp.moves) hp.marks

theorem marksStaged_marking (h : w.MarksStaged) (hn : ∃ v, w.overlay.staged.get? n = some v) :
    (w.marking n).MarksStaged := by
  intro k hk
  rw [isMarked_marking, Bool.or_eq_true] at hk
  rcases hk with hk | hk
  · exact h k hk
  · change ∃ v, w.overlay.staged.get? k = some v
    rwa [Table.get?_congr _ hk]

/-- A variable that loses a reader is staged, and only then is it marked. -/
theorem marksStaged_detachWithin (depth : Nat) (c p : Ident) (h : r.world.MarksStaged) :
    ((detachWithin depth c p).after r).world.MarksStaged := by
  induction depth generalizing c p r with
  | zero => exact h
  | succ depth ih =>
    rw [Step.after, detachWithin_succ]
    cases hp : r.world.lookup? p with
    | none => exact h
    | some v =>
      have h₁ : (r.relist p v (v.children.erase c)).world.MarksStaged := by
        rw [Run.relist, Run.world_replace]
        exact marksStaged_put (marksStaged_put h p v) p _
      have hstaged : ∃ u, (r.relist p v (v.children.erase c)).world.overlay.staged.get? p =
          some u := by
        rw [Run.relist, Run.world_replace]
        refine ⟨_, (Table.get?_insert ..).trans (if_pos (BEq.refl p))⟩
      simp only
      split
      · have h₂ := marksStaged_marking h₁ hstaged
        rw [← Run.world_marking] at h₂
        exact Step.after_forM (R := fun a b => a.world.MarksStaged → b.world.MarksStaged)
          (fun _ h => h) (fun hab hbc ha => hbc (hab ha)) (fun q _ hr => ih p q hr) _ h₂
      · exact h₁

theorem tracks_marksStaged (m : Model) :
    Tracks m fun a b => a.world.MarksStaged → b.world.MarksStaged where
  refl _ h := h
  trans hab hbc ha := hbc (hab ha)
  execute depth n r h := marksStaged_progress h (execute_proceeds m depth n r).1.1
  detach c p r h := marksStaged_detachWithin _ c p h
  put n v r h := marksStaged_put h n v
  recordPrior n r h := by rwa [Run.world_recordPrior]
  proposing _ _ h := h
  write _ _ h := h

theorem marksStaged_perform (h : w.MarksStaged) (m : Model) (op : Operation) :
    (perform m w op).state.MarksStaged := by
  have hempty : ∀ {w : World}, w.overlay = .empty → w.MarksStaged := by
    intro w ho n hn
    rw [ho] at hn
    cases hn
  cases op with
  | update n =>
    rw [state_perform_update]
    exact marksStaged_progress h (progress_visit m n { world := w })
  | propose n value =>
    rw [state_perform_propose]
    exact (tracks_marksStaged m).proposal n value { world := w } h
  | accept => exact hempty rfl
  | reject => exact hempty rfl
  | observe | ask => exact h

/-- The worlds that there are: what calls make of a new one, in any order and with any models,
whether they succeed or fail, and among them those that change committed variables directly. -/
inductive Arises : World → Prop where
  | new (config : Config) : Arises (.new config)
  | perform {w : World} (m : Model) (op : Operation) (h : Arises w) : Arises (perform m w op).state
  | commit {w : World} (n : Ident) (v : Variable) (h : Arises w) : Arises (w.commit n v)
  | remove {w : World} (n : Ident) (h : Arises w) : Arises (w.remove n)
  | amend {w : World} (n : Ident) (f : Variable → Variable) (h : Arises w) : Arises (w.amend n f)

/-- **What is marked is staged**, in every world. -/
theorem Arises.staged_of_isMarked (h : Arises w) : w.MarksStaged := by
  induction h with
  | new config =>
    intro n hn
    cases hn
  | perform m op _ ih => exact marksStaged_perform ih m op
  | commit | remove | amend => assumption

/-! ## Visits -/

/-- Afterwards a revived variable is not marked. -/
theorem isMarked_of_revive (ho : revive n r = .ok () r') :
    r'.world.overlay.isMarked n = false := by
  change reviveWithin (r.world.overlay.marked.size + 1) n r = _ at ho
  rw [reviveWithin_succ] at ho
  cases hv : r.world.lookup? n with
  | none =>
    rw [hv] at ho
    cases ho
  | some v =>
    rw [hv] at ho
    -- what is done for the parents makes no mark
    have hs : Restores ((r.mapOverlay (·.unmark n)).write (reviveLine n)) r' := by
      rw [← Step.after_eq_of_ok ho]
      exact Step.after_forM (R := Restores) Restores.refl Restores.trans
        (restores_reviveLink (restores_reviveWithin _) n) _
    refine hs.isMarked_eq_false ?_
    change (r.world.unmarking n).overlay.isMarked n = false
    rw [isMarked_unmarking, BEq.refl, Bool.not_true, Bool.and_false]

/-- A visit of a live variable returns its value and does nothing. -/
theorem update_of_live (m : Model) (hv : w.live? n = some v) :
    update m w n = ⟨w, .ok v.value, []⟩ := by
  obtain ⟨hm, hv⟩ := live?_eq_some.1 hv
  have hprovide : provide m (execute m w.config.maxDepth) n { world := w } =
      .ok () { world := w } := by
    change (ite ((!w.contains n) = true) _ _ : Step Unit) { world := w } = _
    rw [if_neg (by rw [contains, hv]; exact Bool.false_ne_true), if_neg (Bool.eq_false_iff.1 hm)]
    rfl
  have hread : visit m n { world := w } = .ok v.value { world := w } := by
    let r : Run := { world := w }
    change (provide m (execute m w.config.maxDepth) n >>= fun _ => _ : Step (Tensor Float)) r = _
    refine Step.bind_eq_ok.2 ⟨(), r, hprovide, Step.bind_eq_ok.2 ⟨(), r, rfl, ?_⟩⟩
    exact Step.bind_eq_ok.2 ⟨v, r, Step.lookup_eq_ok.2 ⟨rfl, hv⟩, rfl⟩
  rw [update, Step.reply, hread]

/-- After a visit that succeeds its variable is live, and has the value that is returned. -/
theorem live?_of_visit {x : Tensor Float} (hw : w.MarksStaged)
    (ho : visit m n { world := w } = .ok x r') :
    ∃ v, r'.world.live? n = some v ∧ v.value = x := by
  have hmarks := (progress_visit m n { world := w }).marks
  rw [Step.after_eq_of_ok ho] at hmarks
  change read m (execute m w.config.maxDepth) n { world := w } = _ at ho
  obtain ⟨-, r₁, hprovide, hconnect, hknown⟩ := read_eq_ok ho
  obtain ⟨v, hv, rfl⟩ := Option.map_eq_some_iff.1 hknown
  refine ⟨v, live?_eq_some.2 ⟨Bool.eq_false_iff.2 fun hm => ?_, hv⟩, rfl⟩
  rcases provide_eq_ok hprovide with ⟨hn, -⟩ | ⟨-, hrevive⟩ | ⟨⟨v₀, hv₀⟩, rfl⟩
  · -- a variable that is not there is not marked
    obtain ⟨u, hu⟩ := hw n (hmarks n hm)
    rw [lookup?, hu] at hn
    cases hn
  · -- no program runs, so the variable is not connected to anything
    have hframes : r₁.frames = [] := by
      have hs : Restores { world := w } r₁ := Step.after_eq_of_ok hrevive ▸ restores_revive n _
      exact hs.frames
    rw [connect_eq, hframes] at hconnect
    cases hconnect
    rw [isMarked_of_revive hrevive] at hm
    cases hm
  · exact Bool.eq_false_iff.1 (live?_eq_some.1 hv₀).1 (hmarks n hm)

/-- What was not there and is there without being committed is staged. -/
theorem staged_of_new (hc : w'.committed = w.committed) (hk : w.lookup? k = none)
    (hk' : w'.lookup? k = some v) : w'.overlay.staged.get? k = some v := by
  have hcommitted : w.committed.get? k = none := by
    unfold lookup? at hk
    cases hs : w.overlay.staged.get? k with
    | none => rwa [hs] at hk
    | some u =>
      rw [hs] at hk
      cases hk
  unfold lookup? at hk'
  cases hs : w'.overlay.staged.get? k with
  | some u => rwa [hs] at hk'
  | none =>
    rw [hs, hc, hcommitted] at hk'
    cases hk'

/-- **A visit only adds.**  If programs pass errors on, then after a visit of `n` that succeeds, in
any world there is: a variable that was there has all it had, and its readers begin with those it
had, in the same order; nothing is marked that was not; a variable that is new is staged, and is `n`
or is reached from it through the parents of new variables; `n` is live with the value that is
returned; and another visit returns the same value and leaves the world as it is. -/
theorem update_only_adds (hm : m.Propagates) (hw : Arises w) {x : Tensor Float}
    (h : (update m w n).result = .ok x) :
    let w' := (update m w n).state
    w.Extends w' ∧ (∀ k, w'.overlay.isMarked k = true → w.overlay.isMarked k = true) ∧
      (∀ k v, w.lookup? k = none → w'.lookup? k = some v →
        w'.overlay.staged.get? k = some v ∧ Stems w w' n k) ∧
      (∃ v, w'.live? n = some v ∧ v.value = x) ∧ update m w' n = ⟨w', .ok x, []⟩ := by
  intro w'
  obtain ⟨r', ho, hstate⟩ := Step.reply_eq_ok h
  have hstate : w' = r'.world := hstate
  have hextends := extends_visit m n { world := w }
  have hprogress := progress_visit m n { world := w }
  rw [Step.after_eq_of_ok ho] at hextends hprogress
  obtain ⟨v, hv, hx⟩ := live?_of_visit hw.staged_of_isMarked ho
  rw [hstate]
  refine ⟨hextends, hprogress.marks, fun k u hk hk' => ⟨?_, ?_⟩, ⟨v, hv, hx⟩, ?_⟩
  · exact staged_of_new (grows_of_moves hprogress.moves).committed hk hk'
  · change read m (execute m w.config.maxDepth) n { world := w } = _ at ho
    exact stems_of_read (execute_sprouts hm _) (execute_proceeds m _) ho hk hk'
  · rw [update_of_live m hv, hx]

/-- The world in which `early` has dropped `shared`, which is marked, before `late` is there. -/
def Forked.parted : World :=
  [.update early, .accept, .propose root (.scalar 1)].foldl (fun w op => (perform model w op).state)
    (.new {})

theorem Forked.arises_parted : Arises parted :=
  ((Arises.new {}).perform model (.update early)).perform model .accept |>.perform model _

/-- A visit that creates `late` and revives `shared`. -/
theorem update_only_adds_forked :
    let w := Forked.parted
    let w' := (update Forked.model w Forked.late).state
    Forked.model.Propagates ∧ Arises w ∧ w.overlay.isMarked Forked.shared = true ∧
      w'.overlay.isMarked Forked.shared = false ∧ w.contains Forked.late = false ∧
      ∃ x, (update Forked.model w Forked.late).result = .ok x ∧ w.Extends w' ∧
        (∀ k, w'.overlay.isMarked k = true → w.overlay.isMarked k = true) ∧
        (∀ k v, w.lookup? k = none → w'.lookup? k = some v →
          w'.overlay.staged.get? k = some v ∧ Stems w w' Forked.late k) ∧
        (∃ v, w'.live? Forked.late = some v ∧ v.value = x) ∧
        update Forked.model w' Forked.late = ⟨w', .ok x, []⟩ := by
  have hok : (update Forked.model Forked.parted Forked.late).result.isOk = true := by decide +kernel
  cases hx : (update Forked.model Forked.parted Forked.late).result with
  | error e =>
    rw [hx] at hok
    cases hok
  | ok x =>
    have h := update_only_adds Forked.model_propagates Forked.arises_parted hx
    refine ⟨Forked.model_propagates, Forked.arises_parted, ?_, ?_, ?_, x, hx, h⟩ <;> decide +kernel

end Stochastic.World
