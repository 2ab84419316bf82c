import Stochastic.Proofs.World.Execution
import Stochastic.Proofs.World.Wiring

/-!
# Reading, however it ends

A program may go on after a read that has failed, and what that read has done stays done.  So an
invariant of runs that is to hold for any programs must hold at every end of a read: it must be
kept when a program begins and when its frame is dropped, when a variable is revived, when it is
connected to its reader and when it is created.  Then it is kept by every execution, to any depth
of nesting.

Two parts of a read cannot fail once the variables that are read are there: reviving a variable,
and connecting a live one to its reader.

## Main definitions

* `World.Kept` — an invariant that reading keeps, however it ends.
* `World.Closed` — the parents of every variable are there.
* `World.Run.Noted` — whatever a running program has read lists it.

## Main results

* `World.execute_keeps`, `World.Kept.read` — executing a program and reading a variable keep such
  an invariant.
* `World.exists_revive`, `World.exists_connect` — reviving and connecting succeed.
-/

namespace Stochastic.World

variable {w w' : World} {r r' : Run} {n c p : Ident} {v : Variable} {m : Model}
  {I : Run → Prop} {ex : Executor}

/-! ## Invariants at every end of a read -/

/-- An invariant that reading keeps, whether it succeeds or fails.  A variable that has been
revived or created is live, and only live variables are connected. -/
structure Kept (I : Run → Prop) : Prop where
  view : ∀ {r r' : Run}, I r → r'.world.committed = r.world.committed →
    r'.world.overlay = r.world.overlay → r'.frames = r.frames → I r'
  enter : ∀ {r : Run} (n : Ident), I r → I { r with frames := ⟨n, .empty⟩ :: r.frames }
  leave : ∀ {r : Run} {f : Frame} {fs : List Frame}, I r → r.frames = f :: fs →
    I { r with frames := fs }
  revive : ∀ {r : Run} {n : Ident}, I r → r.world.overlay.isMarked n = true →
    I ((revive n).after r) ∧ ∃ v, ((revive n).after r).world.live? n = some v
  connect : ∀ {r : Run} {n : Ident}, I r → (∃ v, r.world.live? n = some v) →
    I ((connect n).after r)
  create : ∀ {r : Run} {n : Ident} {parents : OrderedSet Ident} (d : Distribution)
    (value : Tensor Float) (transformConstrained : Bool),
    I { r with frames := ⟨n, parents⟩ :: r.frames } → r.world.lookup? n = none →
    let r' := r.creating n (.create d value parents transformConstrained)
    I r' ∧ ∃ v, r'.world.live? n = some v

/-- Executing a program keeps an invariant, and if it succeeds, also with the frame that it has
left. -/
def Executor.Keeps (I : Run → Prop) (ex : Executor) : Prop :=
  ∀ {n r}, I r → I ((ex n).after r) ∧
    ∀ {d parents r'}, ex n r = .ok (d, parents) r' →
      I { r' with frames := ⟨n, parents⟩ :: r'.frames }

/-- A value cannot be had only if none is observed and the distribution cannot be drawn from. -/
theorem freshValue_eq_error {d : Distribution} {e : Error} : freshValue m n d r = .error e r' ↔
    r.world.observations.get? n = none ∧
      ∃ e', d.check m.refusal = .error e' ∧ e = .parameter e' ∧ r' = r := by
  unfold freshValue
  rw [Step.get_bind]
  cases ho : r.world.observations.get? n with
  | some x => exact ⟨nofun, nofun⟩
  | none =>
    change draw m d r = .error e r' ↔ _
    unfold draw Model.draw? Sampler.draw?
    cases hd : d.check m.refusal with
    | ok u => exact ⟨nofun, nofun⟩
    | error e' =>
      constructor
      · rintro ⟨⟩
        exact ⟨rfl, e', rfl, rfl, rfl⟩
      · rintro ⟨-, -, ⟨⟩, rfl, rfl⟩
        rfl

/-- Creating a variable fails because its program does, or after its program has ended. -/
theorem create_eq_error {e : Error} (h : create m ex n r = .error e r') :
    (ex n).after r = r' := by
  unfold create at h
  rcases Step.bind_eq_error.1 h with hx | ⟨⟨d, parents⟩, r₁, hx, h⟩
  · rw [Step.after, hx]
    rfl
  · rw [Step.after_eq_of_ok hx]
    rcases Step.bind_eq_error.1 h with hv | ⟨value, r₂, -, h⟩
    · obtain ⟨-, e', -, -, rfl⟩ := freshValue_eq_error.1 hv
      rfl
    · cases h

namespace Kept

theorem creation (hI : Kept I) (hex : ex.Keeps I) (hp : ex.Proceeds) (h : I r)
    (hn : r.world.lookup? n = none) :
    I ((World.create m ex n).after r) ∧
      ∀ {r'}, World.create m ex n r = .ok () r' → ∃ v, r'.world.live? n = some v := by
  have hcreated : ∀ {r'}, World.create m ex n r = .ok () r' →
      I r' ∧ ∃ v, r'.world.live? n = some v := by
    intro r' hc
    obtain ⟨d, parents, r₁, value, r₂, hx, hv, rfl⟩ := create_eq_ok.1 hc
    have h₁ := (hex h).2 hx
    have hn₁ : r₁.world.lookup? n = none := Step.after_eq_of_ok hx ▸ (hp n r).2 hn
    -- Taking a value changes nothing that an invariant sees.
    rcases freshValue_eq_ok hv with ⟨-, rfl⟩ | ⟨-, -, rfl⟩
    · exact hI.create (r := r₂.write _) d value _ (hI.view h₁ rfl rfl rfl) hn₁
    · exact hI.create (r := r₁.drawing.write _) d value _ (hI.view h₁ rfl rfl rfl) hn₁
  refine ⟨?_, fun hc => (hcreated hc).2⟩
  cases hc : World.create m ex n r with
  | ok u r' =>
    rw [Step.after_eq_of_ok hc]
    exact (hcreated hc).1
  | error e r' =>
    rw [Step.after, hc]
    exact create_eq_error hc ▸ (hex h).1

/-- Making a variable live keeps the invariant, also if it fails. -/
theorem provide (hI : Kept I) (hex : ex.Keeps I) (hp : ex.Proceeds) (h : I r) :
    I ((World.provide m ex n).after r) ∧
      ∀ {r'}, World.provide m ex n r = .ok () r' → ∃ v, r'.world.live? n = some v := by
  change I (Step.after (ite ((!r.world.contains n) = true) _ _ : Step Unit) r) ∧
    ∀ {r'}, (ite ((!r.world.contains n) = true) _ _ : Step Unit) r = _ → _
  cases hv : r.world.lookup? n with
  | none =>
    rw [if_pos (by rw [contains, hv]; rfl)]
    exact hI.creation hex hp h hv
  | some v =>
    rw [if_neg (by rw [contains, hv]; exact Bool.false_ne_true)]
    by_cases hm : r.world.overlay.isMarked n = true
    · rw [if_pos hm]
      obtain ⟨h₁, hl⟩ := hI.revive h hm
      exact ⟨h₁, fun hr => Step.after_eq_of_ok hr ▸ hl⟩
    · rw [if_neg hm]
      refine ⟨h, fun hr => ?_⟩
      obtain ⟨-, rfl⟩ := Step.pure_eq_ok.1 hr
      exact ⟨v, live?_eq_some.2 ⟨Bool.eq_false_iff.2 hm, hv⟩⟩

/-- **A read keeps the invariant, however it ends.** -/
theorem read (hI : Kept I) (hex : ex.Keeps I) (hp : ex.Proceeds) (h : I r) :
    I ((World.read m ex n).after r) := by
  change I (Step.after (ite _ _ _ : Step (Tensor Float)) r)
  split
  · exact h
  · obtain ⟨hprovide, hlive⟩ := hI.provide (m := m) (n := n) hex hp h
    refine Step.after_bind (R := fun a b => I a → I b) (fun hab hbc ha => hbc (hab ha))
      (fun _ => hprovide) (fun _ r₁ h₁ hr₁ => ?_) h
    refine Step.after_bind (R := fun a b => I a → I b) (fun hab hbc ha => hbc (hab ha))
      (fun hr => hI.connect hr (hlive h₁)) (fun _ r₂ _ hr₂ => ?_) hr₁
    refine Step.after_bind (R := fun a b => I a → I b) (fun hab hbc ha => hbc (hab ha))
      (fun hr => ?_) (fun _ r₃ _ hr₃ => hr₃) hr₂
    rw [Step.after_lookup]
    exact hr

theorem run (hI : Kept I) (hex : ex.Keeps I) (hp : ex.Proceeds) {α : Type}
    (program : Program α) (h : I r) :
    I ((program.run (fun p => (World.read m ex p).attempt) throw).after r) := by
  induction program generalizing r with
  | done a => exact h
  | fail e => exact h
  | ask n next ih =>
    refine Step.after_bind (R := fun a b => I a → I b) (fun hab hbc ha => hbc (hab ha))
      (fun hr => ?_) (fun answer r₁ _ hr₁ => ih answer hr₁) h
    rw [Step.after_attempt]
    exact hI.read hex hp hr

end Kept

/-- **Executing a program keeps the invariant, however it ends**, and to any depth of nesting. -/
theorem execute_keeps (hI : Kept I) (m : Model) (depth : Nat) : (execute m depth).Keeps I := by
  induction depth with
  | zero =>
    intro n r h
    refine ⟨h, fun ho => ?_⟩
    cases ho
  | succ depth ih =>
    intro n r h
    have hp := execute_proceeds m depth
    let body := (m.program n).run (fun p => (World.read m (execute m depth) p).attempt) throw
    have hbody : I (body.after { r with frames := ⟨n, .empty⟩ :: r.frames }) :=
      hI.run ih hp _ (hI.enter n h)
    -- the program's own frame is on top when it ends
    have hrun : (body.after { r with frames := ⟨n, .empty⟩ :: r.frames }).running =
        n :: r.running := by
      refine (progress_run (fun p r => ?_) _ _).running
      rw [Step.after_attempt]
      exact progress_read hp p r
    change I ((withFrame n body).after r) ∧ ∀ {d parents r'},
      withFrame n body r = .ok (d, parents) r' → _
    rw [after_withFrame]
    unfold Step.after at hbody hrun ⊢
    unfold withFrame
    generalize hb : body { r with frames := ⟨n, .empty⟩ :: r.frames } = result at hbody hrun
    have hframes : ∃ parents fs, (Step.final result).frames = ⟨n, parents⟩ :: fs := by
      rw [Run.running] at hrun
      obtain ⟨f, fs, hfs, hf, -⟩ := List.map_eq_cons_iff.1 hrun
      exact ⟨f.parents, fs, by rw [hfs, ← hf]⟩
    obtain ⟨parents, fs, hfs⟩ := hframes
    refine ⟨?_, fun {d ps r'} ho => ?_⟩
    · simp only [hfs, List.tail_cons]
      exact hI.leave hbody hfs
    · cases result with
      | error e r₁ => cases ho
      | ok d₁ r₁ =>
        change r₁.frames = _ at hfs
        cases ho
        refine hI.view hbody rfl rfl ?_
        simp only [Step.final, hfs, List.head?_cons, Option.map_some, Option.getD_some,
          List.tail_cons]

/-! ## What cannot fail -/

/-- The variable `c`, be it marked or not, has `p` among its parents. -/
def Needs (w : World) (c p : Ident) : Prop :=
  ∃ v, w.lookup? c = some v ∧ v.parents.contains p = true

/-- The parents of every variable are there, be they marked or not. -/
def Closed (w : World) : Prop := ∀ {c p}, w.Needs c p → ∃ v, w.lookup? p = some v

theorem Needs.sameCores (h : w.Needs c p) (hs : w.SameCores w') : w'.Needs c p := by
  obtain ⟨v, hv, hp⟩ := h
  obtain ⟨v', hv', hcore⟩ := hs.exists_core hv
  exact ⟨v', hv', by rw [parents_of_core hcore, hp]⟩

theorem SameCores.exists_lookup? (h : w.SameCores w') (hn : ∃ v, w.lookup? n = some v) :
    ∃ v, w'.lookup? n = some v := by
  obtain ⟨v, hv⟩ := hn
  obtain ⟨v', hv', -⟩ := h.exists_core hv
  exact ⟨v', hv'⟩

theorem Closed.sameCores (h : w.Closed) (hs : w.SameCores w') : w'.Closed :=
  fun hn => hs.exists_lookup? (h (hn.sameCores hs.symm))

theorem exists_attach (c : Ident) (hp : ∃ v, r.world.lookup? p = some v) :
    ∃ r', attach c p r = .ok () r' := by
  obtain ⟨v, hv⟩ := hp
  rw [attach_eq, hv]
  by_cases hc : v.children.contains c = true
  · exact ⟨r, if_pos hc⟩
  · exact ⟨_, if_neg hc⟩

/-- A parent of a revived variable is revived if it is marked, and attached. -/
theorem exists_reviveLink {f : Ident → Step Unit} (hs : ∀ p r, Restores r ((f p).after r))
    (hf : ∀ {p r}, r.world.Closed → (∃ v, r.world.lookup? p = some v) →
      ∃ r', f p r = .ok () r')
    (n : Ident) (hc : r.world.Closed) (hp : ∃ v, r.world.lookup? p = some v) :
    ∃ r', (do
      if (← get).world.overlay.isMarked p then f p
      attach n p : Step Unit) r = .ok () r' ∧ Restores r r' := by
  suffices hok : ∃ r', (do
      if (← get).world.overlay.isMarked p then f p
      attach n p : Step Unit) r = .ok () r' by
    obtain ⟨r', h'⟩ := hok
    exact ⟨r', h', Step.after_eq_of_ok h' ▸ restores_reviveLink hs n p r⟩
  rw [Step.get_bind]
  by_cases hm : r.world.overlay.isMarked p = true
  · simp only [hm, if_true]
    obtain ⟨r₁, h₁⟩ := hf hc hp
    have hs₁ : Restores r r₁ := Step.after_eq_of_ok h₁ ▸ hs p r
    obtain ⟨r₂, h₂⟩ := exists_attach n (hs₁.cores.exists_lookup? hp)
    exact ⟨r₂, Step.bind_eq_ok.2 ⟨(), r₁, h₁, h₂⟩⟩
  · simp only [hm, if_false, Bool.false_eq_true]
    exact exists_attach n hp

theorem exists_reviveWithin {depth : Nat} (hc : r.world.Closed)
    (hn : ∃ v, r.world.lookup? n = some v) : ∃ r', reviveWithin depth n r = .ok () r' := by
  induction depth generalizing n r with
  | zero => exact ⟨r, rfl⟩
  | succ depth ih =>
    obtain ⟨v, hv⟩ := hn
    rw [reviveWithin_succ, hv]
    -- all parents are there in the beginning, and reviving one takes none of the others away
    refine Step.exists_forM (P := fun r' => r.world.SameCores r'.world) (fun p hp r₁ hs₁ => ?_)
      (SameCores.refl r.world)
    have hneeds : r.world.Needs n p :=
      ⟨v, hv, List.contains_iff_exists_mem_beq.2 ⟨p, hp, BEq.refl p⟩⟩
    obtain ⟨r₂, h₂, hs₂⟩ := exists_reviveLink (restores_reviveWithin depth)
      (fun hc hp => ih hc hp) n (hc.sameCores hs₁) (hs₁.exists_lookup? (hc hneeds))
    exact ⟨r₂, h₂, hs₁.trans hs₂.cores⟩

/-- **Reviving a variable succeeds** if its parents are there, and theirs, and so on. -/
theorem exists_revive (hc : r.world.Closed) (hn : ∃ v, r.world.lookup? n = some v) :
    ∃ r', revive n r = .ok () r' :=
  exists_reviveWithin hc hn

/-- Connecting does nothing if no program runs.  Else the innermost program has read the variable,
and is attached to it. -/
theorem connect_cases (n : Ident) (r : Run) :
    (r.frames = [] ∧ connect n r = .ok () r) ∨
      ∃ f fs, r.frames = f :: fs ∧ (r.noting n).world = r.world ∧
        connect n r = attach f.node n (r.noting n) := by
  rw [connect_eq]
  cases hf : r.frames with
  | nil => exact .inl ⟨rfl, rfl⟩
  | cons f fs => exact .inr ⟨f, fs, rfl, by rw [Run.noting, hf], rfl⟩

/-- **Connecting a variable to its reader succeeds** if it is there. -/
theorem exists_connect (hn : ∃ v, r.world.lookup? n = some v) :
    ∃ r', connect n r = .ok () r' := by
  rcases connect_cases n r with ⟨-, hc⟩ | ⟨f, fs, -, hw, hc⟩
  · exact ⟨r, hc⟩
  · rw [hc]
    exact exists_attach f.node (hw ▸ hn)

/-! ## What running programs have read -/

/-- Whatever a running program has read lists it as a reader. -/
def Run.Noted (r : Run) : Prop :=
  ∀ f ∈ r.frames, ∀ p, f.parents.contains p = true → r.world.Lists p f.node

theorem Run.Noted.view (h : r.Noted) (hc : r'.world.committed = r.world.committed)
    (ho : r'.world.overlay = r.world.overlay) (hf : r'.frames = r.frames) : r'.Noted := by
  intro f hf' p hp
  rw [lists_iff, lookup?, hc, ho]
  exact lists_iff.1 (h f (hf ▸ hf') p hp)

theorem Run.Noted.enter (n : Ident) (h : r.Noted) :
    Run.Noted { r with frames := ⟨n, .empty⟩ :: r.frames } := by
  intro f hf p hp
  rcases List.mem_cons.1 hf with rfl | hf
  · cases hp
  · exact h f hf p hp

theorem Run.Noted.restores (h : r.Noted) (hs : Restores r r') : r'.Noted :=
  fun f hf p hp => hs.lists (h f (hs.frames ▸ hf) p hp)

/-- Connecting a live variable notes it in the innermost frame, and lists its reader. -/
theorem Run.Noted.connect (h : r.Noted) (hl : ∃ v, r.world.live? n = some v)
    (ho : connect n r = .ok () r') : r'.Noted := by
  rcases connect_cases n r with ⟨-, hc⟩ | ⟨f, fs, hfr, hw, hc⟩
  · rw [hc] at ho
    cases ho
    exact h
  · have hfr' := frames_of_connect ho hfr
    rw [hc] at ho
    obtain ⟨v, hv⟩ := hl
    obtain ⟨-, hlists, -⟩ := attach_eq_ok ho (hw ▸ (live?_eq_some.1 hv).1)
    intro f' hf' p hp
    rw [hlists, hw]
    rcases List.mem_cons.1 (hfr' ▸ hf') with rfl | hf'
    · rw [OrderedSet.contains_insert, Bool.or_eq_true] at hp
      exact hp.imp (h f (hfr ▸ List.mem_cons_self) p) fun hp => ⟨BEq.refl _, hp⟩
    · exact .inl (h f' (hfr ▸ List.mem_cons_of_mem _ hf') p hp)

/-! ## Creating a variable -/

/-- What is there is not the variable that is created. -/
theorem beq_eq_false_of_lookup? {k : Ident} (hn : w.lookup? n = none)
    (hk : w.lookup? k = some v) : (n == k) = false := by
  refine Bool.eq_false_iff.2 fun hnk => ?_
  rw [lookup?_congr _ hnk] at hn
  cases hn.symm.trans hk

/-- A variable that was not there lists nobody, so creating it takes no reader away. -/
theorem lists_creating (hn : r.world.lookup? n = none) (hl : r.world.Lists p c) :
    (r.creating n v).world.Lists p c := by
  obtain ⟨-, v', hv', -⟩ := lists_iff.1 hl
  rw [Run.world_creating, lists_put, beq_eq_false_of_lookup? hn hv']
  exact hl

theorem Run.Noted.creating {parents : OrderedSet Ident}
    (h : Run.Noted { r with frames := ⟨n, parents⟩ :: r.frames }) (hn : r.world.lookup? n = none) :
    (r.creating n v).Noted :=
  fun f hf p hp => lists_creating hn (h f (List.mem_cons_of_mem _ hf) p hp)

/-- Creating a variable that nobody reads keeps the balance, if all that it reads lists it. -/
theorem wired_creating {surplus : Ident → Ident → Prop} (hn : r.world.lookup? n = none)
    (hl : ∀ p, v.parents.contains p = true → r.world.Lists p n) (hc : v.children.toList = [])
    (hw : r.world.Wired surplus ⊥) : (r.creating n v).world.Wired surplus ⊥ := by
  refine ⟨fun {c p} hr => .inl ?_, fun {c p} hlp => ?_, fun {k} hk => ?_⟩
  · rw [Run.world_creating, reads_put] at hr
    by_cases hnc : (n == c) = true
    · rw [if_pos hnc] at hr
      exact lists_creating hn ((lists_congr _ (BEq.refl p) hnc).1 (hl p hr.2))
    · rw [if_neg hnc] at hr
      exact lists_creating hn ((hw.listed hr).resolve_right id)
  · rw [Run.world_creating, lists_put] at hlp
    by_cases hnp : (n == p) = true
    -- the variable itself lists nobody yet
    · rw [if_pos hnp, contains_eq_false_of_toList hc] at hlp
      cases hlp.2
    · rw [if_neg hnp] at hlp
      refine (hw.read hlp).imp_left fun hr => ?_
      obtain ⟨-, v', hv', -⟩ := reads_iff.1 hr
      rw [Run.world_creating, reads_put, beq_eq_false_of_lookup? hn hv']
      exact hr
  · obtain ⟨v', hv', hc'⟩ := hw.barren hk
    refine ⟨v', ?_, hc'⟩
    rw [Run.world_creating, lookup?_put, beq_eq_false_of_lookup? hn hv']
    exact hv'

/-- A variable that is not there is not marked. -/
theorem Wired.isMarked_eq_false {surplus missing : Ident → Ident → Prop}
    (hw : w.Wired surplus missing) (hn : w.lookup? n = none) : w.overlay.isMarked n = false := by
  refine Bool.eq_false_iff.2 fun hm => ?_
  obtain ⟨v, hv, -⟩ := hw.barren hm
  cases hn.symm.trans hv

end Stochastic.World
