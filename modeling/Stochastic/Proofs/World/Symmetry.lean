import Stochastic.Proofs.World.Revision
import Stochastic.Proofs.World.Upkeep

/-!
# Edges are recorded on both sides

In every world that is grown by visits and proposals, accepted or rejected in any order, a live
variable reads another exactly if that one is live and lists it as a reader.

While programs run, the edges of a program that is running are surplus: the variables it has
read list it already, and it records them only when it has ended.  That is the one imbalance,
so nothing is left of it when the last program has ended.  Executing a program again makes the
edges surplus that it has dropped, and detaching removes these.

A step that fails may leave the staged changes out of balance, but it does not touch what is
committed; so everything is right again once the changes are rejected.

## Main definitions

* `World.Run.Wired` — the invariant of a run.
* `World.Operation`, `World.carryOut`, `World.Reachable` — what can be done to a world from
  outside.

## Main results

* `World.wired_sustained` — running programs keeps the invariant.
* `World.wired_proposal` — so does a proposal.
* `World.lookup?_accept` — accepting the staged changes commits the live view.
* `World.symmetric_of_reachable` — every world that can be reached is symmetric.
-/

namespace Stochastic.World

variable {w w' : World} {r r' : Run} {n c p : Ident} {v : Variable} {m : Model}
  {surplus missing : Ident → Ident → Prop}

/-! ## While programs run -/

/-- The edges of the programs that are running. -/
def Reading (r : Run) : Ident → Ident → Prop :=
  fun c p => ∃ f ∈ r.frames, (c == f.node) = true ∧ f.parents.contains p = true

/-- The edges agree but for those of running programs, and these are listed. -/
structure Run.Wired (r : Run) : Prop where
  edges : r.world.Wired (Reading r) ⊥
  listed : ∀ f ∈ r.frames, ∀ p, f.parents.contains p = true → r.world.Lists p f.node

/-- Nothing but the variables and marks that are found matters. -/
theorem Wired.congr (h : w.Wired surplus missing) (hl : ∀ n, w'.lookup? n = w.lookup? n)
    (hm : ∀ n, w'.overlay.isMarked n = w.overlay.isMarked n) : w'.Wired surplus missing := by
  refine ⟨fun hr => ?_, fun hr => ?_, fun hn => ?_⟩
  · rw [reads_iff, hl, hm] at hr
    rw [lists_iff, hl, hm]
    exact (h.listed (reads_iff.2 hr)).imp_left lists_iff.1
  · rw [lists_iff, hl, hm] at hr
    rw [reads_iff, hl, hm]
    exact (h.read (lists_iff.2 hr)).imp_left reads_iff.1
  · rw [hl]
    exact h.barren (hm _ ▸ hn)

theorem lookup?_eq_of_view (hc : w'.committed = w.committed) (ho : w'.overlay = w.overlay)
    (n : Ident) : w'.lookup? n = w.lookup? n := by
  rw [lookup?, lookup?, hc, ho]

theorem Run.Wired.view (h : r.Wired) (hc : r'.world.committed = r.world.committed)
    (ho : r'.world.overlay = r.world.overlay) (hf : r'.frames = r.frames) : r'.Wired := by
  refine ⟨?_, Run.Noted.view h.listed hc ho hf⟩
  have hr : Reading r' = Reading r := by unfold Reading; rw [hf]
  rw [hr]
  exact h.edges.congr (lookup?_eq_of_view hc ho) fun n => by rw [ho]

theorem Run.Wired.enter (n : Ident) (h : r.Wired) :
    Run.Wired { r with frames := ⟨n, .empty⟩ :: r.frames } :=
  ⟨h.edges.mono (fun ⟨f, hf, he⟩ => .inr ⟨f, List.mem_cons_of_mem _ hf, he⟩) .inr,
    Run.Noted.enter n h.listed⟩

theorem Run.Wired.revive (h : r.Wired) (hn : r.world.overlay.isMarked n = true)
    (ho : revive n r = .ok () r') : r'.Wired ∧ ∃ v, r'.world.live? n = some v := by
  have hs : Restores r r' := Step.after_eq_of_ok ho ▸ restores_revive n r
  obtain ⟨hw, hm⟩ := wired_revive ho hn h.edges
  have hr : Reading r' = Reading r := by unfold Reading; rw [hs.frames]
  refine ⟨⟨hr ▸ hw, Run.Noted.restores h.listed hs⟩, ?_⟩
  obtain ⟨v, hv, -⟩ := h.edges.barren hn
  obtain ⟨v', hv', -⟩ := hs.cores.exists_core hv
  exact ⟨v', live?_eq_some.2 ⟨hm, hv'⟩⟩

/-- Connecting a live variable adds one edge, which is surplus as long as its reader runs. -/
theorem Run.Wired.connect (h : r.Wired) (hl : ∃ v, r.world.live? n = some v)
    (ho : connect n r = .ok () r') : r'.Wired := by
  refine ⟨?_, Run.Noted.connect h.listed hl ho⟩
  rcases connect_cases n r with ⟨-, hc⟩ | ⟨f, fs, hfr, hw, hc⟩
  · rw [hc] at ho
    cases ho
    exact h.edges
  · have hfr' := frames_of_connect ho hfr
    rw [hc] at ho
    obtain ⟨v, hv⟩ := hl
    have hm : (r.noting n).world.overlay.isMarked n = false := hw ▸ (live?_eq_some.1 hv).1
    refine (wired_attach_surplus ho hm (hw ▸ h.edges)).mono (fun {c' p'} he => .inr ?_) .inr
    rcases he with ⟨f', hf', he⟩ | he
    · rcases List.mem_cons.1 (hfr ▸ hf') with rfl | hf'
      · refine ⟨{ f' with parents := f'.parents.insert n }, hfr' ▸ List.mem_cons_self, he.1, ?_⟩
        rw [OrderedSet.contains_insert, he.2, Bool.true_or]
      · exact ⟨f', hfr' ▸ List.mem_cons_of_mem _ hf', he⟩
    · refine ⟨{ f with parents := f.parents.insert n }, hfr' ▸ List.mem_cons_self, he.1, ?_⟩
      rw [OrderedSet.contains_insert, he.2, Bool.or_true]

/-- Creating a variable with the edges of its program, which has ended, balances them. -/
theorem Run.Wired.create {parents : OrderedSet Ident}
    (h : Run.Wired { r with frames := ⟨n, parents⟩ :: r.frames }) (hn : r.world.lookup? n = none)
    (hp : v.parents = parents) (hc : v.children.toList = []) :
    (r.creating n v).Wired ∧ ∃ v', (r.creating n v).world.live? n = some v' := by
  have hm : r.world.overlay.isMarked n = false := h.edges.isMarked_eq_false hn
  -- what the variable reads its frame has recorded, so it is listed there
  have hl : ∀ p, v.parents.contains p = true → r.world.Lists p n := fun p hvp =>
    h.listed ⟨n, parents⟩ List.mem_cons_self p (hp ▸ hvp)
  refine ⟨⟨(wired_creating hn hl hc h.edges).mono (fun {c p} he => ?_) .inr,
    Run.Noted.creating h.listed hn⟩, v, live?_eq_some.2 ⟨hm, lookup?_put_self ..⟩⟩
  -- a surplus edge belongs to a program that runs, maybe the one that ended
  obtain ⟨f, hf, hcf, hpf⟩ := he
  rcases List.mem_cons.1 hf with rfl | hf
  · rw [Run.world_creating, reads_put, if_pos (BEq.symm hcf), hp]
    exact .inl ⟨isMarked_congr r.world hcf ▸ hm, hpf⟩
  · exact .inr ⟨f, hf, hcf, hpf⟩

/-- **Running programs keeps the edges in balance.** -/
theorem wired_sustained (m : Model) : Sustained m Run.Wired where
  view := Run.Wired.view
  enter := Run.Wired.enter
  revive := Run.Wired.revive
  connect := Run.Wired.connect
  create _ _ h hn _ := h.create hn rfl rfl

/-- When nothing is running, the edges agree. -/
theorem Run.wired_iff (hf : r.frames = []) : r.Wired ↔ r.world.Wired ⊥ ⊥ := by
  have hr : Reading r = ⊥ := by
    funext c p
    unfold Reading
    rw [hf]
    refine propext ⟨?_, False.elim⟩
    rintro ⟨_, h, -⟩
    cases h
  constructor
  · intro h
    exact hr ▸ h.edges
  · intro h
    refine ⟨hr ▸ h, fun f hf' => ?_⟩
    rw [hf] at hf'
    cases hf'

/-! ## Proposals -/

theorem reads_put_iff {v' : Variable} (hv : w.lookup? n = some v) (hp : v'.parents = v.parents) :
    (w.put n v').Reads c p ↔ w.Reads c p := by
  rw [reads_put]
  by_cases h : (n == c) = true
  · rw [if_pos h, reads_iff, ← lookup?_congr w h, hv, hp]
    simp
  · rw [if_neg h]

theorem lists_put_iff {v' : Variable} (hv : w.lookup? n = some v) (hc : v'.children = v.children) :
    (w.put n v').Lists p c ↔ w.Lists p c := by
  rw [lists_put]
  by_cases h : (n == p) = true
  · rw [if_pos h, lists_iff, ← lookup?_congr w h, hv, hc]
    simp
  · rw [if_neg h]

theorem barren_put {v' : Variable} (hv : w.lookup? n = some v) (hc : v'.children = v.children)
    (hw : w.Wired surplus missing) {k : Ident} (hk : (w.put n v').overlay.isMarked k = true) :
    ∃ u, (w.put n v').lookup? k = some u ∧ u.children.toList = [] := by
  obtain ⟨u, hu, hcu⟩ := hw.barren hk
  rw [lookup?_put]
  by_cases h : (n == k) = true
  · rw [← lookup?_congr w h, hv] at hu
    cases hu
    exact ⟨v', if_pos h, hc ▸ hcu⟩
  · exact ⟨u, (if_neg h).trans hu, hcu⟩

/-- Edges do not depend on values. -/
theorem wired_put {v' : Variable} (hv : w.lookup? n = some v) (hp : v'.parents = v.parents)
    (hc : v'.children = v.children) (hw : w.Wired surplus missing) :
    (w.put n v').Wired surplus missing := by
  refine ⟨fun hr => ?_, fun hl => ?_, barren_put hv hc hw⟩
  · rw [lists_put_iff hv hc]
    exact hw.listed ((reads_put_iff hv hp).1 hr)
  · rw [reads_put_iff hv hp]
    exact hw.read ((lists_put_iff hv hc).1 hl)

theorem children_revised (v : Variable) (d : Distribution) (parents : OrderedSet Ident) :
    (revised v d parents).children = v.children := rfl

/-- With what a variable reads now put in place, whatever is read lists its reader, if the program
of the variable has seen to that. -/
theorem lists_put_revised {parents : OrderedSet Ident} {d : Distribution}
    (hv : w.lookup? n = some v) (hl : ∀ p, parents.contains p = true → w.Lists p n)
    (hw : w.Wired surplus ⊥) (hr : (w.put n (revised v d parents)).Reads c p) :
    (w.put n (revised v d parents)).Lists p c := by
  rw [lists_put_iff hv (children_revised ..)]
  rw [reads_put] at hr
  by_cases h : (n == c) = true
  · rw [if_pos h] at hr
    exact (lists_congr w (BEq.refl p) h).1 (hl p hr.2)
  · rw [if_neg h] at hr
    exact (hw.listed hr).resolve_right id

/-- Putting in place what a variable reads now leaves the edges surplus that it has dropped. -/
theorem wired_put_revised {parents : OrderedSet Ident} (d : Distribution)
    (hv : w.lookup? n = some v) (hm : w.overlay.isMarked n = false)
    (hl : ∀ p, parents.contains p = true → w.Lists p n)
    (hw : w.Wired (EdgesTo n parents.toList) ⊥) :
    (w.put n (revised v d parents)).Wired (⊥ ⊔ EdgesTo n (dropped v parents)) ⊥ := by
  refine ⟨fun hr => .inl (lists_put_revised hv hl hw hr), fun {c p} hlp => ?_,
    barren_put hv (children_revised ..) hw⟩
  rw [reads_put]
  have hr := hw.read ((lists_put_iff hv (children_revised ..)).1 hlp)
  by_cases h : (n == c) = true
  · rw [if_pos h]
    by_cases hp : parents.contains p = true
    · exact .inl ⟨isMarked_congr w h ▸ hm, hp⟩
    · -- The edge is one of before, and the program has not read the variable again.
      have hr : w.Reads n p :=
        (reads_congr w (BEq.symm h) (BEq.refl p)).1 (hr.resolve_right fun he => hp he.2)
      have hvp := (reads_of_lookup? hm hv).1 hr
      obtain ⟨q, hq, hpq⟩ := List.contains_iff_exists_mem_beq.1 hvp
      refine .inr (.inr ⟨BEq.symm h, List.contains_iff_exists_mem_beq.2 ⟨q, ?_, hpq⟩⟩)
      refine List.mem_filter.2 ⟨hq, ?_⟩
      rw [← OrderedSet.contains_congr parents hpq, Bool.eq_false_iff.2 hp]
      rfl
  · rw [if_neg h]
    exact hr.imp_right fun he => absurd (BEq.symm he.1) h

/-- What is dropped is not among the parents that are in place now. -/
theorem not_reads_dropped {parents : OrderedSet Ident} {d : Distribution} {q : Ident}
    (hm : r.world.overlay.isMarked n = false) (hq : q ∈ dropped v parents) :
    ¬ (r.replace n v (revised v d parents)).world.Reads n q := by
  intro hr
  have hl : (r.replace n v (revised v d parents)).world.lookup? n =
      some (revised v d parents) := by
    rw [lookup?_replace, if_pos (BEq.refl n)]
  have hp : parents.contains q = true :=
    (reads_of_lookup? (isMarked_replace r .. ▸ hm) hl).1 hr
  have hq' := (List.mem_filter.1 hq).2
  rw [hp] at hq'
  cases hq'

/-- Executing a program again keeps the edges of a live variable in balance. -/
theorem wired_reexecute (hm : m.Propagates) (hf : r.frames = []) (hw : r.world.Wired ⊥ ⊥)
    (hn : r.world.overlay.isMarked n = false) (ho : reexecute m n r = .ok () r') :
    r'.frames = [] ∧ r'.world.Wired ⊥ ⊥ := by
  obtain ⟨d, parents, r₁, v, hx, hv, hd⟩ := reexecute_eq_ok.1 ho
  have hret := (execute_proceeds m r.world.config.maxDepth n r).1
  rw [Step.after_eq_of_ok hx] at hret
  -- executing sets no marks, so the variable is still live
  have hf₁ : r₁.frames = [] := hret.2.trans hf
  have hn₁ : r₁.world.overlay.isMarked n = false := by
    refine Bool.eq_false_iff.2 fun hmn => ?_
    rw [hret.1.marks n hmn] at hn
    cases hn
  obtain ⟨h₁, -⟩ := execute_sustains hm (wired_sustained m) _ ((Run.wired_iff hf).2 hw) hx
  -- The one frame that is left is that of the program itself.
  have hw₁ : r₁.world.Wired (EdgesTo n parents.toList) ⊥ := by
    refine h₁.edges.mono (fun ⟨f, hf', hc, hp⟩ => .inr ?_) .inr
    rw [hf₁] at hf'
    obtain rfl := List.mem_singleton.1 hf'
    exact ⟨hc, hp⟩
  have hw₂ := wired_put_revised d hv hn₁ (h₁.listed _ List.mem_cons_self) hw₁
  have hw₃ : (r₁.replace n v (revised v d parents)).world.Wired
      (⊥ ⊔ EdgesTo n (dropped v parents)) ⊥ :=
    hw₂.congr (fun k => by rw [lookup?_replace, lookup?_put]) fun k => isMarked_replace ..
  refine ⟨by rw [(sheds_forM_detach hd).frames, Run.frames_replace, hf₁], wired_forM_detach
    (fun q r => sheds_detach n q r) (fun _ hq => wired_detach hq) hd
    (fun q hq => not_reads_dropped hn₁ hq) hw₃⟩

theorem wired_revisions (hm : m.Propagates) {cs : List Ident}
    {shifts : List (Option (Ident × Shift))}
    (hf : r.frames = []) (hw : r.world.Wired ⊥ ⊥)
    (ho : (cs.mapM (revise m) : Step _) r = .ok shifts r') :
    r'.frames = [] ∧ r'.world.Wired ⊥ ⊥ := by
  let Balanced (r : Run) : Prop := r.frames = [] ∧ r.world.Wired ⊥ ⊥
  refine revisions_relate (R := fun a b => Balanced a → Balanced b) (fun _ h => h)
    (fun hab hbc ha => hbc (hab ha)) (fun hn hx ha => ?_) ho ⟨hf, hw⟩
  exact wired_reexecute hm ha.1 ha.2 hn hx

/-- Giving a variable its value does not touch the edges. -/
theorem wired_proposing (value : Tensor Float) (hv : r.world.lookup? n = some v)
    (hw : r.world.Wired surplus missing) :
    ((r.proposing n).replace n v (v.setValue value)).world.Wired surplus missing := by
  have hput : (r.world.put n (v.setValue value)).Wired surplus missing := wired_put hv rfl rfl hw
  refine hput.congr (fun k => ?_) fun k => isMarked_replace (r.proposing n) ..
  rw [lookup?_replace, lookup?_put]
  rfl

/-- **A proposal that succeeds keeps the edges in balance.** -/
theorem wired_proposal (hm : m.Propagates) {value : Tensor Float} {p : Proposal}
    (hf : r.frames = []) (hw : r.world.Wired ⊥ ⊥) (ho : proposal m n value r = .ok p r') :
    r'.world.Wired ⊥ ⊥ := by
  obtain ⟨-, v, shifts, r₁, created, deleted, hv, hrev, -, hr', -⟩ := proposal_eq_ok ho
  rw [hr']
  refine (wired_revisions hm ?_ (wired_proposing value hv hw) hrev).2
  rw [Run.frames_replace]
  exact hf

/-! ## What is committed -/

/-- The same variables are committed. -/
def SameBase (r r' : Run) : Prop := r'.world.committed = r.world.committed

theorem SameBase.trans {a b c : Run} (h : SameBase a b) (h' : SameBase b c) : SameBase a c :=
  Eq.trans h' h

theorem sameBase_of_moves (h : Moves r r') : SameBase r r' := (grows_of_moves h).committed

theorem tracks_sameBase (m : Model) : Tracks m SameBase where
  refl _ := rfl
  trans := SameBase.trans
  execute depth n r := sameBase_of_moves (execute_proceeds m depth n r).1.1.moves
  detach c p r := sameBase_of_moves (sheds_detach c p r).moves
  put _ _ _ := rfl
  recordPrior n r := congrArg World.committed (Run.world_recordPrior r n)
  proposing _ _ := rfl
  write _ _ := rfl

theorem progress_visit (m : Model) (n : Ident) (r : Run) : Progress r ((visit m n).after r) :=
  progress_read (execute_proceeds m r.world.config.maxDepth) n r

theorem frames_visit (hf : r.frames = []) : ((visit m n).after r).frames = [] := by
  have hrunning := (progress_visit m n r).running
  unfold Run.running at hrunning
  rw [hf] at hrunning
  exact List.map_eq_nil_iff.1 hrunning

/-- A visit does not touch what is committed, also if it fails. -/
theorem sameBase_visit (m : Model) (n : Ident) (r : Run) : SameBase r ((visit m n).after r) :=
  sameBase_of_moves (progress_visit m n r).moves

/-- A proposal does not touch what is committed, also if it fails. -/
theorem sameBase_proposal (m : Model) (n : Ident) (value : Tensor Float) (r : Run) :
    SameBase r ((proposal m n value).after r) :=
  (tracks_sameBase m).proposal n value r

/-- **Accepting the staged changes commits the live view.** -/
theorem lookup?_accept (w : World) (n : Ident) : w.accept.state.lookup? n = w.live? n := by
  change (settle w.committed w.overlay).get? n = _
  have hd : (w.overlay.staged.entries.filter fun e => !w.overlay.isMarked e.1).Pairwise
      fun e e' => (e.1 == e'.1) = false := w.overlay.staged.distinct.sublist List.filter_sublist
  have hf := Table.lookup_filter (p := fun k => !w.overlay.isMarked k) n w.overlay.staged.entries
    fun k hk => by rw [isMarked_congr w hk]
  rw [settle, Table.get?_foldl_erase, Table.get?_foldl_insert _ hd, hf, live?, lookup?]
  change (if w.overlay.isMarked n then _ else _) = _
  cases w.overlay.isMarked n with
  | true => rfl
  | false =>
    simp only [Bool.not_false, if_true, Bool.false_eq_true, if_false]
    change Option.or (w.overlay.staged.get? n) _ = _
    cases w.overlay.staged.get? n <;> rfl

/-! ## Histories of a world -/

/-- What can be done to a world from outside. -/
inductive Operation where
  | update (n : Ident)
  | propose (n : Ident) (value : Tensor Float)
  | accept
  | reject
  | observe (observations : List (Ident × Tensor Float))
  | ask (queries : List Ident)

/-- Does an operation. -/
def perform (m : Model) (w : World) : Operation → Reply World Error Unit
  | .update n => (update m w n).map fun _ => ()
  | .propose n value => (propose m w n value).map fun _ => ()
  | .accept => w.accept
  | .reject => w.reject
  | .observe observations => (w.observe observations).map fun _ => ()
  | .ask queries => .of (w.ask queries) (.ok ())

/-- The world after a step, in which the staged changes are rejected if the step has failed. -/
def orRejected {α : Type} (reply : Reply World Error α) : World :=
  match reply.result with
  | .ok _ => reply.state
  | .error _ => reply.state.reject.state

theorem orRejected_map {α β : Type} (f : α → β) (reply : Reply World Error α) :
    orRejected (reply.map f) = orRejected reply := by
  unfold orRejected Reply.map
  cases reply.result <;> rfl

/-- What holds of the world after a step from outside: the step has succeeded, or the changes are
rejected, and in any case the same variables are committed. -/
theorem orRejected_reply {α : Type} {P : World → Prop} (step : Step α)
    (hb : SameBase { world := w } (step.after { world := w }))
    (hok : ∀ {a r'}, step { world := w } = .ok a r' → r'.world.committed = w.committed →
      P r'.world)
    (herror : ∀ {w' : World}, w'.committed = w.committed → P w'.reject.state) :
    P (orRejected (step.reply w)) := by
  unfold Step.reply
  rw [Step.after] at hb
  cases hs : step { world := w } with
  | ok a r' =>
    rw [hs] at hb
    exact hok hs hb
  | error e r' =>
    rw [hs] at hb
    exact herror hb

/-- Does an operation, and rejects the staged changes if it has failed. -/
def carryOut (m : Model) (w : World) (op : Operation) : World := orRejected (perform m w op)

/-- The worlds that operations lead to, failed ones being followed by a rejection. -/
inductive Reachable (m : Model) : World → Prop where
  | new (config : Config) : Reachable m (.new config)
  | step {w : World} (op : Operation) : Reachable m w → Reachable m (carryOut m w op)

/-- The edges agree, and would agree if the staged changes were rejected. -/
structure Sound (w : World) : Prop where
  live : w.Wired ⊥ ⊥
  base : w.reject.state.Wired ⊥ ⊥

theorem sound_of_committed (h : w.Sound) (hc : w'.committed = w.committed) :
    w'.reject.state.Sound := by
  have hw : w'.reject.state.Wired ⊥ ⊥ := by
    refine h.base.congr (fun n => ?_) fun n => rfl
    change w'.committed.get? n = w.committed.get? n
    rw [hc]
  exact ⟨hw, hw⟩

/-- A step from outside that keeps the edges in balance when it succeeds, and what is committed
in any case, can be carried out. -/
theorem sound_reply {α : Type} (step : Step α) (h : w.Sound)
    (hb : SameBase { world := w } (step.after { world := w }))
    (hw : ∀ a r', step { world := w } = .ok a r' → r'.world.Wired ⊥ ⊥) :
    (orRejected (step.reply w)).Sound :=
  orRejected_reply step hb
    (fun hs hb => ⟨hw _ _ hs, (sound_of_committed h hb).live⟩) (sound_of_committed h)

theorem sound_update (hm : m.Propagates) (h : w.Sound) (n : Ident) :
    (carryOut m w (.update n)).Sound := by
  have hp := execute_proceeds m w.config.maxDepth
  rw [carryOut, perform, orRejected_map]
  refine sound_reply (visit m n) h (sameBase_visit m n _) fun a r' ho => ?_
  have hf : r'.frames = [] := Step.after_eq_of_ok ho ▸ frames_visit rfl
  change read m (execute m w.config.maxDepth) n { world := w } = .ok a r' at ho
  have hI := (wired_sustained m).read (execute_sustains hm (wired_sustained m) _) hp
    ((Run.wired_iff rfl).2 h.live) ho
  exact (Run.wired_iff hf).1 hI

theorem sound_propose (hm : m.Propagates) (h : w.Sound) (n : Ident) (value : Tensor Float) :
    (carryOut m w (.propose n value)).Sound := by
  rw [carryOut, perform, orRejected_map, propose, orRejected_map]
  exact sound_reply _ h (sameBase_proposal m n value _)
    fun a r' ho => wired_proposal hm rfl h.live ho

/-- Once accepted, the live view is what is committed. -/
theorem sound_accept (h : w.Sound) : w.accept.state.Sound := by
  have hlive : ∀ n, w.accept.state.live? n = w.live? n := fun n => lookup?_accept w n
  have hw : w.accept.state.Wired ⊥ ⊥ := by
    refine Symmetric.wired (fun c p => ?_) fun n => rfl
    have hsym := h.live.symmetric c p
    unfold Reads Lists at hsym ⊢
    simpa only [hlive] using hsym
  exact ⟨hw, hw⟩

theorem sound_carryOut (hm : m.Propagates) (h : w.Sound) (op : Operation) :
    (carryOut m w op).Sound := by
  cases op with
  | update n => exact sound_update hm h n
  | propose n value => exact sound_propose hm h n value
  | accept => exact sound_accept h
  | reject => exact sound_of_committed h rfl
  | observe observations =>
    exact ⟨h.live.congr (fun _ => rfl) fun _ => rfl, h.base.congr (fun _ => rfl) fun _ => rfl⟩
  | ask queries =>
    exact ⟨h.live.congr (fun _ => rfl) fun _ => rfl, h.base.congr (fun _ => rfl) fun _ => rfl⟩

theorem sound_of_reachable (hm : m.Propagates) (h : Reachable m w) : w.Sound := by
  induction h with
  | new config =>
    have hw : (World.new config).Wired ⊥ ⊥ := by
      refine Symmetric.wired (fun c p => ⟨?_, ?_⟩) fun n => rfl <;> rintro ⟨_, hv, -⟩ <;> cases hv
    exact ⟨hw, hw⟩
  | step op _ ih => exact sound_carryOut hm ih op

/-- **Edges are recorded on both sides**: in every world that can be reached, a live variable
reads another exactly if that one is live and lists it as a reader. -/
theorem symmetric_of_reachable (hm : m.Propagates) (h : Reachable m w) : w.Symmetric :=
  (sound_of_reachable hm h).live.symmetric

/-! ## A variable that is dropped and picked up again -/

namespace Forked

/-- The variable that the others depend on. -/
def root : Ident := ⟨"root", []⟩

/-- A reader of `root` that two more readers of it read by turns. -/
def shared : Ident := ⟨"shared", []⟩

/-- The reader that reads `shared` as long as `root` is small. -/
def early : Ident := ⟨"early", []⟩

/-- The reader that reads `shared` as soon as `root` is large. -/
def late : Ident := ⟨"late", []⟩

/-- The program of a variable that reads `shared` if it is wanted. -/
def leaning (wanted : Bool) : Program Distribution :=
  if wanted then do return .uniform (← .readItem shared) 4 else return .uniform 0 1

/-- Four variables, of which the last two take turns to read `shared`. -/
def model : Model where
  program n :=
    if n.name = "root" then return .uniform 0 4
    else do
      let x ← .readItem root
      if n.name = "early" then leaning (x < 0.5)
      else if n.name = "late" then leaning (!(x < 0.5))
      else return if x < 0.5 then .uniform 0 1 else .uniform 0 2
  sampler _ _ := .scalar 0.25

theorem model_propagates : model.Propagates := by
  have hlean : ∀ wanted, (leaning wanted).Propagates := fun wanted => by
    cases wanted
    · exact trivial
    · exact (Program.propagates_readItem shared).bind fun _ => trivial
  intro n
  unfold model
  simp only
  split
  · exact trivial
  refine (Program.propagates_readItem root).bind fun x => ?_
  split
  · exact hlean _
  split
  · exact hlean _
  · exact trivial

/-- The world with both readers generated and accepted, in which `early` reads `shared`. -/
def before : World := [.update early, .update late, .accept].foldl (carryOut model) (.new {})

/-- The world after a large value of `root` is proposed, in which `late` reads `shared`. -/
def after : World := carryOut model before (.propose root (.scalar 1))

theorem reachable_before : Reachable model before :=
  ((Reachable.new {}).step (.update early)).step (.update late) |>.step .accept

end Forked

/-- The edges agree after a proposal in which one reader has dropped a variable, which was
marked, and another one has picked it up and revived it. -/
theorem symmetric_of_reachable_forked :
    Forked.model.Propagates ∧ Reachable Forked.model Forked.after ∧
      Forked.before.Reads Forked.early Forked.shared ∧
      Forked.after.Reads Forked.late Forked.shared ∧ Forked.after.Symmetric := by
  have hreach : Reachable Forked.model Forked.after := Forked.reachable_before.step _
  exact ⟨Forked.model_propagates, hreach, by decide +kernel, by decide +kernel,
    symmetric_of_reachable Forked.model_propagates hreach⟩

end Stochastic.World
