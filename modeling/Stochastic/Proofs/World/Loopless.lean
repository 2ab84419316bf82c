import Stochastic.Proofs.World.Everywhere

/-!
# No variable reads itself

A program that reads the variable it generates gets an error, and a program that propagates errors
ends with it.  So what a program that succeeds has read does not include its own variable: when it
runs for the first time because the variable is not there yet, and when it is executed again
because the variable is on the stack.

Longer cycles are not excluded: a program that is executed again may read a variable that depends
on its own.

## Main definitions

* `World.Loopless` — no variable has itself among its parents.

## Main results

* `World.not_contains_of_execute` — what a program has read does not include its own variable.
* `World.loopless_of_reachable` — no variable of a world that can be reached reads itself.
-/

namespace Stochastic.World

variable {w w' : World} {r r' : Run} {n : Ident} {v : Variable} {m : Model}

/-- No variable has itself among its parents. -/
def Loopless (w : World) : Prop := w.Everywhere fun n v => v.parents.contains n = false

/-! ## What a program reads -/

/-- A frame that does not hold its own variable does not get it while its program runs: each read
that succeeds has found the variable missing from the stack. -/
theorem frames_of_run {ex : Executor} (hp : ex.Proceeds) {α : Type} {program : Program α}
    (hprog : program.Propagates) {a : α} {parents : OrderedSet Ident} {fs : List Frame}
    (hf : r.frames = ⟨n, parents⟩ :: fs) (hself : parents.contains n = false)
    (ho : program.run (fun p => (read m ex p).attempt) throw r = .ok a r') :
    ∃ parents', r'.frames = ⟨n, parents'⟩ :: fs ∧ parents'.contains n = false := by
  induction program generalizing r parents with
  | done b =>
    obtain ⟨rfl, rfl⟩ := Step.pure_eq_ok.1 ho
    exact ⟨parents, hf, hself⟩
  | fail e => exact absurd ho Step.throw_ne_ok
  | ask k next ih =>
    obtain ⟨x, r₁, hread, hrest⟩ := run_ask_eq_ok hprog ho
    have hk : (k == n) = false := by
      refine (read_eq_ok hread).1 n ?_
      rw [Run.running, hf]
      exact List.mem_cons_self
    refine ih (.ok x) (hprog.2 x) (frames_of_read hp hread hf) ?_ hrest
    rw [OrderedSet.contains_insert, hself, BEq.comm, hk]
    rfl

/-- **A program that succeeds has not read its own variable.** -/
theorem not_contains_of_execute (hm : m.Propagates) {depth : Nat} {d : Distribution}
    {parents : OrderedSet Ident} (ho : execute m depth n r = .ok (d, parents) r') :
    parents.contains n = false := by
  cases depth with
  | zero => cases ho
  | succ depth =>
    obtain ⟨r₁, hrun, rfl, rfl⟩ := execute_succ_eq_ok ho
    obtain ⟨parents, hframes, hself⟩ :=
      frames_of_run (execute_proceeds m depth) (hm n) rfl rfl hrun
    rw [hframes]
    exact hself

/-! ## Keeping loops out -/

theorem Loopless.sameCores (h : w.Loopless) (hs : w.SameCores w') : w'.Loopless :=
  Everywhere.sameCores (fun hcore hv => parents_of_core hcore ▸ hv) h hs

/-- A variable that is put in place must not read itself. -/
theorem loopless_name {parents : OrderedSet Ident} (h : parents.contains n = false) (k : Ident)
    (hk : (n == k) = true) : parents.contains k = false := by
  rwa [← OrderedSet.contains_congr parents hk]

/-- A variable that is not there is not among those that its program has read. -/
theorem Ran.not_contains {d : Distribution} {parents : OrderedSet Ident}
    (h : Ran m w.known n d parents) (hn : w.lookup? n = none) : parents.contains n = false := by
  obtain ⟨reads, hagainst, hparents⟩ := h
  rw [hparents]
  refine Bool.eq_false_iff.2 fun hmem => ?_
  obtain ⟨k, hk, hnk⟩ := List.contains_iff_exists_mem_beq.1 hmem
  obtain ⟨x, hx⟩ := Program.exists_value_of_against hagainst hk
  rw [known, ← lookup?_congr w hnk, hn] at hx
  cases hx

/-- Running programs keeps loops out. -/
theorem loopless_sustained (m : Model) : Sustained m fun r => r.Wired ∧ r.world.Loopless where
  view h hc ho hf :=
    ⟨h.1.view hc ho hf, Everywhere.congr h.2 (lookup?_eq_of_view hc ho)⟩
  enter n h := ⟨h.1.enter n, h.2⟩
  revive {r r' n} h hn ho := by
    obtain ⟨hw, hlive⟩ := h.1.revive hn ho
    have hs : Restores r r' := Step.after_eq_of_ok ho ▸ restores_revive n r
    exact ⟨⟨hw, h.2.sameCores hs.cores⟩, hlive⟩
  connect {r r' n} h hl ho := by
    refine ⟨h.1.connect hl ho, ?_⟩
    obtain ⟨-, hc⟩ | ⟨f, fs, -, hworld, hc⟩ := connect_cases n r
    · rw [hc] at ho
      cases ho
      exact h.2
    · rw [hc] at ho
      have hs := restores_attach f.node n (r.noting n)
      rw [Step.after_eq_of_ok ho] at hs
      exact Loopless.sameCores (hworld ▸ h.2) hs.cores
  create value transformConstrained h hn hran := by
    obtain ⟨hw, hlive⟩ := h.1.create (v := .create _ value _ transformConstrained) hn rfl rfl
    exact ⟨⟨hw, Everywhere.put h.2 (loopless_name (hran.not_contains hn))⟩, hlive⟩

/-- Nothing is running, the edges agree, and no variable reads itself. -/
def Run.Rests (r : Run) : Prop := r.frames = [] ∧ r.world.Wired ⊥ ⊥ ∧ r.world.Loopless

theorem rests_reexecute (hm : m.Propagates) (h : r.Rests)
    (hn : r.world.overlay.isMarked n = false) (ho : reexecute m n r = .ok () r') : r'.Rests := by
  obtain ⟨hf, hw⟩ := wired_reexecute hm h.1 h.2.1 hn ho
  obtain ⟨d, parents, r₁, v, hx, -, hd⟩ := reexecute_eq_ok.1 ho
  have hstart : r.Wired ∧ r.world.Loopless := ⟨(Run.wired_iff h.1).2 h.2.1, h.2.2⟩
  obtain ⟨⟨-, h₁⟩, -⟩ := execute_sustains hm (loopless_sustained m) _ hstart hx
  have hself : parents.contains n = false := not_contains_of_execute hm hx
  have h₂ : (r₁.replace n v (revised v d parents)).world.Loopless :=
    Everywhere.replace h₁ (loopless_name hself)
  exact ⟨hf, hw, h₂.sameCores (sheds_forM_detach hd).cores⟩

theorem loopless_proposal (hm : m.Propagates) {value : Tensor Float} {p : Proposal}
    (h : r.Rests) (ho : proposal m n value r = .ok p r') : r'.world.Loopless := by
  obtain ⟨-, v, shifts, r₁, created, deleted, hv, hrev, -, hworld, -⟩ := proposal_eq_ok ho
  rw [hworld]
  have hstart : ((r.proposing n).replace n v (v.setValue value)).Rests := by
    refine ⟨?_, wired_proposing value hv h.2.1, ?_⟩
    · rw [Run.frames_replace]
      exact h.1
    · exact Everywhere.replace (r := r.proposing n) h.2.2 (loopless_name (h.2.2 n v hv))
  exact (revisions_relate (R := fun a b => a.Rests → b.Rests) (fun _ h => h)
    (fun hab hbc ha => hbc (hab ha)) (fun hn hx ha => rests_reexecute hm ha hn hx) hrev hstart).2.2

/-- **No variable reads itself** in a world that can be reached, and none does once the staged
changes are rejected. -/
theorem loopless_of_reachable (hm : m.Propagates) (h : Reachable m w) :
    w.Loopless ∧ w.reject.state.Loopless := by
  refine everywhere_of_reachable (fun {w n x r'} hw hl ho => ?_) (fun hw hl ho => ?_) h
  · change read m (execute m w.config.maxDepth) n { world := w } = .ok x r' at ho
    have hstart : Run.Wired { world := w } := (Run.wired_iff rfl).2 (sound_of_reachable hm hw).live
    exact ((loopless_sustained m).read (execute_sustains hm (loopless_sustained m) _)
      (execute_proceeds m _) ⟨hstart, hl⟩ ho).2
  · have hstart : Run.Rests { world := _ } := ⟨rfl, (sound_of_reachable hm hw).live, hl⟩
    exact loopless_proposal hm hstart ho

end Stochastic.World
