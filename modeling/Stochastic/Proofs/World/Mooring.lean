import Stochastic.Proofs.World.Ancestry
import Stochastic.Proofs.World.Isolation

/-!
# Worlds in which calls have failed

Whoever calls is free to go on after a call that has failed, with whatever it has left.  Then
variables may list readers that have never been generated, and a variable may be listed by one that
it does not read, because its program has failed before it was put in place.

Other things stay true, with any programs and after any calls, whether these succeed or fail.
Whatever is read lists its reader; a marked variable is there and lists nobody; and the parents of
a variable are there.  This is so because an edge is listed before it is recorded, and recorded
otherwise before it is unlisted.  Detaching and reviving variables cannot fail then, so they are
never left half done.

## Main definitions

* `World.Moored` — what stays true of a world.
* `World.Attained` — the worlds that calls lead to, whether these succeed or fail.

## Main results

* `World.exists_detach` — detaching a variable succeeds if all parents are there.
* `World.idle_proposal` — a proposal keeps a world moored, however it ends.
* `World.Attained.moored` — all these worlds are moored.
-/

namespace Stochastic.World

open Relation (TransGen)

variable {w w' : World} {r r' : Run} {n c p : Ident} {v : Variable} {m : Model}

/-! ## Detaching cannot fail -/

theorem exists_detachWithin {depth : Nat} (hc : r.world.Closed)
    (hp : ∃ v, r.world.lookup? p = some v) : ∃ r', detachWithin depth c p r = .ok () r' := by
  induction depth generalizing c p r with
  | zero => exact ⟨r, rfl⟩
  | succ depth ih =>
    obtain ⟨v, hv⟩ := hp
    rw [detachWithin_succ, hv]
    have hs₁ := sheds_relist hv (v.children.erase c)
    have hv₁ := lookup?_relist_self r p v (v.children.erase c)
    simp only
    generalize r.relist p v (v.children.erase c) = r₁ at hs₁ hv₁
    split
    · next ha =>
      -- the variable goes too, and is detached from its own parents, which stay there meanwhile
      refine Step.exists_forM (P := fun r' => r.world.SameCores r'.world) (fun q hq r₂ hs₂ => ?_)
        (hs₁.trans (sheds_marking hv₁ rfl ha)).cores
      have hneeds : r.world.Needs p q :=
        ⟨v, hv, List.contains_iff_exists_mem_beq.2 ⟨q, hq, BEq.refl q⟩⟩
      obtain ⟨r₃, h₃⟩ := ih (c := p) (hc.sameCores hs₂) (hs₂.exists_lookup? (hc hneeds))
      have hs₃ : Sheds r₂ r₃ := Step.after_eq_of_ok h₃ ▸ sheds_detachWithin depth p q r₂
      exact ⟨r₃, h₃, hs₂.trans hs₃.cores⟩
    · exact ⟨r₁, rfl⟩

/-- **Detaching a variable succeeds** if all parents are there. -/
theorem exists_detach (hc : r.world.Closed) (hp : ∃ v, r.world.lookup? p = some v) :
    ∃ r', detach c p r = .ok () r' :=
  exists_detachWithin hc hp

/-! ## Moored worlds -/

/-- Whatever is read lists its reader, marked variables list nobody, and all parents are there.
The marked variables are on no cycle among themselves. -/
structure Moored (w : World) : Prop where
  wired : w.Wired ⊤ ⊥
  closed : w.Closed
  interred : ∀ n, ¬ TransGen w.Interred n n

/-- The invariant of runs that is about no world of before, and in which any variable may have been
executed again. -/
abbrev Run.Moored (r : Run) : Prop := r.Ordered (.new {}) ⊤

theorem closed_new (config : Config) : (World.new config).Closed := by
  rintro c p ⟨_, hv, -⟩
  cases hv

theorem Run.Moored.world (h : r.Moored) : r.world.Moored := ⟨h.wired, h.closed, h.interred⟩

/-- When no program runs, that is all there is to it. -/
theorem Moored.run (h : r.world.Moored) (hf : r.frames = []) : r.Moored where
  wired := h.wired
  noted f hf' := by
    rw [hf] at hf'
    cases hf'
  closed := h.closed
  grown := by
    rintro n ⟨v, hv⟩
    cases hv
  interred := h.interred
  traced n hn := by
    -- there are no traced edges at all
    obtain ⟨p, ⟨-, hdone⟩ | ⟨v, hv, -⟩, -⟩ := TransGen.head'_iff.1 hn
    · exact hdone trivial
    · cases hv

/-- **Running programs keeps a world moored**, however they end. -/
theorem moored_kept : Kept Run.Moored := ordered_kept (closed_new {}) ⊤

theorem Moored.congr (h : w.Moored) (hl : ∀ n, w'.lookup? n = w.lookup? n)
    (hm : ∀ n, w'.overlay.isMarked n = w.overlay.isMarked n) : w'.Moored := by
  have hs : w.SameCores w' := sameCores_of_lookup? hl
  refine ⟨h.wired.congr hl hm, Closed.sameCores h.closed hs, not_transGen_of_cyclic h.interred ?_⟩
  rintro c p ⟨hneeds, hc, hp⟩ -
  exact ⟨hneeds.sameCores hs.symm, hm c ▸ hc, hm p ▸ hp⟩

/-- Values do not matter. -/
theorem Moored.put {v' : Variable} (h : w.Moored) (hv : w.lookup? n = some v)
    (hp : v'.parents = v.parents) (hc : v'.children = v.children) : (w.put n v').Moored := by
  have hneeds : ∀ {c p}, (w.put n v').Needs c p → w.Needs c p := by
    intro c p hcp
    rw [needs_put] at hcp
    by_cases hnc : (n == c) = true
    · rw [if_pos hnc, hp] at hcp
      exact ⟨v, lookup?_congr w hnc ▸ hv, hcp⟩
    · rwa [if_neg hnc] at hcp
  refine ⟨wired_put hv hp hc h.wired, fun hcp => ?_, not_transGen_of_cyclic h.interred ?_⟩
  · obtain ⟨u, hu⟩ := h.closed (hneeds hcp)
    rw [lookup?_put]
    split
    · exact ⟨v', rfl⟩
    · exact ⟨u, hu⟩
  · rintro c p ⟨hcp, hc, hp⟩ -
    exact ⟨hneeds hcp, hc, hp⟩

/-! ## Proposals, however they end -/

/-- No program runs, and the world is moored. -/
structure Run.Idle (r : Run) : Prop where
  frames : r.frames = []
  moored : r.world.Moored

theorem stage_eq_error {e : Error} (h : stage n r = .error e r') : r' = r := by
  unfold stage at h
  cases hv : r.world.lookup? n with
  | none =>
    rw [hv] at h
    cases h
    rfl
  | some v =>
    rw [hv] at h
    cases h

/-- If executing a program again fails, then its program has failed: after that nothing can. -/
theorem reexecute_eq_error {e : Error} (h : r.Idle) (hm : r.world.overlay.isMarked n = false)
    (ho : reexecute m n r = .error e r') :
    r' = (execute m r.world.config.maxDepth n).after r := by
  unfold reexecute at ho
  rw [Step.get_bind] at ho
  rcases Step.bind_eq_error.1 ho with hx | ⟨⟨d, parents⟩, r₁, hx, ho⟩
  · rw [Step.after, hx]
    rfl
  have hret := (execute_proceeds m r.world.config.maxDepth n r).1
  rw [Step.after_eq_of_ok hx] at hret ⊢
  rcases Step.bind_eq_error.1 ho with hs | ⟨v, r₂, hs, ho⟩
  · exact stage_eq_error hs
  obtain ⟨hv, rfl⟩ := stage_eq_ok.1 hs
  rcases Step.bind_eq_error.1 ho with hp | ⟨⟨⟩, r₃, hp, ho⟩
  · cases hp
  obtain rfl := Step.modify_eq_ok.1 hp
  -- what is detached then are parents of before, which are there
  have h₁ := (execute_keeps moored_kept m _ (h.moored.run h.frames)).2 hx
  have hm₁ : r₁.world.overlay.isMarked n = false := by
    refine Bool.eq_false_iff.2 fun hmn => ?_
    rw [hret.1.marks n hmn] at hm
    cases hm
  have h₂ := h₁.revised d (hret.2.trans h.frames) hv hm₁
  have hthere : ∀ q ∈ dropped v parents,
      ∃ u, (r₁.replace n v (revised v d parents)).world.lookup? q = some u := by
    intro q hq
    have hneeds : r₁.world.Needs n q :=
      ⟨v, hv, List.contains_iff_exists_mem_beq.2 ⟨q, (List.mem_filter.1 hq).1, BEq.refl q⟩⟩
    obtain ⟨u, hu⟩ := h₁.closed hneeds
    rw [lookup?_replace]
    split
    · exact ⟨_, rfl⟩
    · exact ⟨u, hu⟩
  have hdetach : ∀ q ∈ dropped v parents, ∀ r' : Run,
      (r₁.replace n v (revised v d parents)).world.SameCores r'.world →
      ∃ r'', detach n q r' = .ok () r'' ∧
        (r₁.replace n v (revised v d parents)).world.SameCores r''.world := by
    intro q hq r' hs
    obtain ⟨r'', h''⟩ := exists_detach (c := n) (Closed.sameCores h₂.closed hs)
      (hs.exists_lookup? (hthere q hq))
    exact ⟨r'', h'', hs.trans (Step.after_eq_of_ok h'' ▸ sheds_detach n q r').cores⟩
  obtain ⟨r₄, h₄⟩ := Step.exists_forM hdetach (SameCores.refl _)
  cases h₄.symm.trans ho

theorem idle_reexecute (h : r.Idle) (hm : r.world.overlay.isMarked n = false) :
    ((reexecute m n).after r).Idle := by
  have hmoored := h.moored.run h.frames
  cases ho : reexecute m n r with
  | ok u r' =>
    rw [Step.after_eq_of_ok ho]
    obtain ⟨hf, h'⟩ := ordered_reexecute (closed_new {}) hmoored h.frames hm ho
    exact ⟨hf, Run.Moored.world (h'.mono fun _ _ => trivial)⟩
  | error e r' =>
    rw [Step.after, ho]
    obtain rfl := reexecute_eq_error h hm ho
    exact ⟨(execute_proceeds m _ n r).1.2.trans h.frames,
      Run.Moored.world (execute_keeps moored_kept m _ hmoored).1⟩

theorem idle_revise (h : r.Idle) : ((revise m n).after r).Idle := by
  let R : Run → Run → Prop := fun a b => a.Idle → b.Idle
  have htrans : ∀ {a b c}, R a b → R b c → R a c := fun hab hbc ha => hbc (hab ha)
  have hlookup : ∀ r, R r ((lookup n).after r) := fun r h => by rwa [Step.after_lookup]
  change (Step.after (ite (r.world.overlay.isMarked n = true) _ _ : Step _) r).Idle
  split
  · exact h
  · next hm =>
    refine Step.after_bind (R := R) htrans (hlookup r) (fun v r₁ h₁ => ?_) h
    obtain ⟨rfl, -⟩ := Step.lookup_eq_ok.1 h₁
    refine Step.after_bind (R := R) htrans (fun h => idle_reexecute h (Bool.eq_false_iff.2 hm))
      fun _ r₂ _ => ?_
    exact Step.after_bind (R := R) htrans (hlookup r₂) fun _ r₃ _ h => h

theorem idle_move {value : Tensor Float} (h : r.Idle) : ((move n value).after r).Idle := by
  cases ho : move n value r with
  | ok a r' =>
    rw [Step.after_eq_of_ok ho]
    obtain ⟨v, hv, rfl, -⟩ := move_eq_ok.1 ho
    refine ⟨(Run.frames_replace ..).trans h.frames, ?_⟩
    have hput : (r.world.put n (v.setValue value)).Moored := h.moored.put hv rfl rfl
    refine hput.congr (fun k => ?_) fun k => isMarked_replace ..
    rw [lookup?_replace, lookup?_put]
    rfl
  | error e r' =>
    -- there is no such variable
    rw [Step.after, ho]
    rcases Step.bind_eq_error.1 ho with h₁ | ⟨⟨⟩, r₁, h₁, ho⟩
    · cases h₁
    obtain rfl := Step.modify_eq_ok.1 h₁
    rcases Step.bind_eq_error.1 ho with hs | ⟨v, r₂, -, ho⟩
    · obtain rfl := stage_eq_error hs
      exact ⟨h.frames, h.moored⟩
    · cases ho

/-- **A proposal keeps a world moored, however it ends.** -/
theorem idle_proposal (m : Model) (n : Ident) (value : Tensor Float) (h : r.Idle) :
    ((proposal m n value).after r).Idle := by
  refine after_proposal (R := fun a b => a.Idle → b.Idle) (fun _ h => h)
    (fun hab hbc ha => hbc (hab ha)) idle_move (fun _ _ _ => idle_revise) (fun _ _ h => ?_) h
  exact ⟨h.frames, h.moored⟩

/-! ## Calls -/

/-- What is live reads what is live, so nothing is missing when the rest is gone. -/
theorem moored_accept (h : w.Moored) : w.accept.state.Moored := by
  have hlive : ∀ n, w.accept.state.live? n = w.live? n := lookup?_accept w
  have hlists : ∀ {c p}, w.accept.state.Needs c p → w.accept.state.Lists p c := by
    rintro c p ⟨v, hv, hp⟩
    rw [lookup?_accept] at hv
    obtain ⟨u, hu, hc⟩ := (h.wired.listed ⟨v, hv, hp⟩).resolve_right id
    exact ⟨u, (hlive p).trans hu, hc⟩
  refine ⟨⟨fun hr => .inl (hlists hr.needs), fun _ => .inr trivial, fun hn => ?_⟩, fun hcp => ?_,
    fun n hn => ?_⟩
  · cases hn
  · obtain ⟨v, hv, -⟩ := hlists hcp
    exact ⟨v, (live?_eq_some.1 hv).2⟩
  · obtain ⟨p, ⟨-, hmarked, -⟩, -⟩ := TransGen.head'_iff.1 hn
    cases hmarked

theorem moored_new (config : Config) : (World.new config).Moored := by
  refine ⟨⟨?_, fun _ => .inr trivial, ?_⟩, closed_new config, ?_⟩
  · rintro c p ⟨v, hv, -⟩
    cases hv
  · intro n hn
    cases hn
  · intro n hn
    obtain ⟨p, ⟨-, hmarked, -⟩, -⟩ := TransGen.head'_iff.1 hn
    cases hmarked

/-- A visit keeps a world moored, however it ends. -/
theorem moored_visit (m : Model) (n : Ident) (h : w.Moored) :
    Run.Moored ((visit m n).after { world := w }) :=
  moored_kept.read (execute_keeps moored_kept m _) (execute_proceeds m _)
    (h.run (r := { world := w }) rfl)

/-- The world is moored, and would be so if staged changes were rejected. -/
structure Berthed (w : World) : Prop where
  live : w.Moored
  base : w.reject.state.Moored

theorem berthed_perform (m : Model) (op : Operation) (h : w.Berthed) :
    (perform m w op).state.Berthed := by
  have hbase : op ≠ .accept → (perform m w op).state.reject.state.Moored := by
    intro hop
    refine h.base.congr (fun n => ?_) fun n => rfl
    rw [lookup?_reject, lookup?_reject, committed_perform hop]
  cases op with
  | update n =>
    refine ⟨?_, hbase nofun⟩
    rw [state_perform_update]
    exact (moored_visit m n h.live).world
  | propose n value =>
    refine ⟨?_, hbase nofun⟩
    rw [state_perform_propose]
    exact (idle_proposal m n value (r := { world := w }) ⟨rfl, h.live⟩).moored
  | accept =>
    have hw := moored_accept h.live
    exact ⟨hw, hw⟩
  | reject => exact ⟨h.base, h.base⟩
  | observe | ask => exact ⟨h.live.congr (fun _ => rfl) fun _ => rfl, hbase nofun⟩

/-- The worlds that calls lead to, with any models.  Those that fail count as well, with what they
have left behind. -/
inductive Attained : World → Prop where
  | new (config : Config) : Attained (.new config)
  | step {w : World} (m : Model) (op : Operation) (h : Attained w) :
      Attained (perform m w op).state

/-- **Whatever calls were made, and however they ended, a world is moored.** -/
theorem Attained.moored (h : Attained w) : w.Moored := by
  suffices hw : w.Berthed from hw.live
  induction h with
  | new config => exact ⟨moored_new config, moored_new config⟩
  | step m op _ ih => exact berthed_perform m op ih

end Stochastic.World
