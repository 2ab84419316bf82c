import Stochastic.Proofs.World.Symmetry

/-!
# Who depends on whom, while variables are created and revised

Nothing depends on a variable that has just been created, and all it reads was there before.  So
creating variables, and reviving those that were marked, closes no cycle, however the programs
end.  What may close one is executing the program of a variable again, for this one has readers
already.

`World.Traced` is what is left of the dependencies during a proposal if the new edges of the
variables that were executed again are left out, and those of before are kept.  It has no cycle.
The marked variables, which a later program may revive, are not on a cycle among themselves
either: a variable is marked when nothing reads it, and all it reads is live then.

## Main definitions

* `World.Traced` — the dependencies without the new edges of revised variables.
* `World.Interred` — the dependencies of marked variables on each other.
* `World.Run.Ordered` — the invariant of a proposal.

## Main results

* `World.not_transGen_of_cyclic` — no cycle, if every edge on a cycle is one of a relation that has
  none.
* `World.ordered_kept` — running programs keeps the invariant, however they end.
* `World.ordered_detach` — so does detaching a variable.
* `World.ordered_proposal` — and so does a proposal.
-/

namespace Stochastic.World

open Relation (TransGen ReflTransGen)

variable {w w' before : World} {r r' : Run} {n c p : Ident} {v : Variable} {m : Model}
  {done done' : Ident → Prop}

/-- If every edge that lies on a cycle is an edge of a relation without cycles, then there is no
cycle. -/
theorem not_transGen_of_cyclic {α : Type} {R S : α → α → Prop} (hR : ∀ a, ¬ TransGen R a a)
    (h : ∀ {a b}, S a b → ReflTransGen S b a → R a b) (a : α) : ¬ TransGen S a a := by
  -- a chain that can be led back to its start consists of edges that lie on a cycle
  have hchain : ∀ {b}, TransGen S a b → ReflTransGen S b a → TransGen R a b := by
    intro b hab
    induction hab with
    | single hab =>
      intro hba
      exact .single (h hab hba)
    | tail hac hcb ih =>
      intro hba
      exact (ih (hba.head hcb)).tail (h hcb (hba.trans hac.to_reflTransGen))
  intro ha
  exact hR a (hchain ha .refl)

/-! ## Dependencies -/

theorem needs_congr {c' p' : Ident} (w : World) (hc : (c == c') = true) (hp : (p == p') = true) :
    w.Needs c p ↔ w.Needs c' p' := by
  simp only [Needs, lookup?_congr w hc, OrderedSet.contains_congr _ hp]

/-- A staged copy decides what the variable depends on. -/
theorem needs_put (w : World) (n : Ident) (v : Variable) (c p : Ident) :
    (w.put n v).Needs c p ↔ if n == c then v.parents.contains p = true else w.Needs c p := by
  unfold Needs
  rw [lookup?_put]
  by_cases h : (n == c) = true <;> simp [h]

theorem Reads.needs (h : w.Reads c p) : w.Needs c p := (reads_iff.1 h).2

/-- The dependencies of the marked variables on each other. -/
def Interred (w : World) (c p : Ident) : Prop :=
  w.Needs c p ∧ w.overlay.isMarked c = true ∧ w.overlay.isMarked p = true

/-- The dependencies of a world, without those of revised variables, and the dependencies of
`before`. -/
def Traced (before : World) (done : Ident → Prop) (w : World) (c p : Ident) : Prop :=
  (w.Needs c p ∧ ¬ done c) ∨ before.Needs c p

theorem traced_sameCores (hs : w.SameCores w') (h : ∀ n, ¬ TransGen (Traced before done w) n n) :
    ∀ n, ¬ TransGen (Traced before done w') n n := by
  refine not_transGen_of_cyclic h ?_
  intro c p hcp _
  exact hcp.imp_left fun hneeds => ⟨hneeds.1.sameCores hs.symm, hneeds.2⟩

/-- The invariant of a run that has started from `before`, and in which the variables in `done`
have been executed again.  Whatever is read lists its reader, also what a running program has read
so far; parents are there, and so is everything that was there before; and there is a cycle
neither of marked variables nor of traced edges. -/
structure Run.Ordered (before : World) (done : Ident → Prop) (r : Run) : Prop where
  wired : r.world.Wired ⊤ ⊥
  noted : r.Noted
  closed : r.world.Closed
  grown : ∀ {n}, (∃ v, before.lookup? n = some v) → ∃ v, r.world.lookup? n = some v
  interred : ∀ n, ¬ TransGen r.world.Interred n n
  traced : ∀ n, ¬ TransGen (Traced before done r.world) n n

/-- More readers, fewer marks and another stack leave the dependencies as they are. -/
theorem Run.Ordered.restored (h : r.Ordered before done) (hs : r.world.SameCores r'.world)
    (hm : ∀ n, r'.world.overlay.isMarked n = true → r.world.overlay.isMarked n = true)
    (hw : r'.world.Wired ⊤ ⊥) (hnoted : r'.Noted) : r'.Ordered before done where
  wired := hw
  noted := hnoted
  closed := Closed.sameCores h.closed hs
  grown hn := hs.exists_lookup? (h.grown hn)
  interred := by
    refine not_transGen_of_cyclic h.interred ?_
    rintro c p ⟨hneeds, hc, hp⟩ -
    exact ⟨hneeds.sameCores hs.symm, hm c hc, hm p hp⟩
  traced := traced_sameCores hs h.traced

theorem sameCores_of_lookup? (h : ∀ n, w'.lookup? n = w.lookup? n) : w.SameCores w' :=
  fun n => by rw [h]

/-- More variables may have been executed again. -/
theorem Run.Ordered.mono (h : r.Ordered before done) (hd : ∀ c, done c → done' c) :
    r.Ordered before done' := by
  refine { h with traced := not_transGen_of_cyclic h.traced ?_ }
  intro c p hcp _
  exact hcp.imp_left fun hneeds => ⟨hneeds.1, fun hc => hneeds.2 (hd c hc)⟩

/-! ## While programs run -/

theorem Run.Ordered.view (h : r.Ordered before done)
    (hc : r'.world.committed = r.world.committed) (ho : r'.world.overlay = r.world.overlay)
    (hf : r'.frames = r.frames) : r'.Ordered before done := by
  have hl := lookup?_eq_of_view hc ho
  refine h.restored (sameCores_of_lookup? hl) (fun n hn => ho ▸ hn) ?_ (h.noted.view hc ho hf)
  exact h.wired.congr hl fun n => by rw [ho]

theorem Run.Ordered.revive (h : r.Ordered before done) (hn : r.world.overlay.isMarked n = true) :
    ((revive n).after r).Ordered before done ∧
      ∃ v, ((revive n).after r).world.live? n = some v := by
  have hfound : ∃ v, r.world.lookup? n = some v := by
    obtain ⟨v, hv, -⟩ := h.wired.barren hn
    exact ⟨v, hv⟩
  have hs := restores_revive n r
  obtain ⟨r', hr'⟩ := exists_revive h.closed hfound
  rw [Step.after_eq_of_ok hr'] at hs ⊢
  obtain ⟨hw, hm⟩ := wired_revive hr' hn h.wired
  obtain ⟨v, hv⟩ := hs.cores.exists_lookup? hfound
  exact ⟨h.restored hs.cores hs.marks hw (h.noted.restores hs), v, live?_eq_some.2 ⟨hm, hv⟩⟩

theorem Run.Ordered.connect (h : r.Ordered before done) (hl : ∃ v, r.world.live? n = some v) :
    ((connect n).after r).Ordered before done := by
  have hlive : r.world.overlay.isMarked n = false ∧ ∃ v, r.world.lookup? n = some v := by
    obtain ⟨v, hv⟩ := hl
    exact ⟨(live?_eq_some.1 hv).1, v, (live?_eq_some.1 hv).2⟩
  obtain ⟨r', ho⟩ := exists_connect hlive.2
  have hnoted := h.noted.connect hl ho
  rw [Step.after_eq_of_ok ho]
  rcases connect_cases n r with ⟨-, hc⟩ | ⟨f, fs, -, hworld, hc⟩
  · rw [hc] at ho
    cases ho
    exact h
  · rw [hc] at ho
    have hs : Restores (r.noting n) r' := Step.after_eq_of_ok ho ▸ restores_attach f.node n _
    have hw := wired_attach_surplus ho (hworld ▸ hlive.1) (hworld ▸ h.wired)
    exact h.restored (hworld ▸ hs.cores) (hworld ▸ hs.marks)
      (hw.mono (fun _ => .inr trivial) .inr) hnoted

/-- **A variable that is created closes no cycle**: whatever depends on something depends on a
variable that is there, so nothing depends on the one that is not. -/
theorem Run.Ordered.creating (hb : before.Closed)
    (h : Run.Ordered before done { r with frames := ⟨n, v.parents⟩ :: r.frames })
    (hn : r.world.lookup? n = none) (hc : v.children.toList = []) :
    (r.creating n v).Ordered before done := by
  -- what the variable reads its frame has recorded
  have hlisted : ∀ p, v.parents.contains p = true → r.world.Lists p n :=
    h.noted ⟨n, v.parents⟩ List.mem_cons_self
  have hfound : ∀ {p}, v.parents.contains p = true → ∃ u, r.world.lookup? p = some u := by
    intro p hp
    obtain ⟨-, u, hu, -⟩ := lists_iff.1 (hlisted p hp)
    exact ⟨u, hu⟩
  have hgrown : ∀ {k}, (∃ u, r.world.lookup? k = some u) →
      ∃ u, (r.creating n v).world.lookup? k = some u := by
    rintro k ⟨u, hu⟩
    obtain ⟨u', hu', -⟩ := (grows_creating hn v).exists_core hu
    exact ⟨u', hu'⟩
  -- whoever depends on something now, depends on what was there before
  have htarget : ∀ {c p}, (r.creating n v).world.Needs c p → ∃ u, r.world.lookup? p = some u := by
    intro c p hneeds
    rw [Run.world_creating, needs_put] at hneeds
    by_cases hnc : (n == c) = true
    · rw [if_pos hnc] at hneeds
      exact hfound hneeds
    · rw [if_neg hnc] at hneeds
      exact h.closed hneeds
  have hold : ∀ {c p}, (n == c) = false → (r.creating n v).world.Needs c p → r.world.Needs c p := by
    intro c p hnc hneeds
    rwa [Run.world_creating, needs_put, hnc] at hneeds
  refine ⟨wired_creating hn hlisted hc h.wired, h.noted.creating hn,
    fun hneeds => hgrown (htarget hneeds), fun hk => hgrown (h.grown hk), ?_, ?_⟩
  · -- the new variable is not marked
    refine not_transGen_of_cyclic h.interred ?_
    rintro c p ⟨hneeds, hmc, hmp⟩ -
    obtain ⟨u, hu, -⟩ := h.wired.barren hmc
    exact ⟨hold (beq_eq_false_of_lookup? hn hu) hneeds, hmc, hmp⟩
  · refine not_transGen_of_cyclic h.traced ?_
    intro c p hcp hpc
    -- On a cycle something depends on `c`, so `c` was there before.
    obtain ⟨x, -, hxc⟩ := TransGen.tail'_iff.1 (TransGen.head' hcp hpc)
    have hcfound : ∃ u, r.world.lookup? c = some u := by
      rcases hxc with ⟨hneeds, -⟩ | hneeds
      · exact htarget hneeds
      · exact h.grown (hb hneeds)
    obtain ⟨u, hu⟩ := hcfound
    exact hcp.imp_left fun hneeds =>
      ⟨hold (beq_eq_false_of_lookup? hn hu) hneeds.1, hneeds.2⟩

/-- **Running programs closes no cycle**, however they end. -/
theorem ordered_kept (hb : before.Closed) (done : Ident → Prop) :
    Kept (Run.Ordered before done) where
  view := Run.Ordered.view
  enter n h := { h with noted := h.noted.enter n }
  leave h hf :=
    { h with noted := fun f hf' => h.noted f (hf ▸ List.mem_cons_of_mem _ hf') }
  revive := Run.Ordered.revive
  connect := Run.Ordered.connect
  create {r n parents} d value transformConstrained h hn := by
    have hm : r.world.overlay.isMarked n = false := h.wired.isMarked_eq_false hn
    exact ⟨Run.Ordered.creating hb h hn rfl, _, live?_eq_some.2 ⟨hm, lookup?_put_self ..⟩⟩

/-! ## Detaching a variable -/

/-- Whatever is read lists its reader, and the marked variables are on no cycle. -/
structure Disentangled (w : World) : Prop where
  wired : w.Wired ⊤ ⊥
  interred : ∀ n, ¬ TransGen w.Interred n n

theorem disentangled_relist_erase (hv : r.world.lookup? p = some v) (hr : ¬ r.world.Reads c p)
    (h : r.world.Disentangled) : (r.relist p v (v.children.erase c)).world.Disentangled where
  wired := wired_relist_erase hv hr (h.wired.mono (fun _ => .inr (.inl trivial)) .inr)
  interred := by
    refine not_transGen_of_cyclic h.interred ?_
    rintro c' p' ⟨hneeds, hc, hp⟩ -
    rw [isMarked_relist] at hc hp
    exact ⟨hneeds.sameCores (sameCores_relist hv _).symm, hc, hp⟩

/-- A variable is marked when nothing reads it.  All that it reads lists it, so that is live, and
the marked variable depends on no other one. -/
theorem disentangled_marking (hv : w.lookup? n = some v) (hm : w.overlay.isMarked n = false)
    (hc : v.children.toList = []) (h : w.Disentangled) : (w.marking n).Disentangled where
  wired := (wired_marking hv hm hc h.wired).mono (fun _ => .inr trivial) .inr
  interred := by
    have hlive : ∀ {p}, w.Needs n p → (w.marking n).overlay.isMarked p = false := by
      intro p hneeds
      have hlists := (h.wired.listed (reads_iff.2 ⟨hm, hneeds⟩)).resolve_right id
      rw [isMarked_marking, (lists_iff.1 hlists).1, Bool.false_or]
      -- it does not read itself, for it has no readers
      refine Bool.eq_false_iff.2 fun hpn => ?_
      have hself := (lists_of_lookup? hm hv).1 ((lists_congr w hpn (BEq.refl n)).1 hlists)
      rw [contains_eq_false_of_toList hc] at hself
      cases hself
    refine not_transGen_of_cyclic h.interred ?_
    intro c p hcp hpc
    -- whatever lies on a cycle depends on a marked variable
    have hold : ∀ {c p}, (w.marking n).Interred c p → (c == n) = false := by
      rintro c p ⟨hneeds, -, hp⟩
      refine Bool.eq_false_iff.2 fun hcn => ?_
      rw [hlive ((needs_congr w hcn (BEq.refl p)).1 hneeds)] at hp
      cases hp
    obtain ⟨y, hpy, -⟩ := TransGen.head'_iff.1 (TransGen.tail' hpc hcp)
    have hcn := hold hcp
    have hpn := hold hpy
    obtain ⟨hneeds, hmc, hmp⟩ := hcp
    rw [isMarked_marking, hcn, Bool.or_false] at hmc
    rw [isMarked_marking, hpn, Bool.or_false] at hmp
    exact ⟨hneeds, hmc, hmp⟩

theorem disentangled_forM_detach {f : Ident → Step Unit} {qs : List Ident}
    (hs : ∀ q r, Sheds r ((f q).after r))
    (hf : ∀ {q r r'}, f q r = .ok () r' → ¬ r.world.Reads n q → r.world.Disentangled →
      r'.world.Disentangled)
    (ho : (qs.forM f : Step Unit) r = .ok () r') (hr : ∀ q ∈ qs, ¬ r.world.Reads n q)
    (h : r.world.Disentangled) : r'.world.Disentangled := by
  induction qs generalizing r with
  | nil =>
    obtain rfl := Step.forM_nil_eq_ok.1 ho
    exact h
  | cons q qs ih =>
    obtain ⟨r₁, hq, ho⟩ := Step.forM_cons_eq_ok.1 ho
    have hs₁ : Sheds r r₁ := Step.after_eq_of_ok hq ▸ hs q r
    refine ih ho (fun q' hq' hr' => ?_) (hf hq (hr q List.mem_cons_self) h)
    exact hr q' (List.mem_cons_of_mem _ hq') (hs₁.cores.reads_of_reads hs₁.marks hr')

/-- Each link of a chain of deletions marks a variable whose parents are live. -/
theorem disentangled_detachWithin {depth : Nat} (ho : detachWithin depth c p r = .ok () r')
    (hr : ¬ r.world.Reads c p) (h : r.world.Disentangled) : r'.world.Disentangled := by
  induction depth generalizing c p r r' with
  | zero =>
    obtain ⟨-, rfl⟩ := Step.pure_eq_ok.1 ho
    exact h
  | succ depth ih =>
    rw [detachWithin_succ] at ho
    cases hv : r.world.lookup? p with
    | none =>
      rw [hv] at ho
      cases ho
    | some v =>
      rw [hv] at ho
      simp only at ho
      have h₁ := disentangled_relist_erase hv hr h
      have hv₁ := lookup?_relist_self r p v (v.children.erase c)
      generalize r.relist p v (v.children.erase c) = r₁ at ho h₁ hv₁
      by_cases ha : r₁.abandons p (v.children.erase c) = true
      · rw [if_pos ha] at ho
        simp only [Run.abandons, Bool.and_eq_true, Bool.not_eq_true'] at ha
        obtain ⟨⟨he, -⟩, hm⟩ := ha
        have h₂ := disentangled_marking hv₁ hm (List.isEmpty_iff.1 he) h₁
        rw [← Run.world_marking] at h₂
        refine disentangled_forM_detach (n := p) (sheds_detachWithin depth p) ih ho
          (fun q _ hq => ?_) h₂
        -- the variable is marked now, so it reads nothing
        have hp : (r₁.marking p).world.overlay.isMarked p = true := by
          rw [Run.world_marking, isMarked_marking, BEq.refl, Bool.or_true]
        rw [Run.world_write] at hq
        rw [(reads_iff.1 hq).1] at hp
        cases hp
      · rw [if_neg ha] at ho
        cases ho
        exact h₁

/-- **Detaching a variable from what it no longer reads closes no cycle**, whatever is marked on
the way. -/
theorem ordered_detach {qs : List Ident} (h : r.Ordered before done) (hf : r.frames = [])
    (hr : ∀ q ∈ qs, ¬ r.world.Reads n q) (ho : (qs.forM (detach n) : Step Unit) r = .ok () r') :
    r'.Ordered before done := by
  have hs := sheds_forM_detach ho
  have hfree : r'.world.Disentangled :=
    disentangled_forM_detach (sheds_detach n) (fun hq => disentangled_detachWithin hq) ho hr
      ⟨h.wired, h.interred⟩
  refine ⟨hfree.wired, fun f hf' => ?_, Closed.sameCores h.closed hs.cores,
    fun hk => hs.cores.exists_lookup? (h.grown hk), hfree.interred,
    traced_sameCores hs.cores h.traced⟩
  rw [hs.frames, hf] at hf'
  cases hf'

/-! ## Proposals -/

/-- Putting in place what a variable reads now: its new edges are not traced. -/
theorem Run.Ordered.revised {parents : OrderedSet Ident} (d : Distribution)
    (h : Run.Ordered before done { r with frames := ⟨n, parents⟩ :: r.frames })
    (hf : r.frames = []) (hv : r.world.lookup? n = some v)
    (hm : r.world.overlay.isMarked n = false) :
    (r.replace n v (revised v d parents)).Ordered before fun c => done c ∨ (n == c) = true := by
  have hlisted : ∀ p, parents.contains p = true → r.world.Lists p n :=
    h.noted ⟨n, parents⟩ List.mem_cons_self
  have hlookup : ∀ k, (r.replace n v (World.revised v d parents)).world.lookup? k =
      (r.world.put n (World.revised v d parents)).lookup? k := by
    intro k
    rw [lookup?_replace, lookup?_put]
  have hw : (r.world.put n (World.revised v d parents)).Wired ⊤ ⊥ :=
    ⟨fun hr => .inl (lists_put_revised hv hlisted h.wired hr), fun _ => .inr trivial,
      barren_put hv (children_revised ..) h.wired⟩
  have hold : ∀ {c p}, (n == c) = false →
      (r.replace n v (World.revised v d parents)).world.Needs c p → r.world.Needs c p := by
    rintro c p hnc ⟨u, hu, hp⟩
    rw [lookup?_replace, hnc] at hu
    exact ⟨u, hu, hp⟩
  have hthere : ∀ {k}, (∃ u, r.world.lookup? k = some u) →
      ∃ u, (r.replace n v (World.revised v d parents)).world.lookup? k = some u := by
    rintro k ⟨u, hu⟩
    rw [lookup?_replace]
    by_cases hnk : (n == k) = true
    · exact ⟨_, if_pos hnk⟩
    · exact ⟨u, (if_neg hnk).trans hu⟩
  refine ⟨hw.congr hlookup fun k => isMarked_replace .., fun f hf' => ?_, ?_,
    fun hk => hthere (h.grown hk), ?_, ?_⟩
  · rw [Run.frames_replace, hf] at hf'
    cases hf'
  · rintro c p ⟨u, hu, hp⟩
    rw [lookup?_replace] at hu
    by_cases hnc : (n == c) = true
    · rw [if_pos hnc] at hu
      cases hu
      obtain ⟨-, u, hu, -⟩ := lists_iff.1 (hlisted p hp)
      exact hthere ⟨u, hu⟩
    · rw [if_neg hnc] at hu
      exact hthere (h.closed ⟨u, hu, hp⟩)
  · -- the variable itself is not marked
    refine not_transGen_of_cyclic h.interred ?_
    rintro c p ⟨hneeds, hc, hp⟩ -
    rw [isMarked_replace] at hc hp
    refine ⟨hold (Bool.eq_false_iff.2 fun hnc => ?_) hneeds, hc, hp⟩
    rw [← isMarked_congr r.world hnc, hm] at hc
    cases hc
  · refine not_transGen_of_cyclic h.traced ?_
    intro c p hcp _
    refine hcp.imp_left fun hneeds => ?_
    obtain ⟨hdone, hnc⟩ := not_or.1 hneeds.2
    exact ⟨hold (Bool.eq_false_iff.2 hnc) hneeds.1, hdone⟩

/-- Executing a program again traces all edges but those of its variable. -/
theorem ordered_reexecute (hb : before.Closed) (h : r.Ordered before done) (hf : r.frames = [])
    (hn : r.world.overlay.isMarked n = false) (ho : reexecute m n r = .ok () r') :
    r'.frames = [] ∧ r'.Ordered before fun c => done c ∨ (n == c) = true := by
  obtain ⟨d, parents, r₁, v, hx, hv, hd⟩ := reexecute_eq_ok.1 ho
  have hret := (execute_proceeds m r.world.config.maxDepth n r).1
  rw [Step.after_eq_of_ok hx] at hret
  have hf₁ : r₁.frames = [] := hret.2.trans hf
  have hn₁ : r₁.world.overlay.isMarked n = false := by
    refine Bool.eq_false_iff.2 fun hmn => ?_
    rw [hret.1.marks n hmn] at hn
    cases hn
  have h₁ := (execute_keeps (ordered_kept hb done) m _ h).2 hx
  have h₂ := h₁.revised d hf₁ hv hn₁
  have hf₂ : (r₁.replace n v (revised v d parents)).frames = [] := by
    rw [Run.frames_replace, hf₁]
  refine ⟨(sheds_forM_detach hd).frames.trans hf₂, ordered_detach h₂ hf₂ ?_ hd⟩
  exact fun q hq => not_reads_dropped hn₁ hq

theorem ordered_revisions (hb : before.Closed) {cs : List Ident}
    {shifts : List (Option (Ident × Shift))} (h : r.Ordered before done) (hf : r.frames = [])
    (ho : (cs.mapM (revise m) : Step _) r = .ok shifts r') :
    r'.Ordered before fun c => done c ∨ ∃ s ∈ shifts.filterMap id, (s.1 == c) = true := by
  induction cs generalizing r shifts done with
  | nil =>
    obtain ⟨-, rfl⟩ := Step.mapM_nil_eq_ok.1 ho
    exact h.mono fun c => .inl
  | cons k cs ih =>
    obtain ⟨o, os, r₁, hk, hcs, rfl⟩ := Step.mapM_cons_eq_ok.1 ho
    rcases revise_eq_ok hk with ⟨-, rfl, rfl⟩ | ⟨hn, v, v', -, hx, -, rfl⟩
    · exact (ih h hf hcs).mono fun c hc => hc
    · obtain ⟨hf₁, h₁⟩ := ordered_reexecute hb h hf hn hx
      refine (ih h₁ hf₁ hcs).mono ?_
      rintro c ((hc | hc) | ⟨s, hs, hc⟩)
      · exact .inl hc
      · exact .inr ⟨_, List.mem_cons_self, hc⟩
      · exact .inr ⟨s, List.mem_cons_of_mem _ hs, hc⟩

/-- A world in which whatever is read lists its reader, all parents are there, and no variable
depends on itself, be it marked or not. -/
structure Founded (w : World) : Prop where
  wired : w.Wired ⊤ ⊥
  closed : w.Closed
  acyclic : ∀ n, ¬ TransGen w.Needs n n

/-- The invariant holds in the beginning, when no variable has been executed again. -/
theorem Founded.ordered (h : w.Founded) (hf : r.frames = []) (hw : r.world.Wired ⊤ ⊥)
    (hneeds : ∀ {c p}, r.world.Needs c p → w.Needs c p)
    (hgrown : ∀ {n}, (∃ v, w.lookup? n = some v) → ∃ v, r.world.lookup? n = some v) :
    r.Ordered w ⊥ := by
  refine ⟨hw, fun f hf' => ?_, fun hcp => hgrown (h.closed (hneeds hcp)), hgrown, ?_, ?_⟩
  · rw [hf] at hf'
    cases hf'
  · refine not_transGen_of_cyclic h.acyclic ?_
    rintro c p ⟨hcp, -, -⟩ -
    exact hneeds hcp
  · refine not_transGen_of_cyclic h.acyclic ?_
    rintro c p (⟨hcp, -⟩ | hcp) -
    · exact hneeds hcp
    · exact hcp

/-- A new value changes neither who depends on whom nor what is there. -/
theorem Founded.ordered_proposing (h : w.Founded) (hv : w.lookup? n = some v)
    (value : Tensor Float) : Run.Ordered w ⊥
      ((Run.proposing { world := w } n).replace n v (v.setValue value)) := by
  have hlookup : ∀ k, ((Run.proposing { world := w } n).replace n v
      (v.setValue value)).world.lookup? k = (w.put n (v.setValue value)).lookup? k := by
    intro k
    rw [lookup?_replace, lookup?_put]
    rfl
  have hparents : (v.setValue value).parents = v.parents := rfl
  have hchildren : (v.setValue value).children = v.children := rfl
  refine h.ordered (Run.frames_replace ..) ?_ ?_ ?_
  · exact (wired_put hv hparents hchildren h.wired).congr hlookup fun k => isMarked_replace ..
  · rintro c p ⟨u, hu, hp⟩
    rw [hlookup, lookup?_put] at hu
    by_cases hnc : (n == c) = true
    · rw [if_pos hnc] at hu
      cases hu
      exact ⟨v, lookup?_congr w hnc ▸ hv, hparents ▸ hp⟩
    · rw [if_neg hnc] at hu
      exact ⟨u, hu, hp⟩
  · rintro k ⟨u, hu⟩
    rw [hlookup, lookup?_put]
    by_cases hnk : (n == k) = true
    · exact ⟨_, if_pos hnk⟩
    · exact ⟨u, (if_neg hnk).trans hu⟩

/-- **A proposal closes no cycle but through the new edges of readers that it has executed
again.** -/
theorem ordered_proposal {value : Tensor Float} {proposed : Proposal} (h : w.Founded)
    (ho : proposal m n value { world := w } = .ok proposed r') :
    ∃ (r₁ : Run) (done : Ident → Prop), r₁.world = r'.world ∧ r₁.Ordered w done ∧
      ∀ c, done c → r'.world.overlay.isMarked c = false →
        ∃ s ∈ proposed.children, (s.1 == c) = true := by
  obtain ⟨-, v, shifts, r₁, created, deleted, hv, hrev, -, hr', rfl⟩ := proposal_eq_ok ho
  have h₁ := ordered_revisions h.closed (h.ordered_proposing hv value) (Run.frames_replace ..) hrev
  refine ⟨r₁, _, hr'.symm, h₁, ?_⟩
  rintro c (hc | ⟨s, hs, hsc⟩) hm
  · exact absurd hc id
  · -- a reader that is live in the end has its item
    refine ⟨s, List.mem_filter.2 ⟨hs, ?_⟩, hsc⟩
    rw [isMarked_congr r₁.world hsc, ← hr', hm]
    rfl

end Stochastic.World
