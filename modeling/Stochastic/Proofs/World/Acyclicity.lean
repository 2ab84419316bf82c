import Stochastic.Proofs.World.Ancestry

/-!
# When the dependencies have a cycle

A program that reads a variable whose own program is running fails.  That is the only check there
is, and it does not keep a live variable from depending on itself: a proposal executes the readers
of its variable again, and such a reader may read a variable that depends on it and that is not
executed at that moment.  The proposal succeeds and leaves a cycle.

It is also the only way to get a cycle.  Visits close none, for any programs and however the reads
within them end; nor does a proposal whose readers, as far as they are live in the end, have picked
up no variable that depends on them.  So a history has a cycle at some point exactly if one of its
proposals has closed it.

## Main definitions

* `World.Acyclic` — no live variable depends on itself.
* `World.Closes` — a proposal succeeds, and one of its readers picks up a variable that depends on
  it.

## Main results

* `World.grounded_carryOut` — an operation that does not close a cycle leaves none.
* `World.acyclic_iff_never_closes` — the dependencies stay without a cycle exactly if no proposal
  closes one.
* `World.not_acyclic_turned` — a proposal that does.
-/

namespace Stochastic.World

open Relation (TransGen ReflTransGen)

variable {w w' before : World} {r r' : Run} {n c p : Ident} {v : Variable} {m : Model}
  {done : Ident → Prop}

/-- No live variable depends on itself, through any chain of parents. -/
def Acyclic (w : World) : Prop := ∀ n, ¬ TransGen w.Reads n n

/-- A proposal closes a cycle: it succeeds, and a reader that it has executed again, and that is
live, reads a variable that it did not read before and that depends on it.  Other operations do
not. -/
def Closes (m : Model) (w : World) : Operation → Prop
  | .propose n value => ∃ proposed, (itemize m w n value).result = .ok proposed ∧
      let w' := (propose m w n value).state
      ∃ s ∈ proposed.children, ∃ q, w'.Reads s.1 q ∧ ¬ w.Reads s.1 q ∧
        ReflTransGen w'.Reads q s.1
  | _ => False

/-! ## From dependencies of all variables to those of live ones -/

theorem Founded.live_acyclic (h : w.Founded) : w.Acyclic :=
  not_transGen_of_cyclic h.acyclic fun hr _ => hr.needs

/-- What a live variable depends on is live. -/
theorem Wired.isMarked_of_needs (hw : w.Wired ⊤ ⊥) (hc : w.overlay.isMarked c = false)
    (hcp : w.Needs c p) : w.overlay.isMarked p = false :=
  (lists_iff.1 ((hw.listed (reads_iff.2 ⟨hc, hcp⟩)).resolve_right id)).1

/-- A chain of dependencies that starts at a live variable is one of live variables. -/
theorem Wired.transGen_reads (hw : w.Wired ⊤ ⊥) (hc : w.overlay.isMarked c = false)
    (h : TransGen w.Needs c p) : TransGen w.Reads c p ∧ w.overlay.isMarked p = false := by
  induction h with
  | single hcp => exact ⟨.single (reads_iff.2 ⟨hc, hcp⟩), hw.isMarked_of_needs hc hcp⟩
  | tail _ hqp ih =>
    obtain ⟨hreads, hq⟩ := ih
    exact ⟨hreads.tail (reads_iff.2 ⟨hq, hqp⟩), hw.isMarked_of_needs hq hqp⟩

/-- Without a cycle of live variables there is none at all: a cycle is one of live variables, or
one of marked variables. -/
theorem Run.Ordered.founded (h : r.Ordered before done) (ha : r.world.Acyclic) :
    r.world.Founded := by
  refine ⟨h.wired, h.closed, not_transGen_of_cyclic h.interred ?_⟩
  intro c p hcp hpc
  have hmarked : ∀ {k}, TransGen r.world.Needs k k → r.world.overlay.isMarked k = true := by
    intro k hk
    refine Bool.eq_true_of_not_eq_false fun hm => ?_
    exact ha k (h.wired.transGen_reads hm hk).1
  exact ⟨hcp, hmarked (.head' hcp hpc), hmarked (.tail' hpc hcp)⟩

/-- **A cycle of live variables runs through a new edge** of a variable that was executed again. -/
theorem Run.Ordered.acyclic (h : r.Ordered before done)
    (hnew : ∀ {c p}, done c → r.world.Reads c p → ReflTransGen r.world.Reads p c →
      before.Needs c p) : r.world.Acyclic := by
  refine not_transGen_of_cyclic h.traced ?_
  intro c p hcp hpc
  by_cases hd : done c
  · exact .inr (hnew hd hcp hpc)
  · exact .inl ⟨hcp.needs, hd⟩

theorem reflTransGen_reads_congr {c' : Ident} (hcp : w.Reads c p)
    (h : ReflTransGen w.Reads p c) (hc : (c == c') = true) : ReflTransGen w.Reads p c' := by
  rcases ReflTransGen.cases_tail h with rfl | ⟨q, hpq, hqc⟩
  · exact .single ((World.reads_congr w (BEq.refl c) hc).1 hcp)
  · exact hpq.tail ((World.reads_congr w (BEq.refl q) hc).1 hqc)

/-! ## Operations -/

/-- No variable depends on itself, now and if the staged changes were rejected. -/
structure Grounded (w : World) : Prop where
  live : w.Founded
  base : w.reject.state.Founded

theorem Founded.congr (h : w.Founded) (hl : ∀ n, w'.lookup? n = w.lookup? n)
    (hm : ∀ n, w'.overlay.isMarked n = w.overlay.isMarked n) : w'.Founded := by
  have hs : w.SameCores w' := sameCores_of_lookup? hl
  refine ⟨h.wired.congr hl hm, Closed.sameCores h.closed hs, ?_⟩
  exact not_transGen_of_cyclic h.acyclic fun hcp _ => hcp.sameCores hs.symm

theorem grounded_of_committed (h : w.Grounded) (hc : w'.committed = w.committed) :
    w'.reject.state.Grounded := by
  have hw : w'.reject.state.Founded := by
    refine h.base.congr (fun n => ?_) fun n => rfl
    change w'.committed.get? n = w.committed.get? n
    rw [hc]
  exact ⟨hw, hw⟩

/-- A step from outside that founds the world when it succeeds, and keeps what is committed in any
case, can be carried out. -/
theorem grounded_reply {α : Type} (step : Step α) (h : w.Grounded)
    (hb : SameBase { world := w } (step.after { world := w }))
    (hw : ∀ a r', step { world := w } = .ok a r' → r'.world.Founded) :
    (orRejected (step.reply w)).Grounded :=
  orRejected_reply step hb
    (fun hs hb => ⟨hw _ _ hs, (grounded_of_committed h hb).live⟩) (grounded_of_committed h)

/-- **Visits close no cycle**, for any programs. -/
theorem grounded_update (h : w.Grounded) (n : Ident) : (carryOut m w (.update n)).Grounded := by
  have hp := execute_proceeds m w.config.maxDepth
  rw [carryOut, perform, orRejected_map]
  refine grounded_reply (visit m n) h (sameBase_visit m n _) fun a r' ho => ?_
  change read m (execute m w.config.maxDepth) n { world := w } = .ok a r' at ho
  have hI := ordered_kept h.live.closed ⊥
  have h₀ : Run.Ordered w ⊥ { world := w } := h.live.ordered rfl h.live.wired id id
  have h₁ : r'.Ordered w ⊥ := Step.after_eq_of_ok ho ▸ hI.read (execute_keeps hI m _) hp h₀
  exact h₁.founded (h₁.acyclic fun hd => hd.elim)

theorem grounded_propose (h : w.Grounded) {value : Tensor Float}
    (hclose : ¬ Closes m w (.propose n value)) : (carryOut m w (.propose n value)).Grounded := by
  rw [carryOut, perform, orRejected_map, propose, orRejected_map]
  refine grounded_reply _ h (sameBase_proposal m n value _) fun proposed r' ho => ?_
  obtain ⟨r₁, done, hr₁, h₁, hchildren⟩ := ordered_proposal h.live ho
  have hresult : (itemize m w n value).result = .ok proposed := by
    rw [itemize, Step.reply, ho]
  have hstate : (propose m w n value).state = r'.world := by
    obtain ⟨r₂, ho₂, hstate⟩ := itemize_eq_ok hresult
    cases ho.symm.trans ho₂
    exact hstate
  rw [← hr₁] at hstate hchildren ⊢
  refine h₁.founded (h₁.acyclic fun {c p} hd hcp hpc => ?_)
  -- the reader has its item, so the edge is not a new one
  obtain ⟨s, hs, hsc⟩ := hchildren c hd (reads_iff.1 hcp).1
  by_contra hnew
  refine hclose ⟨proposed, hresult, s, hs, p, ?_⟩
  rw [hstate]
  refine ⟨(reads_congr _ hsc (BEq.refl p)).2 hcp, fun hold => hnew ?_, ?_⟩
  · exact (needs_congr w hsc (BEq.refl p)).1 hold.needs
  · exact reflTransGen_reads_congr hcp hpc (BEq.symm hsc)

/-- Once accepted, the live variables are what is committed, and they depend on live ones. -/
theorem grounded_accept (h : w.Grounded) : w.accept.state.Grounded := by
  have hneeds : ∀ {c p}, w.accept.state.Needs c p ↔ w.Reads c p := by
    intro c p
    unfold Needs
    rw [lookup?_accept]
    exact Iff.rfl
  have hlive : ∀ n, w.accept.state.live? n = w.live? n := fun n => lookup?_accept w n
  have hw : w.accept.state.Founded := by
    refine ⟨⟨fun {c p} hr => .inl ?_, fun _ => .inr trivial, fun hn => ?_⟩, fun hcp => ?_, ?_⟩
    · have hl := (h.live.wired.listed (hneeds.1 hr.needs)).resolve_right id
      unfold Lists at hl ⊢
      rwa [hlive]
    · cases hn
    · obtain ⟨v, hv, -⟩ := (h.live.wired.listed (hneeds.1 hcp)).resolve_right id
      exact ⟨v, (lookup?_accept w _).trans hv⟩
    · exact not_transGen_of_cyclic h.live.live_acyclic fun hcp _ => hneeds.1 hcp
  exact ⟨hw, hw⟩

/-- **An operation that does not close a cycle leaves none.** -/
theorem grounded_carryOut (h : w.Grounded) {op : Operation} (hclose : ¬ Closes m w op) :
    (carryOut m w op).Grounded := by
  cases op with
  | update n => exact grounded_update h n
  | propose n value => exact grounded_propose h hclose
  | accept => exact grounded_accept h
  | reject => exact grounded_of_committed h rfl
  | observe observations =>
    exact ⟨h.live.congr (fun _ => rfl) fun _ => rfl, h.base.congr (fun _ => rfl) fun _ => rfl⟩
  | ask queries =>
    exact ⟨h.live.congr (fun _ => rfl) fun _ => rfl, h.base.congr (fun _ => rfl) fun _ => rfl⟩

theorem grounded_new (config : Config) : (World.new config).Grounded := by
  have hw : (World.new config).Founded := by
    refine ⟨⟨?_, fun _ => .inr trivial, ?_⟩, ?_, ?_⟩
    · rintro c p ⟨_, hv, -⟩
      cases hv
    · intro n hn
      cases hn
    · rintro c p ⟨_, hv, -⟩
      cases hv
    · intro n hn
      obtain ⟨p, ⟨_, hv, -⟩, -⟩ := TransGen.head'_iff.1 hn
      cases hv
  exact ⟨hw, hw⟩

/-- A proposal that closes a cycle leaves it. -/
theorem Closes.not_acyclic {op : Operation} (h : Closes m w op) : ¬ (carryOut m w op).Acyclic := by
  cases op with
  | propose n value =>
    obtain ⟨proposed, hresult, s, -, q, hsq, -, hqs⟩ := h
    have hcarry : carryOut m w (.propose n value) = (propose m w n value).state := by
      rw [carryOut, perform, orRejected_map, orRejected, propose, Reply.map, hresult]
      rfl
    rw [hcarry]
    exact fun ha => ha s.1 (.head' hsq hqs)
  | _ => exact h.elim

/-- **The dependencies stay without a cycle exactly if no proposal closes one.**  For any programs,
whether they pass errors on or not, and for any history of a new world: no live variable ever
depends on itself if and only if each proposal either fails, or none of the readers that it has
executed again has picked up a variable that depends on it. -/
theorem acyclic_iff_never_closes (m : Model) (config : Config) (ops : List Operation) :
    (∀ k, ((ops.take k).foldl (carryOut m) (.new config)).Acyclic) ↔
      ∀ k op, ops[k]? = some op →
        ¬ Closes m ((ops.take k).foldl (carryOut m) (.new config)) op := by
  have hnext : ∀ {k op}, ops[k]? = some op →
      (ops.take (k + 1)).foldl (carryOut m) (.new config) =
        carryOut m ((ops.take k).foldl (carryOut m) (.new config)) op := by
    intro k op hop
    rw [List.take_add_one, hop, Option.toList_some, List.foldl_append]
    rfl
  constructor
  · intro hacyclic k op hop hcloses
    exact hcloses.not_acyclic (hnext hop ▸ hacyclic (k + 1))
  · intro hnever
    -- along the history, what is staged and what is committed have no cycle at all
    have hgrounded : ∀ k, ((ops.take k).foldl (carryOut m) (.new config)).Grounded := by
      intro k
      induction k with
      | zero => exact grounded_new config
      | succ k ih =>
        cases hop : ops[k]? with
        | none => rwa [List.take_add_one, hop, Option.toList_none, List.append_nil]
        | some op =>
          rw [hnext hop]
          exact grounded_carryOut ih (hnever k op hop)
    exact fun k => (hgrounded k).live.live_acyclic

/-! ## An edge that is turned round -/

namespace Turned

/-- The variable whose value decides. -/
def switch : Ident := ⟨"switch", []⟩

/-- A reader of `switch` that also reads `upper` as soon as `switch` is large. -/
def lower : Ident := ⟨"lower", []⟩

/-- A reader of `lower`. -/
def upper : Ident := ⟨"upper", []⟩

/-- Three variables, of which `upper` reads `lower`, and `lower` reads `upper` if `switch` is
large. -/
def model : Model where
  program n :=
    if n.name = "switch" then return .uniform 0 4
    else if n.name = "upper" then do return .uniform (← .readItem lower) 2
    else do
      let x ← .readItem switch
      if x < 0.5 then return .uniform 0 1 else return .uniform (← .readItem upper) 1
  sampler _ _ := .scalar 0.25

/-- The variables are generated with a small value of `switch`, accepted, and a large value is
proposed. -/
def ops : List Operation := [.update upper, .accept, .propose switch (.scalar 1)]

/-- The world after that. -/
def after : World := ops.foldl (carryOut model) (.new {})

end Turned

/-- The proposal succeeds, and `lower` and `upper` depend on each other. -/
theorem not_acyclic_turned :
    (propose Turned.model ((Turned.ops.take 2).foldl (carryOut Turned.model) (.new {}))
      Turned.switch (.scalar 1)).result.toOption.isSome = true ∧
      Turned.after.Reads Turned.lower Turned.upper ∧
      Turned.after.Reads Turned.upper Turned.lower ∧ ¬ Turned.after.Acyclic := by
  have hlower : Turned.after.Reads Turned.lower Turned.upper := by decide +kernel
  have hupper : Turned.after.Reads Turned.upper Turned.lower := by decide +kernel
  refine ⟨by decide +kernel, hlower, hupper, ?_⟩
  intro ha
  exact ha Turned.lower (.head hlower (.single hupper))

end Stochastic.World
