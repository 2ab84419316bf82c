import Stochastic.Proofs.World.Symmetry

/-!
# What holds of every variable

A property of single variables holds everywhere in a world if every variable that is found there
has it, staged or committed, marked or not.  Accepting commits some of the variables that are
found and rejecting goes back to what is committed, so only visits and proposals have to be looked
at one by one to see that a property holds everywhere in every world that can be reached.

## Main definitions

* `World.Everywhere` — a property holds of every variable.
* `World.Scored` — all log-probabilities are those of the values.

## Main results

* `World.everywhere_of_reachable` — a property that visits and proposals keep holds everywhere.
* `World.scored_of_reachable` — every world that can be reached is scored: a log-probability is
  computed anew whenever the value or the distribution changes.
-/

namespace Stochastic.World

variable {w w' : World} {r r' : Run} {n : Ident} {v v' : Variable} {m : Model}
  {Q : Ident → Variable → Prop}

/-- Every variable that is found has a property. -/
def Everywhere (Q : Ident → Variable → Prop) (w : World) : Prop :=
  ∀ n v, w.lookup? n = some v → Q n v

namespace Everywhere

theorem congr (h : w.Everywhere Q) (hl : ∀ n, w'.lookup? n = w.lookup? n) : w'.Everywhere Q :=
  fun n v hv => h n v (hl n ▸ hv)

/-- A variable may be replaced by one that has the property under each of its names. -/
theorem put (h : w.Everywhere Q) (hv : ∀ k, (n == k) = true → Q k v) :
    (w.put n v).Everywhere Q := by
  intro k u hu
  rw [lookup?_put] at hu
  by_cases hnk : (n == k) = true
  · rw [if_pos hnk] at hu
    cases hu
    exact hv k hnk
  · rw [if_neg hnk] at hu
    exact h k u hu

theorem replace (h : r.world.Everywhere Q) (hv : ∀ k, (n == k) = true → Q k v') :
    (r.replace n v v').world.Everywhere Q :=
  (h.put hv).congr fun k => by rw [lookup?_replace, lookup?_put]

/-- Who reads a variable does not matter to a property of the rest. -/
theorem sameCores (hQ : ∀ {n v v'}, v'.core = v.core → Q n v → Q n v') (h : w.Everywhere Q)
    (hs : w.SameCores w') : w'.Everywhere Q := by
  intro n v' hv'
  obtain ⟨v, hv, hcore⟩ := hs.symm.exists_core hv'
  exact hQ hcore.symm (h n v hv)

/-- Once the changes are rejected, what is committed is all there is. -/
theorem rejected (h : w.reject.state.Everywhere Q) (hc : w'.committed = w.committed) :
    w'.reject.state.Everywhere Q := by
  refine h.congr fun n => ?_
  change w'.committed.get? n = w.committed.get? n
  rw [hc]

theorem accepted (h : w.Everywhere Q) : w.accept.state.Everywhere Q := by
  intro n v hv
  rw [lookup?_accept] at hv
  exact h n v (live?_eq_some.1 hv).2

end Everywhere

/-- A step from outside that keeps a property when it succeeds, and what is committed in any case,
can be carried out. -/
theorem everywhere_reply {α : Type} (step : Step α)
    (h : w.reject.state.Everywhere Q)
    (hb : SameBase { world := w } (step.after { world := w }))
    (hs : ∀ {a r'}, step { world := w } = .ok a r' → r'.world.Everywhere Q) :
    (orRejected (step.reply w)).Everywhere Q ∧
      (orRejected (step.reply w)).reject.state.Everywhere Q :=
  orRejected_reply (P := fun w' => w'.Everywhere Q ∧ w'.reject.state.Everywhere Q) step hb
    (fun ho hc => ⟨hs ho, h.rejected hc⟩) fun hc => ⟨h.rejected hc, h.rejected hc⟩

/-- **What visits and proposals keep holds everywhere**, also of what is committed, in every world
that can be reached. -/
theorem everywhere_of_reachable
    (hvisit : ∀ {w n x r'}, Reachable m w → w.Everywhere Q →
      visit m n { world := w } = .ok x r' → r'.world.Everywhere Q)
    (hproposal : ∀ {w n value p r'}, Reachable m w → w.Everywhere Q →
      proposal m n value { world := w } = .ok p r' → r'.world.Everywhere Q)
    (h : Reachable m w) : w.Everywhere Q ∧ w.reject.state.Everywhere Q := by
  induction h with
  | new config =>
    have hnew : (World.new config).Everywhere Q := fun n v hv => by cases hv
    exact ⟨hnew, hnew⟩
  | @step w op hw ih =>
    cases op with
    | update n =>
      rw [carryOut, perform, orRejected_map]
      exact everywhere_reply (visit m n) ih.2 (sameBase_visit m n _) (hvisit hw ih.1)
    | propose n value =>
      rw [carryOut, perform, orRejected_map, propose, orRejected_map]
      exact everywhere_reply _ ih.2 (sameBase_proposal m n value _) (hproposal hw ih.1)
    | accept => exact ⟨ih.1.accepted, ih.1.accepted⟩
    | reject => exact ⟨ih.2, ih.2⟩
    | observe observations => exact ⟨ih.1.congr fun _ => rfl, ih.2.congr fun _ => rfl⟩
    | ask queries => exact ⟨ih.1.congr fun _ => rfl, ih.2.congr fun _ => rfl⟩

/-! ## Log-probabilities -/

/-- The log-probability of every variable is that of its value. -/
def Scored (w : World) : Prop :=
  ∀ n v, w.lookup? n = some v → v.logProb = v.distribution.logProb v.value

theorem scored_of_move (h : Move r r') (hs : r.world.Scored) : r'.world.Scored := by
  cases h with
  | @relist n v readers found =>
    have hv := hs n v found
    exact Everywhere.replace hs fun _ _ => hv
  | mark => exact Everywhere.congr hs fun k => by rw [Run.world_marking, lookup?_marking]
  | create d value parents absent observed => exact Everywhere.put hs fun _ _ => rfl
  | unmark | draw | write | frames => exact Everywhere.congr hs fun _ => rfl

theorem scored_of_moves (h : Moves r r') (hs : r.world.Scored) : r'.world.Scored := by
  induction h with
  | refl => exact hs
  | tail _ hm ih => exact scored_of_move hm ih

theorem scored_reexecute (ho : reexecute m n r = .ok () r') (hs : r.world.Scored) :
    r'.world.Scored := by
  obtain ⟨d, parents, r₁, v, hx, -, hd⟩ := reexecute_eq_ok.1 ho
  have h₁ := scored_of_moves (moves_of_execute hx) hs
  have h₂ : (r₁.replace n v (revised v d parents)).world.Scored :=
    Everywhere.replace h₁ fun _ _ => rfl
  exact scored_of_moves (sheds_forM_detach hd).moves h₂

theorem scored_revisions {cs : List Ident} {shifts : List (Option (Ident × Shift))}
    (ho : (cs.mapM (revise m) : Step _) r = .ok shifts r') (hs : r.world.Scored) :
    r'.world.Scored :=
  revisions_relate (R := fun a b => a.world.Scored → b.world.Scored) (fun _ h => h)
    (fun hab hbc ha => hbc (hab ha)) (fun _ hx => scored_reexecute hx) ho hs

theorem scored_proposal {value : Tensor Float} {p : Proposal}
    (ho : proposal m n value r = .ok p r') (hs : r.world.Scored) : r'.world.Scored := by
  obtain ⟨-, v, shifts, r₁, created, deleted, -, hrev, -, hworld, -⟩ := proposal_eq_ok ho
  rw [hworld]
  refine scored_revisions hrev ?_
  exact Everywhere.replace (r := r.proposing n) hs fun _ _ => rfl

/-- **Log-probabilities are those of the values** in every world that can be reached. -/
theorem scored_of_reachable (h : Reachable m w) : w.Scored := by
  refine (everywhere_of_reachable (fun {w n x r'} _ hs ho => ?_) (fun _ hs ho => ?_) h).1
  · have hmoves := (progress_visit m n { world := w }).moves
    rw [Step.after_eq_of_ok ho] at hmoves
    exact scored_of_moves hmoves hs
  · exact scored_proposal ho hs

end Stochastic.World
