import Stochastic.Proofs.World.Wiring

/-!
# Chains of deletions and revivals end by themselves

A variable that is deleted may take the variables with it that only it read, and a variable that
is revived brings back those that it reads.  Either chain is followed up to a bound, and the bound
is never met: each link of the one marks a live variable, each link of the other but the first
takes a mark away.  So any larger bound makes the same of every world, also of one whose edges do
not fit together.

## Main results

* `World.detachWithin_eq_detach` — no larger bound makes a difference to deletions.
* `World.reviveWithin_eq_revive` — nor to revivals.
-/

namespace Stochastic.World

variable {r : Run} {n c p : Ident} {depth depth' : Nat}

/-- Two steps that agree on the runs with a property do the same for every member of a list, if
the first one keeps the property. -/
theorem Step.forM_congr {β : Type} {f g : β → Step Unit} {P : Run → Prop} (bs : List β)
    (hP : ∀ b r, P r → P ((f b).after r)) (h : ∀ b r, P r → f b r = g b r) (hr : P r) :
    (bs.forM f : Step Unit) r = (bs.forM g : Step Unit) r := by
  induction bs generalizing r with
  | nil => rfl
  | cons b bs ih =>
    change EStateM.bind (f b) (fun _ => bs.forM f) r = EStateM.bind (g b) (fun _ => bs.forM g) r
    have hafter := hP b r hr
    rw [EStateM.bind, EStateM.bind, ← h b r hr]
    cases hf : f b r with
    | ok u r₁ =>
      rw [Step.after_eq_of_ok hf] at hafter
      exact ih hafter
    | error e r₁ => rfl

/-! ## Deletions -/

/-- Bounds beyond the number of live variables make no difference. -/
theorem detachWithin_eq_of_lt (h : r.world.liveKeys.card < depth)
    (h' : r.world.liveKeys.card < depth') :
    detachWithin depth c p r = detachWithin depth' c p r := by
  induction depth generalizing depth' c p r with
  | zero => exact absurd h (Nat.not_lt_zero _)
  | succ depth ih =>
    obtain ⟨depth', rfl⟩ := Nat.exists_eq_add_one_of_ne_zero (Nat.ne_zero_of_lt h')
    rw [detachWithin_succ, detachWithin_succ]
    cases hv : r.world.lookup? p with
    | none => rfl
    | some v =>
      simp only
      have hs := Finset.card_le_card (sheds_relist hv (v.children.erase c)).liveKeys_subset
      have hv₁ := lookup?_relist_self r p v (v.children.erase c)
      generalize r.relist p v (v.children.erase c) = r₁ at hs hv₁
      by_cases ha : r₁.abandons p (v.children.erase c) = true
      · rw [if_pos ha, if_pos ha]
        have hlt := card_liveKeys_marking hv₁ rfl ha
        -- the later detachments start from worlds that have no more live variables than this one
        refine Step.forM_congr
          (P := fun r => r.world.liveKeys.card < depth ∧ r.world.liveKeys.card < depth') _
          (fun q r₂ hr₂ => ?_) (fun q r₂ hr₂ => ih hr₂.1 hr₂.2) (by omega)
        have hle := Finset.card_le_card (sheds_detachWithin depth p q r₂).liveKeys_subset
        omega
      · rw [if_neg ha, if_neg ha]

/-- **A chain of deletions ends by itself**: no larger bound makes a difference. -/
theorem detachWithin_eq_detach (h : r.world.size < depth) :
    detachWithin depth c p r = detach c p r :=
  detachWithin_eq_of_lt ((card_liveKeys_le _).trans_lt h) (Nat.lt_succ_of_le (card_liveKeys_le _))

/-! ## Revivals -/

/-- A variable that loses its mark leaves one mark less. -/
theorem card_markedKeys_unmark (h : r.world.overlay.isMarked n = true) :
    ((r.mapOverlay (·.unmark n)).write (reviveLine n)).world.markedKeys.card <
      r.world.markedKeys.card := by
  refine (restores_unmark r n).card_markedKeys_lt h ?_
  change (r.world.unmarking n).overlay.isMarked n = false
  rw [isMarked_unmarking, BEq.refl, Bool.not_true, Bool.and_false]

/-- Bounds beyond the number of marks that are left make no difference. -/
theorem reviveWithin_eq_of_lt
    (h : ((r.mapOverlay (·.unmark n)).write (reviveLine n)).world.markedKeys.card < depth)
    (h' : ((r.mapOverlay (·.unmark n)).write (reviveLine n)).world.markedKeys.card < depth') :
    reviveWithin depth n r = reviveWithin depth' n r := by
  induction depth generalizing depth' n r with
  | zero => exact absurd h (Nat.not_lt_zero _)
  | succ depth ih =>
    obtain ⟨depth', rfl⟩ := Nat.exists_eq_add_one_of_ne_zero (Nat.ne_zero_of_lt h')
    rw [reviveWithin_succ, reviveWithin_succ]
    cases r.world.lookup? n with
    | none => rfl
    | some v =>
      refine Step.forM_congr
        (P := fun r => r.world.markedKeys.card < depth + 1 ∧ r.world.markedKeys.card < depth' + 1)
        _ (fun q r₁ hr₁ => ?_) (fun q r₁ hr₁ => ?_) ⟨h, h'⟩
      · have hle := Finset.card_le_card
          (restores_reviveLink (restores_reviveWithin depth) n q r₁).markedKeys_subset
        omega
      · rw [Step.get_bind, Step.get_bind]
        by_cases hq : r₁.world.overlay.isMarked q = true
        · -- the next link takes a mark away, so the rest of the chain has one less to follow
          have hlt := card_markedKeys_unmark hq
          have hnext : reviveWithin depth q r₁ = reviveWithin depth' q r₁ :=
            ih (by omega) (by omega)
          simp only [if_pos hq]
          change EStateM.bind _ _ _ = EStateM.bind _ _ _
          rw [EStateM.bind, EStateM.bind, hnext]
        · simp only [if_neg hq]

/-- **A chain of revivals ends by itself**: no larger bound makes a difference. -/
theorem reviveWithin_eq_revive (h : r.world.overlay.marked.size < depth) :
    reviveWithin depth n r = revive n r := by
  have hle := (Finset.card_le_card (restores_unmark r n).markedKeys_subset).trans
    (card_markedKeys_le r.world)
  exact reviveWithin_eq_of_lt (hle.trans_lt h) (Nat.lt_succ_of_le hle)

end Stochastic.World
