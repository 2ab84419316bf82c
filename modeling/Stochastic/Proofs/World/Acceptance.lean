import Stochastic.Proofs.World.Accounting

/-!
# What accepting commits

Staged and committed variables overlap, and a marked variable may be staged, committed, or both.
Two places have to agree on which copies count: accepting inserts the staged copies that are not
marked and then erases whatever is marked, and the joint log-probability runs through the staged
copies and then through what is committed only.  Both come down to the live view, in which every
variable that is not marked stands once, with its staged copy if there is one.

The view is compared by key.  A committed variable keeps the spelling of its identifier when a
staged copy replaces it, so the identifiers themselves may be spelled otherwise afterwards.

## Main definitions

* `World.CountsOnce` — a list of log-probabilities has one term for every live variable.

## Main results

* `World.CountsOnce.perm` — two such lists for the same live view differ in their order only.
* `World.accept_commits_live` — accepting commits exactly the live view.
-/

namespace Stochastic.World

variable {w w' : World} {lps lps' : List Float}

/-- The list has one term for every live variable, its log-probability, and no other terms. -/
def CountsOnce (w : World) (lps : List Float) : Prop :=
  ∃ es : List (Ident × Variable), (es.Pairwise fun e e' => (e.1 == e'.1) = false) ∧
    (∀ n v, w.live? n = some v ↔ ∃ k, (k == n) = true ∧ (k, v) ∈ es) ∧
    lps = es.map fun e => e.2.logProb

/-- **The terms of the joint log-probability count every live variable once.** -/
theorem countsOnce_liveLogProbs (w : World) : w.CountsOnce w.liveLogProbs := by
  refine ⟨w.liveEntries, w.liveEntries_pairwise, fun n v => ⟨fun hv => ?_, ?_⟩, rfl⟩
  · obtain ⟨⟨k, u⟩, he, hk⟩ := exists_mem_liveEntries hv
    -- The entry holds what is found under its own spelling, so under every other one.
    have hu : w.live? k = some u := live?_of_mem_liveEntries he
    rw [live?_congr w hk, hv] at hu
    obtain rfl := Option.some.inj hu
    exact ⟨k, hk, he⟩
  · rintro ⟨k, hk, he⟩
    rw [← live?_congr w hk]
    exact live?_of_mem_liveEntries he

/-- Entries with distinct identifiers that describe the same view are the same up to order and
spelling. -/
theorem perm_keyed {es es' : List (Ident × Variable)}
    (hd : es.Pairwise fun e e' => (e.1 == e'.1) = false)
    (hd' : es'.Pairwise fun e e' => (e.1 == e'.1) = false)
    (h : ∀ n v, (∃ k, (k == n) = true ∧ (k, v) ∈ es) ↔ ∃ k, (k == n) = true ∧ (k, v) ∈ es') :
    (es.map fun e => (e.1.key, e.2)).Perm (es'.map fun e => (e.1.key, e.2)) := by
  -- distinct keys leave no room for repeated pairs
  have hnodup : ∀ {l : List (Ident × Variable)},
      (l.Pairwise fun e e' => (e.1 == e'.1) = false) →
      (l.map fun e => (e.1.key, e.2)).Nodup := fun hl => by
    refine List.Nodup.of_map Prod.fst ?_
    rw [List.map_map]
    exact nodup_keys hl
  have hmem : ∀ {l : List (Ident × Variable)} {n : Ident} {v : Variable},
      (n.key, v) ∈ (l.map fun e => (e.1.key, e.2)) ↔ ∃ k, (k == n) = true ∧ (k, v) ∈ l := by
    intro l n v
    simp only [List.mem_map, Prod.mk.injEq, Prod.exists, Ident.beq_iff]
    constructor
    · rintro ⟨k, u, he, hk, rfl⟩
      exact ⟨k, hk, he⟩
    · rintro ⟨k, hk, he⟩
      exact ⟨k, v, he, hk, rfl⟩
  apply (List.perm_ext_iff_of_nodup (hnodup hd) (hnodup hd')).2
  rintro ⟨key, v⟩
  constructor <;> intro hk <;> obtain ⟨e, -, he⟩ := List.mem_map.1 hk <;> cases he
  · exact hmem.2 ((h _ _).1 (hmem.1 hk))
  · exact hmem.2 ((h _ _).2 (hmem.1 hk))

/-- The terms of one live view are the same whichever way they are listed. -/
theorem CountsOnce.perm (h : w.CountsOnce lps) (h' : w'.CountsOnce lps')
    (hlive : ∀ n, w'.live? n = w.live? n) : lps'.Perm lps := by
  obtain ⟨es, hd, hes, rfl⟩ := h
  obtain ⟨es', hd', hes', rfl⟩ := h'
  have hp := perm_keyed hd' hd fun n v => by rw [← hes', ← hes, hlive]
  have hmapped := hp.map fun e => e.2.logProb
  rw [List.map_map, List.map_map] at hmapped
  exact hmapped

/-- **Accepting commits exactly the live view.**  Afterwards nothing is staged or marked, and an
identifier has the committed variable that was live under it before, or none if none was.  So
the joint log-probability adds up the same terms before and after, one for every live variable,
in whatever order. -/
theorem accept_commits_live (w : World) :
    let w' := w.accept.state
    w'.overlay = .empty ∧ (∀ n, w'.committed.get? n = w.live? n) ∧
      w.CountsOnce w.liveLogProbs ∧ w.CountsOnce w'.liveLogProbs ∧
      w'.liveLogProbs.Perm w.liveLogProbs := by
  intro w'
  have hlive : ∀ n, w'.live? n = w.live? n := fun n => lookup?_accept w n
  have hafter : w.CountsOnce w'.liveLogProbs := by
    obtain ⟨es, hd, hes, hlps⟩ := countsOnce_liveLogProbs w'
    exact ⟨es, hd, fun n v => by rw [← hlive, hes], hlps⟩
  exact ⟨rfl, lookup?_accept w, countsOnce_liveLogProbs w, hafter,
    (countsOnce_liveLogProbs w).perm (countsOnce_liveLogProbs w') hlive⟩

end Stochastic.World
