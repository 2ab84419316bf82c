import Stochastic.Proofs.World.Coherence
import Stochastic.Proofs.World.Everywhere
import Stochastic.Proofs.World.Quiet

/-!
# Variables as their programs leave them

A variable is settled if its program, executed with the values that are there now, would come to
the distribution that it has and read what it records as read, and if its log-probability is that
of its value under its distribution.

The second half is true of every world that can be reached.  The first half is what coherence
says, up to names: a coherent variable agrees with its program under one of the names that are
equal to its own, and a settled one under each name by which it is executed again.

## Main definitions

* `World.Settled` — a world in which every variable is as its program leaves it.

## Main results

* `World.settled_of_coherent` — a coherent world is settled, if programs look at names only as far
  as equality does.
-/

namespace Stochastic

/-- Told that its own variable cannot be read or given its value, a program that does not read it
goes the same way. -/
theorem Program.consult_of_against {α : Type} {values : Ident → Option (Tensor Float)}
    {program : Program α} {self : Ident} {reads : List Ident} {a : α}
    (h : program.against values = some (reads, a)) (hself : reads.contains self = false) :
    program.consult self values = some (reads, a) := by
  induction program generalizing reads with
  | done b => exact h
  | fail e => cases h
  | ask n next ih =>
    rw [against] at h
    cases hn : values n with
    | none =>
      rw [hn] at h
      cases h
    | some v =>
      rw [hn] at h
      obtain ⟨⟨reads', b⟩, hrest, heq⟩ := Option.map_eq_some_iff.1 h
      cases heq
      rw [List.contains_cons, Bool.or_eq_false_iff] at hself
      rw [consult_other hself.1, hn]
      simp only
      rw [ih _ hrest hself.2, Option.map_some]

namespace World

variable {w w' : World} {r r' : Run} {m : Model} {n c t : Ident} {v v' : Variable}

theorem Ran.yields {values : Ident → Option (Tensor Float)} {d : Distribution}
    {parents : OrderedSet Ident} (h : Ran m values c d parents)
    (hself : parents.contains c = false) : Yields m values c d parents := by
  obtain ⟨reads, hagainst, hparents⟩ := h
  rw [hparents] at hself
  exact ⟨reads, Program.consult_of_against hagainst hself, hparents⟩

/-! ## Settled worlds -/

/-- Every live variable is as its program leaves it.  Under each name by which it is listed as a
reader, which is the name that it is executed by, its program reads what it records as read and
comes to its distribution with the live values; and its log-probability is that of its value. -/
structure Settled (m : Model) (w : World) : Prop where
  yields : ∀ {p c u v}, w.live? p = some u → c ∈ u.children.toList → w.live? c = some v →
    Yields m w.value? c v.distribution v.parents
  scored : ∀ {n v}, w.live? n = some v → v.logProb = v.distribution.logProb v.value

/-- **A coherent world that can be reached is settled**, if equal names have equal programs and no
variable reads itself. -/
theorem settled_of_coherent (hm : ∀ n n', (n == n') = true → m.program n = m.program n')
    (hr : Reachable m w) (hc : Coherent m w) (hself : ∀ n, ¬ w.Reads n n) : Settled m w where
  yields {_ c _ v} _ _ hv := by
    obtain ⟨n, hnc, reads, hagainst, hparents⟩ := hc c v hv
    rw [hm n c hnc] at hagainst
    have hran : Ran m w.value? c v.distribution v.parents := ⟨reads, hagainst, hparents⟩
    exact hran.yields (Bool.eq_false_iff.2 fun h => hself c ⟨v, hv, h⟩)
  scored hv := scored_of_reachable hr _ _ (live?_eq_some.1 hv).2

end World

end Stochastic
