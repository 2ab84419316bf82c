import Stochastic.Proofs.World.Accounting
import Stochastic.Proofs.World.Quiet

/-!
# Variables that are executed again

The readers of a variable are executed again one after the other.  If nothing is created or
marked on the way, each of them gets what its program comes to with the values that were there in
the beginning, whatever the others do: executing a variable again changes no value.  What it does
change is who reads what, on both sides of each edge alike.

A list of readers may end up in another order, because a variable that is dropped and read again
is added at the end.  But the list of a variable that all of them have read and go on to read only
gets longer, by names of variables that are not there and were read in vain.

## Main definitions

* `World.SymmetricFor` — both sides of the edges from the variables in question agree.
* `World.Revisits` — what executing a list of variables again does, if nothing is created or
  marked.
* `World.Shifted` — what it does to a log-probability.

## Main results

* `World.Reexecuted.revisits` — one variable, executed again.
* `World.Revisits.cons` — one variable, and then others.
* `World.revisits_of_revisions` — a list of variables, executed again one after the other.
-/

namespace Stochastic.World

variable {w w' w'' : World} {r r' : Run} {m : Model} {n k c a p : Ident} {v : Variable}
  {cs : List Ident} {names : Ident → Prop}

/-! ## The readers of a variable -/

theorem contains_relinked_of_ne {old new s : OrderedSet Ident} (h : (a == c) = false) :
    (relinked c old new k s).contains a = s.contains a := by
  unfold relinked
  split
  · rw [OrderedSet.contains_insert, h, Bool.or_false]
  split
  · rw [OrderedSet.contains_erase, h, Bool.not_false, Bool.and_true]
  · rfl

theorem contains_relinked_self {old new s : OrderedSet Ident} (h : (a == c) = true)
    (hs : s.contains a = true → old.contains k = true) :
    (relinked c old new k s).contains a = new.contains k := by
  unfold relinked
  cases new.contains k with
  | true =>
    rw [if_pos rfl, OrderedSet.contains_insert, h, Bool.or_true]
  | false =>
    rw [if_neg Bool.false_ne_true]
    by_cases hold : old.contains k = true
    · rw [if_pos hold, OrderedSet.contains_erase, h, Bool.not_true, Bool.and_false]
    · rw [if_neg hold]
      exact Bool.eq_false_iff.2 fun hc => hold (hs hc)

/-! ## One variable after the other -/

/-- The edges from the variables in question agree: what such a variable reads lists it. -/
def SymmetricFor (names : Ident → Prop) (w : World) : Prop :=
  ∀ c p, names c → (w.Reads c p ↔ w.Lists p c)

/-- What executing the variables `cs` again does if nothing is created or marked.  Each has what
its program comes to with the values that were there, and all other variables are as before, up
to who reads them. -/
structure Revisits (m : Model) (names : Ident → Prop) (cs : List Ident) (w w' : World) :
    Prop where
  unmarked : w'.Unmarked
  known_eq : w'.known = w.known
  others : ∀ {k u}, w.lookup? k = some u → cs.contains k = false →
    ∃ u', w'.lookup? k = some u' ∧ u'.core = u.core
  again : ∀ c ∈ cs, ∃ v, w'.lookup? c = some v ∧ Leads m w.known c v.distribution v.parents ∧
    v.logProb = v.distribution.logProb v.value
  symmetric : w.SymmetricFor names → w'.SymmetricFor names
  /-- A variable that all of them read and go on to read keeps its readers. -/
  kept : ∀ {k u}, w.lookup? k = some u →
    (∀ c ∈ cs, u.children.contains c = true ∧
      ∀ d parents, Leads m w.known c d parents → parents.contains k = true) →
    ∃ u', w'.lookup? k = some u' ∧ u.children.toList <+: u'.children.toList ∧
      ∀ a, names a → u'.children.contains a = u.children.contains a

namespace Revisits

theorem nil (h : w.Unmarked) : Revisits m names [] w w where
  unmarked := h
  known_eq := rfl
  others hu _ := ⟨_, hu, rfl⟩
  again _ hc := by cases hc
  symmetric hs := hs
  kept hu _ := ⟨_, hu, List.prefix_rfl, fun _ _ => rfl⟩

/-- One variable, and then others. -/
theorem cons (hc : cs.contains c = false) (h : Revisits m names [c] w w')
    (h' : Revisits m names cs w' w'') : Revisits m names (c :: cs) w w'' where
  unmarked := h'.unmarked
  known_eq := h'.known_eq.trans h.known_eq
  others {k u} hu hk := by
    rw [List.contains_cons, Bool.or_eq_false_iff] at hk
    have hkc : [c].contains k = false := by
      rw [List.contains_cons, List.contains_nil, Bool.or_false]
      exact hk.1
    obtain ⟨u₁, hu₁, hcore₁⟩ := h.others hu hkc
    obtain ⟨u₂, hu₂, hcore₂⟩ := h'.others hu₁ hk.2
    exact ⟨u₂, hu₂, hcore₂.trans hcore₁⟩
  again c' hc' := by
    rcases List.mem_cons.1 hc' with rfl | hc'
    · obtain ⟨v, hv, hleads, hscore⟩ := h.again c' (List.mem_singleton.2 rfl)
      obtain ⟨v', hv', hcore⟩ := h'.others hv hc
      rw [← distribution_of_core hcore, ← parents_of_core hcore] at hleads
      rw [← distribution_of_core hcore, ← logProb_of_core hcore, ← value_of_core hcore] at hscore
      exact ⟨v', hv', hleads, hscore⟩
    · rw [← h.known_eq]
      exact h'.again c' hc'
  symmetric hs := h'.symmetric (h.symmetric hs)
  kept {k u} hu hread := by
    obtain ⟨hhead, htail⟩ := List.forall_mem_cons.1 hread
    obtain ⟨u₁, hu₁, hprefix₁, hch₁⟩ := h.kept hu fun c' hc' => List.mem_singleton.1 hc' ▸ hhead
    obtain ⟨u₂, hu₂, hprefix₂, hch₂⟩ := h'.kept hu₁ fun c' hc' =>
      ⟨OrderedSet.contains_of_prefix hprefix₁ (htail c' hc').1, h.known_eq ▸ (htail c' hc').2⟩
    exact ⟨u₂, hu₂, hprefix₁.trans hprefix₂, fun a ha => (hch₂ a ha).trans (hch₁ a ha)⟩

end Revisits

/-! ## One variable -/

namespace Reexecuted

variable {d : Distribution} {new : OrderedSet Ident} (h : Reexecuted m names c v d new w w')

include h

theorem exists_revisited {u : Variable} (hu : w.lookup? k = some u) :
    ∃ u', w'.lookup? k = some u' ∧ Revisited names c d v.parents new k u u' :=
  exists_of_rel (h.revisited k) hu

theorem lookup?_eq_none (hk : w.lookup? k = none) : w'.lookup? k = none :=
  eq_none_of_rel (h.revisited k) hk

theorem lists_iff (ha : names a) : w'.Lists p a ↔
    ∃ u, w.lookup? p = some u ∧ (relinked c v.parents new p u.children).contains a = true := by
  cases hu : w.lookup? p with
  | none =>
    rw [World.lists_iff, h.lookup?_eq_none hu]
    simp
  | some u =>
    obtain ⟨u', hu', hrev⟩ := h.exists_revisited hu
    rw [lists_of_lookup? (h.unmarked' p) hu', hrev.contains a ha]
    simp

/-- What the variable itself reads is what its program has read. -/
theorem reads_self (ha : (c == a) = true) : w'.Reads a p ↔ new.contains p = true := by
  obtain ⟨v', hv', hrev⟩ := h.exists_revisited ((lookup?_congr w ha).symm.trans h.found)
  have hcore := hrev.core
  rw [if_pos ha] at hcore
  rw [reads_of_lookup? (h.unmarked' a) hv', parents_of_core hcore]
  rfl

/-- No other variable reads anything else. -/
theorem reads_other (ha : (c == a) = false) : w'.Reads a p ↔ w.Reads a p := by
  cases hu : w.lookup? a with
  | none =>
    rw [reads_iff, reads_iff, h.lookup?_eq_none hu, hu]
    simp
  | some u =>
    obtain ⟨u', hu', hrev⟩ := h.exists_revisited hu
    have hcore := hrev.core
    rw [if_neg (Bool.eq_false_iff.1 ha)] at hcore
    rw [reads_of_lookup? (h.unmarked' a) hu', reads_of_lookup? (h.unmarked a) hu,
      parents_of_core hcore]

/-- Both sides of every edge in question have changed alike. -/
theorem symmetric (hs : w.SymmetricFor names) : w'.SymmetricFor names := by
  intro a p ha
  rw [h.lists_iff ha]
  cases hca : c == a with
  | true =>
    have hac : (a == c) = true := BEq.symm hca
    have hold : ∀ u, w.lookup? p = some u → u.children.contains a = true →
        v.parents.contains p = true := fun u hu hua =>
      (reads_of_lookup? (h.unmarked a) (lookup?_congr w hca ▸ h.found)).1
        ((hs a p ha).2 ((lists_of_lookup? (h.unmarked p) hu).2 hua))
    rw [h.reads_self hca]
    constructor
    · intro hp
      -- what has been read is there
      obtain ⟨-, n, hpn, x, hx⟩ := h.leads.exists_value hp
      obtain ⟨u, hu, -⟩ := Option.map_eq_some_iff.1 hx
      rw [← lookup?_congr w hpn] at hu
      exact ⟨u, hu, (contains_relinked_self hac (hold u hu)).trans hp⟩
    · rintro ⟨u, hu, hua⟩
      rwa [contains_relinked_self hac (hold u hu)] at hua
  | false =>
    have hac : (a == c) = false := BEq.comm.trans hca
    rw [h.reads_other hca, hs a p ha, World.lists_iff]
    simp only [contains_relinked_of_ne hac]
    exact ⟨fun hl => hl.2, fun hl => ⟨h.unmarked p, hl⟩⟩

theorem known_eq : w'.known = w.known := by
  funext k
  rw [known, known]
  cases hu : w.lookup? k with
  | none => rw [h.lookup?_eq_none hu]
  | some u =>
    obtain ⟨u', hu', hrev⟩ := h.exists_revisited hu
    rw [hu', Option.map_some, Option.map_some, value_of_core hrev.core]
    split <;> rfl

theorem revisits : Revisits m names [c] w w' where
  unmarked := h.unmarked'
  known_eq := h.known_eq
  others {k u} hu hk := by
    have hck : ¬ (c == k) = true := fun hck => by
      rw [List.contains_cons, BEq.comm, hck] at hk
      cases hk
    obtain ⟨u', hu', hrev⟩ := h.exists_revisited hu
    have hcore := hrev.core
    rw [if_neg hck] at hcore
    exact ⟨u', hu', hcore⟩
  again c' hc' := by
    obtain rfl := List.mem_singleton.1 hc'
    obtain ⟨v', hv', hrev⟩ := h.exists_revisited h.found
    have hcore := hrev.core
    rw [if_pos (BEq.refl c')] at hcore
    refine ⟨v', hv', ?_, ?_⟩
    · rw [distribution_of_core hcore, parents_of_core hcore]
      exact h.leads
    · rw [distribution_of_core hcore, logProb_of_core hcore, value_of_core hcore]
      rfl
  symmetric := h.symmetric
  kept {k u} hu hread := by
    obtain ⟨hc, hk⟩ := hread c (List.mem_singleton.2 rfl)
    have hnew := hk d new h.leads
    obtain ⟨u', hu', hrev⟩ := h.exists_revisited hu
    refine ⟨u', hu', hrev.readers hnew, fun a ha => ?_⟩
    rw [hrev.contains a ha, relinked, if_pos hnew, OrderedSet.insert_of_contains hc]

end Reexecuted

/-! ## The run -/

theorem clean_of_reexecute (ho : reexecute m n r = .ok () r') (h : r'.Clean) : r.Clean := by
  obtain ⟨d, parents, r₁, v, hx, -, hd⟩ := reexecute_eq_ok.1 ho
  have h₁ := clean_of_replace (clean_of_moves (sheds_forM_detach hd).moves h)
  exact clean_of_moves (moves_of_execute hx) h₁

theorem clean_of_revisions {shifts : List (Option (Ident × Shift))}
    (ho : (cs.mapM (revise m) : Step _) r = .ok shifts r') (h : r'.Clean) : r.Clean :=
  revisions_relate (R := fun a b => b.Clean → a.Clean) (fun _ h => h)
    (fun hab hbc hc => hab (hbc hc)) (fun _ hx => clean_of_reexecute hx) ho h

/-- A variable has been executed again, and this is what happened to its log-probability. -/
def Shifted (w w' : World) (c : Ident) (s : Ident × Shift) : Prop :=
  s.1 = c ∧ ∃ v v', w.lookup? c = some v ∧ w'.lookup? c = some v' ∧ s.2 = ⟨v.logProb, v'.logProb⟩

theorem map_fst_of_shifted {shifts : List (Ident × Shift)}
    (h : List.Forall₂ (Shifted w w') cs shifts) : shifts.map Prod.fst = cs := by
  induction h with
  | nil => rfl
  | cons hc _ ih => rw [List.map_cons, hc.1, ih]

/-- **Executing variables again, one after the other**, without anything being created or
marked.  None is passed over. -/
theorem revisits_of_revisions {shifts : List (Option (Ident × Shift))}
    (hcs : cs.Pairwise fun a b => (b == a) = false) (hf : r.frames = []) (hu : r.world.Unmarked)
    (hk : ∀ c ∈ cs, Certain names r.world c (m.program c))
    (ho : (cs.mapM (revise m) : Step _) r = .ok shifts r') (hclean : r'.Clean) :
    Revisits m names cs r.world r'.world ∧
      List.Forall₂ (Shifted r.world r'.world) cs (shifts.filterMap id) := by
  induction cs generalizing r shifts with
  | nil =>
    obtain ⟨rfl, rfl⟩ := Step.mapM_nil_eq_ok.1 ho
    exact ⟨.nil hu, .nil⟩
  | cons c cs ih =>
    obtain ⟨o, os, r₁, hc, hrest, rfl⟩ := Step.mapM_cons_eq_ok.1 ho
    obtain ⟨hhead, hcs⟩ := List.pairwise_cons.1 hcs
    have hfresh : cs.contains c = false := Bool.eq_false_iff.2 fun h => by
      obtain ⟨b, hb, hcb⟩ := List.contains_iff_exists_mem_beq.1 h
      exact Bool.eq_false_iff.1 (hhead b hb) (BEq.symm hcb)
    rcases revise_eq_ok hc with ⟨hm, -, -⟩ | ⟨-, v, v₁, hv, hx, hv₁, rfl⟩
    · rw [hu c] at hm
      cases hm
    obtain ⟨hf₁, d, new, hre⟩ := reexecute_clean hf hu (hk c List.mem_cons_self) hv hx
      (clean_of_revisions hrest hclean)
    have hone := hre.revisits
    obtain ⟨hrev, hshifts⟩ := ih hcs hf₁ hone.unmarked
      (fun c' hc' => (hk c' (List.mem_cons_of_mem _ hc')).of_known_eq hone.known_eq) hrest
    refine ⟨hone.cons hfresh hrev, ?_⟩
    rw [List.filterMap_cons_some (f := id) rfl]
    refine .cons ?_ (((List.forall₂_and_left ..).2 ⟨hhead, hshifts⟩).imp ?_)
    · obtain ⟨v', hv', hcore⟩ := hrev.others hv₁ hfresh
      exact ⟨rfl, v, v', hv, hv', by rw [logProb_of_core hcore]⟩
    -- the others had the same log-probabilities before the first one was executed
    · rintro c' s ⟨hne, hs, v₁, v', hv₁, hv', heq⟩
      obtain ⟨v₀, hv₀, -⟩ := Option.map_eq_some_iff.1
        ((congrFun hone.known_eq c').symm.trans (congrArg (Option.map Variable.value) hv₁))
      have hc' : [c].contains c' = false := by
        rw [List.contains_cons, List.contains_nil, Bool.or_false, hne]
      obtain ⟨v₂, hv₂, hcore⟩ := hone.others hv₀ hc'
      cases hv₁.symm.trans hv₂
      exact ⟨hs, v₀, v', hv₀, hv', by rw [heq, logProb_of_core hcore]⟩

end Stochastic.World
