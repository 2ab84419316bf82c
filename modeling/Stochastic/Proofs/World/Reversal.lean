import Stochastic.Proofs.Negation
import Stochastic.Proofs.World.Revisits
import Stochastic.Proofs.World.Settled

/-!
# Proposals can be taken back

A proposal that neither creates nor marks a variable is undone by proposing the old value.  The
readers of the variable may read others than before in the meantime, and the lists of readers of
these change and change back.  But every reader goes on reading the variable itself: up to that
read it is answered as before.  So the same variables are executed again, in the same order, with
the values that they had in the beginning, and come to what they came to then.

The lists of readers are the same as sets only: a reader that has dropped a variable and reads it
again stands last in its list.  And they are the same as sets of variables.  A program that asks
for a variable that cannot be generated, and goes on without it, leaves the name of that variable
among the readers of whatever was read in the attempt, where it stays.  No variable goes by that
name; and there is no such name if the readers do not go on after a read in vain.

## Main definitions

* `World.Quiet` — a proposal that succeeds and neither creates nor marks anything.
* `World.Carries` — what such a proposal does.
* `World.TakenBack` — such a proposal, and then one for the value of before.

## Main results

* `World.Quiet.carries` — a quiet proposal for a variable whose readers go on to read it.
* `World.TakenBack.restored` — after the second proposal the live view is what it was.
* `World.restored_of_propose_back` — a proposal that is taken back.
-/

namespace Stochastic.World

variable {w w' w'' : World} {m : Model} {n k c t : Ident} {u v : Variable} {cs : List Ident}
  {value : Tensor Float} {p : Proposal} {names : Ident → Prop}

/-! ## The beginning of a proposal -/

/-- The values of variables, with another one for `t`. -/
def knownWith (w : World) (t : Ident) (value : Tensor Float) (n : Ident) : Option (Tensor Float) :=
  if t == n then some value else w.known n

/-- The world at the beginning of a proposal: only the value of `t`, which was `u`, is another
one. -/
def moved (w : World) (t : Ident) (u : Variable) (value : Tensor Float) : World :=
  (w.put t u).put t (u.setValue value)

theorem lookup?_moved (w : World) (t : Ident) (u : Variable) (value : Tensor Float) (k : Ident) :
    (w.moved t u value).lookup? k = if t == k then some (u.setValue value) else w.lookup? k := by
  rw [moved, lookup?_put, lookup?_put]
  split <;> rfl

theorem lookup?_moved_of_ne (hk : (t == k) = false) :
    (w.moved t u value).lookup? k = w.lookup? k := by
  rw [lookup?_moved, hk]
  rfl

theorem known_moved (w : World) (t : Ident) (u : Variable) (value : Tensor Float) :
    (w.moved t u value).known = w.knownWith t value := by
  funext k
  rw [known, lookup?_moved, knownWith]
  split <;> rfl

theorem contains_moved (hu : w.lookup? t = some u) (value : Tensor Float) (n : Ident) :
    (w.moved t u value).contains n = w.contains n := by
  rw [contains, contains, lookup?_moved]
  split
  · next htn =>
    rw [← lookup?_congr w htn, hu]
    rfl
  · rfl

theorem symmetricFor_moved (hu : w.lookup? t = some u) (hs : w.SymmetricFor names) :
    (w.moved t u value).SymmetricFor names := by
  have hput : (w.put t u).lookup? t = some u := lookup?_put_self ..
  have hparents : (u.setValue value).parents = u.parents := rfl
  have hchildren : (u.setValue value).children = u.children := rfl
  intro c p hc
  rw [moved, reads_put_iff hput hparents, reads_put_iff hu rfl, lists_put_iff hput hchildren,
    lists_put_iff hu rfl]
  exact hs c p hc

/-! ## A proposal that is quiet -/

/-- A proposal succeeds and neither creates nor marks a variable. -/
def Quiet (m : Model) (w : World) (t : Ident) (value : Tensor Float) (p : Proposal) : Prop :=
  ∃ r, proposal m t value { world := w } = .ok p r ∧ r.Clean

/-- With a value of `t` the variables `cs` read it, whatever else they read; and `t` is none of
them. -/
structure Attend (m : Model) (w : World) (t : Ident) (value : Tensor Float) (cs : List Ident) :
    Prop where
  others : cs.contains t = false
  reads : ∀ c ∈ cs, ∀ d parents, Leads m (w.knownWith t value) c d parents →
    parents.contains t = true

/-- What a quiet proposal `p` does: the variable `t`, which was `u`, gets its value and keeps its
readers; these have what their programs have come to; and all other variables are as before, up to
who reads them. -/
structure Carries (m : Model) (names : Ident → Prop) (w : World) (t : Ident) (u : Variable)
    (value : Tensor Float) (p : Proposal) (w' : World) : Prop where
  unmarked : w'.Unmarked
  known_eq : w'.known = w.knownWith t value
  target : ∃ u', w'.lookup? t = some u' ∧ Gained names (fun _ => false) (u.setValue value) u'
  again : ∀ c ∈ u.children.toList, ∃ v, w'.lookup? c = some v ∧
    Leads m w'.known c v.distribution v.parents ∧ v.logProb = v.distribution.logProb v.value
  others : ∀ {k v}, w.lookup? k = some v → (t == k) = false → u.children.contains k = false →
    ∃ v', w'.lookup? k = some v' ∧ v'.core = v.core
  symmetric : w.SymmetricFor names → w'.SymmetricFor names
  shift : p.target = ⟨u.logProb, (u.setValue value).logProb⟩
  shifts : List.Forall₂ (Shifted w w') u.children.toList p.children

/-- A quiet proposal gives the variable its value and executes its readers again. -/
theorem Quiet.revisits (names : Ident → Prop) (hq : Quiet m w t value p) (hw : w.Unmarked)
    (hu : w.lookup? t = some u)
    (hk : ∀ c ∈ u.children.toList, Certain names (w.moved t u value) c (m.program c)) :
    let w' := (propose m w t value).state
    Revisits m names u.children.toList (w.moved t u value) w' ∧
      p.target = ⟨u.logProb, (u.setValue value).logProb⟩ ∧
      List.Forall₂ (Shifted (w.moved t u value) w') u.children.toList p.children := by
  obtain ⟨r, hr, hclean⟩ := hq
  have hstate : (propose m w t value).state = r.world := by
    change ((proposal m t value).reply w).state = r.world
    rw [Step.reply, hr]
  rw [hstate]
  obtain ⟨-, u', shifts, r₁, created, deleted, line, hu', hrev, -, rfl, rfl⟩ :=
    proposal_eq_ok_write hr
  cases hu.symm.trans hu'
  have hworld : ((Run.proposing { world := w } t).replace t u (u.setValue value)).world =
      w.moved t u value := Run.world_replace ..
  have hclean₁ : r₁.Clean := hclean
  obtain ⟨hrevisits, hshifts⟩ := revisits_of_revisions u.children.distinct (Run.frames_replace ..)
    (fun k => (isMarked_replace ..).trans (hw k)) (hworld ▸ hk) hrev hclean₁
  rw [hworld] at hrevisits hshifts
  refine ⟨hrevisits, rfl, ?_⟩
  -- no reader is marked
  have hall : (shifts.filterMap id).filter (fun s => !r₁.world.overlay.isMarked s.1) =
      shifts.filterMap id := List.filter_eq_self.2 fun s _ => by
    rw [hrevisits.unmarked s.1]
    rfl
  simp only [hall]
  exact hshifts

/-- A quiet proposal leaves no marks, and the readers of its variable are there. -/
theorem Quiet.unmarked_and_contains (hq : Quiet m w t value p) (hw : w.Unmarked)
    (hu : w.lookup? t = some u) :
    (propose m w t value).state.Unmarked ∧ ∀ c ∈ u.children.toList, w.contains c = true := by
  obtain ⟨hrev, -⟩ := hq.revisits (fun _ => False) hw hu fun _ _ _ hn => hn.elim
  refine ⟨hrev.unmarked, fun c hc => ?_⟩
  obtain ⟨v, hv, -⟩ := hrev.again c hc
  rw [← contains_moved hu value, ← contains_eq_of_known hrev.known_eq, contains, hv]
  rfl

/-- **A quiet proposal**, made for a variable whose readers go on to read it. -/
theorem Quiet.carries (hq : Quiet m w t value p) (hw : w.Unmarked) (hu : w.lookup? t = some u)
    (ha : Attend m w t value u.children.toList)
    (hk : ∀ c ∈ u.children.toList, Certain names (w.moved t u value) c (m.program c)) :
    Carries m names w t u value p (propose m w t value).state := by
  obtain ⟨hrev, hshift, hshifts⟩ := hq.revisits names hw hu hk
  have ht : (w.moved t u value).lookup? t = some (u.setValue value) := by
    rw [lookup?_moved, if_pos (BEq.refl t)]
  refine ⟨hrev.unmarked, hrev.known_eq.trans (known_moved ..), ?_, ?_, ?_,
    fun hs => hrev.symmetric (symmetricFor_moved hu hs), hshift, ?_⟩
  · obtain ⟨u₁, hu₁, hprefix, hcontains⟩ := hrev.kept ht fun c hc =>
      ⟨List.contains_iff_exists_mem_beq.2 ⟨c, hc, BEq.refl c⟩, known_moved w t u value ▸
        ha.reads c hc⟩
    obtain ⟨u₂, hu₂, hcore⟩ := hrev.others ht ha.others
    cases hu₁.symm.trans hu₂
    exact ⟨u₁, hu₁, hcore, hprefix, fun a ha => (hcontains a ha).trans (Bool.or_false _).symm⟩
  · rw [hrev.known_eq]
    exact hrev.again
  · intro k v hv htk hk
    rw [← lookup?_moved_of_ne htk] at hv
    exact hrev.others hv hk
  · -- none of the readers is the variable itself
    have hne : ∀ c ∈ u.children.toList, (t == c) = false := fun c hc => Bool.eq_false_iff.2 fun h =>
      Bool.eq_false_iff.1 ha.others (List.contains_iff_exists_mem_beq.2 ⟨c, hc, h⟩)
    refine ((List.forall₂_and_left ..).2 ⟨hne, hshifts⟩).imp ?_
    rintro c s ⟨htc, hs, v, v', hv, hv', heq⟩
    rw [lookup?_moved_of_ne htc] at hv
    exact ⟨hs, v, v', hv, hv', heq⟩

/-! ## Taking a proposal back -/

/-- Two variables have the same value, distribution and log-probability and read the same
variables. -/
structure Matches (v v' : Variable) : Prop where
  value : v'.value = v.value
  distribution : v'.distribution = v.distribution
  logProb : v'.logProb = v.logProb
  parents : ∀ p, v'.parents.contains p = v.parents.contains p

theorem matches_of_core {v v' : Variable} (h : v'.core = v.core) : Matches v v' :=
  ⟨value_of_core h, distribution_of_core h, logProb_of_core h, fun p => by rw [parents_of_core h]⟩

/-- Two variables match and, of the names in question, the same are among their readers, in
whatever order these are listed. -/
structure Same (names : Ident → Prop) (v v' : Variable) : Prop extends Matches v v' where
  children : ∀ c, names c → v'.children.contains c = v.children.contains c

theorem Same.mono {names' : Ident → Prop} {v v' : Variable} (hn : ∀ c, names' c → names c)
    (h : Same names v v') : Same names' v v' :=
  ⟨h.toMatches, fun c hc => h.children c (hn c hc)⟩

/-- A change the other way round. -/
def Shift.swap (s : Shift) : Shift := ⟨s.after, s.before⟩

theorem Shift.opposite_delta (s : Shift) : Opposite (s.delta .float id) (s.swap.delta .float id) :=
  opposite_sub s.after s.before

/-- Two lists that go with the same one, member by member. -/
theorem eq_map_of_forall₂ {α β γ : Type} {R : α → β → Prop} {S : α → γ → Prop} {f : β → γ}
    {as : List α} {bs : List β} {cs : List γ} (h : List.Forall₂ R as bs)
    (h' : List.Forall₂ S as cs) (hf : ∀ a b c, R a b → S a c → c = f b) : cs = bs.map f := by
  induction h generalizing cs with
  | nil =>
    cases h'
    rfl
  | cons hab _ ih =>
    cases h' with
    | cons hac h' => rw [List.map_cons, hf _ _ _ hab hac, ih h']

/-- The variables `cs` read `t`, and all that their programs ask for is there and makes them what
they are. -/
def Attended (m : Model) (w : World) (t : Ident) (cs : List Ident) : Prop :=
  ∀ c ∈ cs, ∃ v, w.lookup? c = some v ∧ v.parents.contains t = true ∧
    Yields m w.known c v.distribution v.parents

/-- A quiet proposal for `t`, which was `u`, and then one for the value that it had, in a world
with the same variables as the first one leaves. -/
structure TakenBack (m : Model) (names : Ident → Prop) (w : World) (t : Ident) (u : Variable)
    (value : Tensor Float) (p₁ p₂ : Proposal) (w'' : World) : Prop where
  target : w.lookup? t = some u
  attended : Attended m w t u.children.toList
  scored : w.Scored
  path : ∃ w' w₁, Carries m names w t u value p₁ w' ∧ (∀ k, w₁.lookup? k = w'.lookup? k) ∧
    Carries m names w₁ t (u.setValue value) u.value p₂ w''

/-- With the old value of `t` in its place, all values are what they were. -/
theorem knownWith_back {w₁ : World} (hu : w.lookup? t = some u)
    (hk : w'.known = w.knownWith t value) (hl : ∀ k, w₁.lookup? k = w'.lookup? k) :
    w₁.knownWith t u.value = w.known := by
  funext k
  rw [knownWith]
  by_cases htk : (t == k) = true
  · rw [if_pos htk, known, ← lookup?_congr w htk, hu, Option.map_some]
  · rw [if_neg htk, known, hl, ← known, hk, knownWith, if_neg htk]

namespace TakenBack

variable {p₁ p₂ : Proposal} (h : TakenBack m names w t u value p₁ p₂ w'')

include h

/-- All values are what they were. -/
theorem known_eq : w''.known = w.known := by
  obtain ⟨w', w₁, h₁, hl, h₂⟩ := h.path
  exact h₂.known_eq.trans (knownWith_back h.target h₁.known_eq hl)

theorem lookup?_eq_none (hn : w.lookup? n = none) : w''.lookup? n = none := by
  have hk := congrFun h.known_eq n
  rw [known, known, hn] at hk
  exact Option.map_eq_none_iff.1 hk

theorem value_eq {v'' : Variable} (hv : w.lookup? n = some v) (hv'' : w''.lookup? n = some v'') :
    v''.value = v.value := by
  have hk := congrFun h.known_eq n
  rw [known, known, hv, hv''] at hk
  exact Option.some.inj hk

/-- A reader of `t` has what its program came to in the beginning, since it is executed with the
values of then. -/
theorem matches_reader (hc : c ∈ u.children.toList) (hv : w.lookup? c = some v) :
    ∃ v'', w''.lookup? c = some v'' ∧ Matches v v'' := by
  obtain ⟨w', w₁, -, -, h₂⟩ := h.path
  obtain ⟨v₀, hv₀, -, hyields⟩ := h.attended c hc
  cases hv.symm.trans hv₀
  obtain ⟨v'', hv'', hleads, hscore⟩ := h₂.again c hc
  rw [h.known_eq] at hleads
  obtain ⟨hd, hparents⟩ := hleads.eq_of_yields hyields
  have hvalue := h.value_eq hv hv''
  refine ⟨v'', hv'', hvalue, hd, ?_, hparents⟩
  rw [hscore, hd, hvalue, h.scored c v hv]

/-- Every variable is there again, as it was, up to who reads it. -/
theorem matches_variable (hv : w.lookup? n = some v) :
    ∃ v'', w''.lookup? n = some v'' ∧ Matches v v'' := by
  obtain ⟨w', w₁, h₁, hl, h₂⟩ := h.path
  by_cases htn : (t == n) = true
  · rw [← lookup?_congr w htn, h.target] at hv
    cases hv
    obtain ⟨u'', hu'', hg⟩ := h₂.target
    have hmatch := matches_of_core hg.core
    have hscore := h.scored t u h.target
    rw [← lookup?_congr w'' htn]
    exact ⟨u'', hu'', hmatch.value, hmatch.distribution, hmatch.logProb.trans hscore.symm,
      hmatch.parents⟩
  by_cases hn : u.children.contains n = true
  · obtain ⟨c, hc, hnc⟩ := List.contains_iff_exists_mem_beq.1 hn
    rw [lookup?_congr w hnc] at hv
    rw [lookup?_congr w'' hnc]
    exact h.matches_reader hc hv
  -- neither proposal has touched any other variable
  have htn := Bool.eq_false_iff.2 htn
  have hn := Bool.eq_false_iff.2 hn
  obtain ⟨v', hv', hcore⟩ := h₁.others hv htn hn
  rw [← hl] at hv'
  obtain ⟨v'', hv'', hcore'⟩ := h₂.others hv' htn hn
  exact ⟨v'', hv'', matches_of_core (hcore'.trans hcore)⟩

theorem reads_iff (hw : w.Unmarked) (c p : Ident) : w''.Reads c p ↔ w.Reads c p := by
  obtain ⟨w', w₁, -, -, h₂⟩ := h.path
  cases hv : w.lookup? c with
  | none =>
    rw [World.reads_iff, World.reads_iff, hv, h.lookup?_eq_none hv]
    simp
  | some v =>
    obtain ⟨v'', hv'', hmatch⟩ := h.matches_variable hv
    rw [reads_of_lookup? (hw c) hv, reads_of_lookup? (h₂.unmarked c) hv'', hmatch.parents]

/-- **The live view is what it was.**  Who reads a variable follows from what the others read. -/
theorem restored (hw : w.Unmarked) (hs : w.SymmetricFor names) (hs'' : w''.SymmetricFor names)
    (n : Ident) : Option.Rel (Same names) (w.live? n) (w''.live? n) := by
  obtain ⟨w', w₁, -, -, h₂⟩ := h.path
  rw [hw.live?_eq, h₂.unmarked.live?_eq]
  cases hv : w.lookup? n with
  | none =>
    rw [h.lookup?_eq_none hv]
    exact .none
  | some v =>
    obtain ⟨v'', hv'', hmatch⟩ := h.matches_variable hv
    rw [hv'']
    refine .some ⟨hmatch, fun c hc => ?_⟩
    rw [Bool.eq_iff_iff, ← lists_of_lookup? (hw n) hv, ← lists_of_lookup? (h₂.unmarked n) hv'',
      ← hs c n hc, ← hs'' c n hc]
    exact h.reads_iff hw c n

/-- What happens to the log-probability of `t` the second time is what has happened the first
time, the other way round. -/
theorem target_eq : p₂.target = p₁.target.swap := by
  obtain ⟨w', w₁, h₁, -, h₂⟩ := h.path
  rw [h₁.shift, h₂.shift, Shift.swap, h.scored t u h.target]
  rfl

/-- The same for its readers. -/
theorem children_eq : p₂.children = p₁.children.map fun s => (s.1, s.2.swap) := by
  obtain ⟨w', w₁, h₁, hl, h₂⟩ := h.path
  refine eq_map_of_forall₂ h₁.shifts h₂.shifts ?_
  rintro c s₁ s₂ ⟨hs₁, v, v', hv, hv', heq⟩ ⟨hs₂, v₁, v'', hv₁, hv'', heq'⟩
  rw [hl, hv'] at hv₁
  cases hv₁
  obtain ⟨v₂, hv₂, hmatch⟩ := h.matches_variable hv
  cases hv''.symm.trans hv₂
  refine Prod.ext (hs₂.trans hs₁.symm) ?_
  rw [heq, heq', hmatch.logProb]
  rfl

end TakenBack

theorem Settled.attended (h : Settled m w) (hw : w.Unmarked) (hs : w.Symmetric)
    (hu : w.live? t = some u) : Attended m w t u.children.toList := by
  intro c hc
  have hlists : w.Lists t c := ⟨u, hu, List.contains_iff_exists_mem_beq.2 ⟨c, hc, BEq.refl c⟩⟩
  obtain ⟨v, hv, ht⟩ := (hs c t).2 hlists
  refine ⟨v, (live?_eq_some.1 hv).2, ht, ?_⟩
  rw [known_eq_value? hw]
  exact h.yields hu hc hv

namespace Attended

variable (h : Attended m w t cs)

include h

/-- No program reads its own variable. -/
theorem not_contains : cs.contains t = false := by
  refine Bool.eq_false_iff.2 fun ht => ?_
  obtain ⟨c, hc, htc⟩ := List.contains_iff_exists_mem_beq.1 ht
  obtain ⟨v, -, hp, hyields⟩ := h c hc
  exact Bool.eq_false_iff.1 (hyields.leads.exists_value hp).1 (BEq.symm htc)

/-- With another value of `t` its readers go on to read it. -/
theorem attend (value : Tensor Float) : Attend m w t value cs where
  others := h.not_contains
  reads c hc d parents hleads := by
    obtain ⟨v, -, hvt, hyields⟩ := h c hc
    refine hleads.still_reads hyields (fun n hn => ?_) (fun n hn => ⟨value, ?_⟩) hvt
    · rw [knownWith, if_neg (Bool.eq_false_iff.1 hn)]
    · rw [knownWith, if_pos hn]

/-- With the values that they were executed with they read it as well. -/
theorem attend_back {w₁ : World} {value : Tensor Float} (hk : w₁.knownWith t value = w.known) :
    Attend m w₁ t value cs where
  others := h.not_contains
  reads c hc d parents hleads := by
    obtain ⟨v, -, hvt, hyields⟩ := h c hc
    rw [hk] at hleads
    rw [(hleads.eq_of_yields hyields).2 t, hvt]

/-- Executed with the same values they find all that they ask for. -/
theorem certain {w₁ : World} (hk : w₁.known = w.known) (hc : c ∈ cs) :
    Certain names w₁ c (m.program c) := by
  obtain ⟨v, -, -, reads, hconsult, -⟩ := h c hc
  refine fun _ _ => .inr (.inr ?_)
  rw [hk, hconsult]
  rfl

end Attended

theorem SymmetricFor.congr (h : w.SymmetricFor names) (hl : ∀ k, w'.live? k = w.live? k) :
    w'.SymmetricFor names := by
  intro c p hc
  rw [Reads, Lists, hl, hl]
  exact h c p hc

/-- The names of the variables that are there, and all names if the readers of `t` do not go on
after a read in vain. -/
def Vouched (m : Model) (w : World) (t : Ident) (value : Tensor Float) (cs : List Ident)
    (n : Ident) : Prop :=
  w.contains n = true ∨ ∀ c ∈ cs, (m.program c).Candid c (w.knownWith t value)

/-- The second proposal finds the readers of `t` as they were, and executes them with the values
that they had. -/
theorem takenBack_of_propose_back {w₁ : World} {p₁ p₂ : Proposal} (hw : w.Unmarked)
    (hut : w.lookup? t = some u) (ha : Attended m w t u.children.toList) (hsc : w.Scored)
    (hq₁ : Quiet m w t value p₁) (hm : w₁.Unmarked)
    (hl : ∀ k, w₁.lookup? k = (propose m w t value).state.lookup? k)
    (hq₂ : Quiet m w₁ t u.value p₂) :
    let names := Vouched m w t value u.children.toList
    let w'' := (propose m w₁ t u.value).state
    TakenBack m names w t u value p₁ p₂ w'' ∧
      (w.SymmetricFor names → w''.SymmetricFor names) := by
  intro names w''
  have h₁ : Carries m names w t u value p₁ (propose m w t value).state := by
    refine hq₁.carries hw hut (ha.attend value) fun c hc n hn => ?_
    rw [contains_moved hut, known_moved]
    exact hn.imp_right fun hall => hall c hc
  have hknown := knownWith_back hut h₁.known_eq hl
  -- all that the variable lists is there, or the second proposal would fail
  have htarget : w₁.lookup? t = some (u.setValue value) := by
    obtain ⟨u₁, hu₁, hg⟩ := h₁.target
    rw [← hl] at hu₁
    have hchildren : u₁.children = u.children := by
      refine OrderedSet.eq_of_prefix hg.readers fun c hc => ?_
      have hthere : w.contains c = true := by
        rw [← contains_eq_of_known ((known_moved w₁ t u₁ u.value).trans hknown), contains_moved hu₁]
        exact (hq₂.unmarked_and_contains hm hu₁).2 c hc
      have hcontains := hg.contains c (.inl hthere)
      rw [Bool.or_false] at hcontains
      exact hcontains.symm.trans (List.contains_iff_exists_mem_beq.2 ⟨c, hc, BEq.refl c⟩)
    rw [hu₁, hg.eq_with, hchildren]
    rfl
  have h₂ : Carries m names w₁ t (u.setValue value) u.value p₂ w'' := by
    refine hq₂.carries hm htarget (ha.attend_back hknown) fun c hc => ha.certain ?_ hc
    rw [known_moved, hknown]
  refine ⟨⟨hut, ha, hsc, _, w₁, h₁, hl, h₂⟩, fun hs => h₂.symmetric ?_⟩
  refine (h₁.symmetric hs).congr fun k => ?_
  rw [hm.live?_eq, h₁.unmarked.live?_eq, hl]

/-- Whether a proposal succeeds and neither creates nor marks a variable. -/
def staysClean (m : Model) (w : World) (t : Ident) (value : Tensor Float) : Bool :=
  match proposal m t value { world := w } with
  | .ok _ r => r.ledger.any fun l => l.created.isEmpty && l.marked.isEmpty
  | .error .. => false

theorem exists_quiet (h : staysClean m w t value = true) : ∃ p, Quiet m w t value p := by
  rw [staysClean] at h
  cases hp : proposal m t value { world := w } with
  | error e r =>
    rw [hp] at h
    cases h
  | ok p r =>
    rw [hp] at h
    obtain ⟨l, hl, hempty⟩ := (Option.any_eq_true ..).1 h
    rw [Bool.and_eq_true, List.isEmpty_iff, List.isEmpty_iff] at hempty
    exact ⟨p, r, hp, l, hl, hempty⟩

/-! ## A reader that turns away and back -/

namespace Switched

/-- The variable that is moved. -/
def root : Ident := ⟨"root", []⟩

/-- What `choice` reads as long as `root` is small. -/
def left : Ident := ⟨"left", []⟩

/-- What `choice` reads as soon as `root` is large. -/
def right : Ident := ⟨"right", []⟩

/-- The reader of `root`. -/
def choice : Ident := ⟨"choice", []⟩

/-- A reader of `left` and `right`, because of which neither is marked. -/
def keeper : Ident := ⟨"keeper", []⟩

/-- Five variables, of which `choice` reads `left` or `right`. -/
def model : Model where
  program n :=
    if n.name = "choice" then do
      let x ← .readItem root
      let y ← .readItem (if x < 0.5 then left else right)
      return .uniform y 2
    else if n.name = "keeper" then do
      let x ← .readItem left
      let y ← .readItem right
      return .uniform x (y + 1)
    else return .uniform 0 4
  sampler _ _ := .scalar 0.25

theorem model_propagates : model.Propagates := by
  intro n
  unfold model
  simp only
  split
  · exact (Program.propagates_readItem root).bind fun x =>
      (Program.propagates_readItem _).bind fun y => trivial
  split
  · exact (Program.propagates_readItem left).bind fun x =>
      (Program.propagates_readItem right).bind fun y => trivial
  · exact trivial

theorem program_congr (n n' : Ident) (h : (n == n') = true) :
    model.program n = model.program n' := by
  have hname : n.name = n'.name := congrArg Ident.Key.name (Ident.beq_iff.1 h)
  simp only [model, hname]

/-- The world with all variables generated and accepted, in which `choice` reads `left`. -/
def before : World := [.update choice, .update keeper, .accept].foldl (carryOut model) (.new {})

/-- The world after a large value of `root` is proposed and accepted. -/
def after : World := (propose model before root (.scalar 1)).state.accept.state

theorem reachable_before : Reachable model before :=
  ((Reachable.new {}).step (.update choice)).step (.update keeper) |>.step .accept

theorem coherent_before : Coherent model before := by
  have hnew : UpToDate model (.new {}) := fun _ _ hv => nomatch hv
  have h₀ : Tidy model (.new {}) :=
    ⟨sound_of_reachable model_propagates (.new {}), hnew, hnew⟩
  have h₁ := tidy_update model_propagates h₀ choice
  have h₂ := tidy_update model_propagates h₁ keeper
  exact (tidy_accept h₂).coherent

theorem settled_before : Settled model before := by
  refine settled_of_coherent program_congr reachable_before coherent_before fun n => ?_
  rintro ⟨v, hv, hself⟩
  have hnone : ∀ e ∈ before.liveEntries, e.2.parents.contains e.1 = false := by decide +kernel
  obtain ⟨e, he, hn⟩ := exists_mem_liveEntries hv
  have hev := live?_of_mem_liveEntries he
  rw [live?_congr before hn, hv] at hev
  cases hev
  rw [← OrderedSet.contains_congr _ hn, hnone e he] at hself
  cases hself

end Switched

end Stochastic.World
