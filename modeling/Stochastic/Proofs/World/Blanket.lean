import Stochastic.Proofs.World.Loopless

/-!
# Markov blankets

The blanket of a committed variable is collected from the readers that it lists and from what they
record as read.  Edges are recorded on both sides in every world that can be reached, so it can be
said by parents alone: the hidden variables that read the variable, and those that are read
together with it.  In particular nothing that is looked up on the way is missing.

## Main definitions

* `World.HasParent` — a committed variable reads another one.

## Main results

* `World.foldlM_addFamily` — what is collected from a list of readers.
* `World.exists_blanket` — the blanket of a variable in terms of parents.
* `World.exists_score` — the children of a variable are there.
* `World.blanket_of_reachable` — blankets in a world that can be reached.
-/

namespace Stochastic.World

variable {w : World} {n x y c p : Ident} {u v : Variable} {m : Model}

/-- The committed variable `c` reads `p`. -/
def HasParent (w : World) (c p : Ident) : Prop :=
  ∃ v, w.committed.get? c = some v ∧ v.parents.contains p = true

/-- What is committed is the live view once the staged changes are rejected. -/
theorem hasParent_iff : w.HasParent c p ↔ w.reject.state.Reads c p := Iff.rfl

theorem lists_reject : w.reject.state.Lists p c ↔
    ∃ v, w.committed.get? p = some v ∧ v.children.contains c = true := Iff.rfl

theorem hasParent_congr {c' p' : Ident} (w : World) (hc : (c == c') = true)
    (hp : (p == p') = true) : w.HasParent c p ↔ w.HasParent c' p' :=
  reads_congr w.reject.state hc hp

theorem isObserved_congr {k : Ident} (w : World) (h : (n == k) = true) :
    w.isObserved n = w.isObserved k := by
  unfold isObserved Table.contains
  rw [Table.get?_congr _ h]

/-! ## Collecting -/

theorem contains_addHidden (w : World) (s : OrderedSet Ident) (n x : Ident) :
    (w.addHidden s n).contains x = (s.contains x || (x == n && !w.isObserved x)) := by
  unfold addHidden
  cases hxn : x == n with
  | false => cases w.isObserved n <;> simp [OrderedSet.contains_insert, hxn]
  | true =>
    rw [isObserved_congr w hxn]
    cases w.isObserved n <;> simp [OrderedSet.contains_insert, hxn]

theorem contains_foldl_addHidden (w : World) (ps : List Ident) (s : OrderedSet Ident) (x : Ident) :
    (ps.foldl w.addHidden s).contains x =
      (s.contains x || (ps.contains x && !w.isObserved x)) := by
  induction ps generalizing s with
  | nil => simp
  | cons p ps ih =>
    rw [List.foldl_cons, ih, contains_addHidden, List.contains_cons]
    cases s.contains x <;> cases x == p <;> cases w.isObserved x <;> simp

/-- The members of a list that are not `n`, up to equality of names. -/
theorem contains_filter_not_beq (ps : List Ident) (n x : Ident) :
    (ps.filter fun p => !(p == n)).contains x = (ps.contains x && !(x == n)) := by
  rw [Bool.eq_iff_iff, Bool.and_eq_true, List.contains_iff_exists_mem_beq,
    List.contains_iff_exists_mem_beq]
  constructor
  · rintro ⟨p, hp, hxp⟩
    obtain ⟨hp, hpn⟩ := List.mem_filter.1 hp
    rw [BEq.congr_left hxp]
    exact ⟨⟨p, hp, hxp⟩, hpn⟩
  · rintro ⟨⟨p, hp, hxp⟩, hxn⟩
    refine ⟨p, List.mem_filter.2 ⟨hp, ?_⟩, hxp⟩
    rwa [← BEq.congr_left hxp]

/-- One reader that is committed contributes itself and its other parents, as far as they are
hidden. -/
theorem exists_addFamily (n : Ident) (s : OrderedSet Ident) (hc : w.committed.get? c = some v) :
    ∃ t, w.addFamily n s c = .ok t ∧ ∀ x, t.contains x = true ↔ s.contains x = true ∨
      w.isObserved x = false ∧ ((x == c) = true ∨ (x == n) = false ∧ w.HasParent c x) := by
  refine ⟨_, by rw [addFamily, findCommitted, hc]; rfl, fun x => ?_⟩
  have hparent : w.HasParent c x ↔ v.parents.contains x = true := by
    constructor
    · rintro ⟨v', hv', hx⟩
      rw [hc] at hv'
      cases hv'
      exact hx
    · intro hx
      exact ⟨v, hc, hx⟩
  rw [contains_foldl_addHidden, contains_addHidden, contains_filter_not_beq, hparent]
  change ((s.contains x || _) || (v.parents.contains x && _ && _)) = true ↔ _
  cases s.contains x <;> cases x == c <;> cases x == n <;> cases w.isObserved x <;> simp

/-- **What is collected from readers that are all committed**: each of them and its other parents,
as far as they are hidden. -/
theorem foldlM_addFamily {cs : List Ident} (n : Ident) (s : OrderedSet Ident)
    (h : ∀ c ∈ cs, ∃ v, w.committed.get? c = some v) :
    ∃ t, cs.foldlM (w.addFamily n) s = .ok t ∧ ∀ x, t.contains x = true ↔ s.contains x = true ∨
      w.isObserved x = false ∧
        ∃ c ∈ cs, (x == c) = true ∨ (x == n) = false ∧ w.HasParent c x := by
  induction cs generalizing s with
  | nil => exact ⟨s, rfl, fun x => by simp⟩
  | cons c cs ih =>
    obtain ⟨⟨v, hv⟩, hcs⟩ := List.forall_mem_cons.1 h
    obtain ⟨t₁, ht₁, hmem₁⟩ := exists_addFamily n s hv
    obtain ⟨t, ht, hmem⟩ := ih t₁ hcs
    refine ⟨t, by rw [List.foldlM_cons, ht₁]; exact ht, fun x => ?_⟩
    rw [hmem, hmem₁, List.exists_mem_cons_iff, or_assoc, ← and_or_left]

/-! ## Blankets by parents -/

/-- The readers that a committed variable lists are those that have it as a parent. -/
theorem hasParent_iff_contains (hs : w.reject.state.Symmetric)
    (hy : w.committed.get? y = some v) : w.HasParent c y ↔ v.children.contains c = true := by
  rw [hasParent_iff, hs, lists_reject]
  constructor
  · rintro ⟨v', hv', hc⟩
    rw [hy] at hv'
    cases hv'
    exact hc
  · intro hc
    exact ⟨v, hy, hc⟩

theorem exists_committed_child (hs : w.reject.state.Symmetric)
    (hy : w.committed.get? y = some v) (hc : c ∈ v.children.toList) :
    ∃ u, w.committed.get? c = some u := by
  obtain ⟨u, hu, -⟩ := (hasParent_iff_contains hs hy).2
    (List.contains_iff_exists_mem_beq.2 ⟨c, hc, BEq.refl c⟩)
  exact ⟨u, hu⟩

/-- **The blanket of a committed variable** holds the hidden variables that read it, and the
hidden variables that are read together with it. -/
theorem exists_blanket (hs : w.reject.state.Symmetric) (hl : w.reject.state.Loopless)
    (hy : w.committed.get? y = some v) :
    ∃ b, w.blanket y = .ok b ∧ ∀ x, b.contains x = true ↔
      w.isObserved x = false ∧ (x == y) = false ∧
        (w.HasParent x y ∨ ∃ c, w.HasParent c x ∧ w.HasParent c y) := by
  obtain ⟨b, hb, hmem⟩ :=
    foldlM_addFamily y .empty fun c hc => exists_committed_child hs hy hc
  refine ⟨b, by rw [blanket, findCommitted, hy]; exact hb, fun x => ?_⟩
  rw [hmem, OrderedSet.contains_empty]
  simp only [Bool.false_eq_true, false_or]
  refine and_congr_right fun _ => ?_
  constructor
  · rintro ⟨c, hc, hx⟩
    have hcy : w.HasParent c y := (hasParent_iff_contains hs hy).2
      (List.contains_iff_exists_mem_beq.2 ⟨c, hc, BEq.refl c⟩)
    obtain hxc | ⟨hxy, hcx⟩ := hx
    · -- a reader of `y` is not `y` itself
      have hxy : w.HasParent x y := (hasParent_congr w (BEq.symm hxc) (BEq.refl y)).1 hcy
      refine ⟨Bool.eq_false_iff.2 fun h => ?_, .inl hxy⟩
      obtain ⟨u, hu, hparent⟩ := (hasParent_congr w h (BEq.refl y)).1 hxy
      rw [hl y u hu] at hparent
      cases hparent
    · exact ⟨hxy, .inr ⟨c, hcx, hcy⟩⟩
  · rintro ⟨hxy, hx | ⟨c, hcx, hcy⟩⟩
    · obtain ⟨c, hc, hxc⟩ :=
        List.contains_iff_exists_mem_beq.1 ((hasParent_iff_contains hs hy).1 hx)
      exact ⟨c, hc, .inl hxc⟩
    · obtain ⟨c', hc', hcc'⟩ :=
        List.contains_iff_exists_mem_beq.1 ((hasParent_iff_contains hs hy).1 hcy)
      exact ⟨c', hc', .inr ⟨hxy, (hasParent_congr w hcc' (BEq.refl x)).1 hcx⟩⟩

/-! ## Scores -/

theorem exists_foldlM_addChild {cs : List Ident} (score : Float)
    (h : ∀ c ∈ cs, ∃ u, w.lookup? c = some u) :
    ∃ total, cs.foldlM w.addChild score = .ok total := by
  induction cs generalizing score with
  | nil => exact ⟨score, rfl⟩
  | cons c cs ih =>
    obtain ⟨⟨u, hu⟩, hcs⟩ := List.forall_mem_cons.1 h
    obtain ⟨total, htotal⟩ := ih (score + u.logProb) hcs
    refine ⟨total, ?_⟩
    rw [List.foldlM_cons, addChild, hu]
    exact htotal

/-- If the children of a variable are there, its score is their total unless that is undefined. -/
theorem exists_score (h : ∀ c ∈ u.children.toList, ∃ v, w.lookup? c = some v) :
    ∃ total, u.children.toList.foldlM w.addChild (u.logProb + u.jacobian) = .ok total ∧
      w.score u = if total.isNaN then .error (.inconsistent .undefinedScore) else .ok total := by
  obtain ⟨total, htotal⟩ := exists_foldlM_addChild (u.logProb + u.jacobian) h
  refine ⟨total, htotal, ?_⟩
  rw [score, htotal]
  change (if total.isNaN = true then _ else _ : Except Error Float) = _
  cases total.isNaN <;> rfl

theorem exists_lookup?_of_committed (h : ∃ u, w.committed.get? n = some u) :
    ∃ u, w.lookup? n = some u := by
  obtain ⟨u, hu⟩ := h
  unfold lookup?
  cases w.overlay.staged.get? n with
  | some u' => exact ⟨u', rfl⟩
  | none => exact ⟨u, hu⟩

/-- The children of a variable that is found are there: it has none if it is marked, and else
they read it. -/
theorem Wired.exists_child (hw : w.Wired ⊥ ⊥) (hu : w.lookup? n = some u)
    (hc : c ∈ u.children.toList) : ∃ v, w.lookup? c = some v := by
  cases hm : w.overlay.isMarked n with
  | true =>
    obtain ⟨u', hu', hnone⟩ := hw.barren hm
    rw [hu] at hu'
    cases hu'
    rw [hnone] at hc
    cases hc
  | false =>
    have hlists : w.Lists n c :=
      (lists_of_lookup? hm hu).2 (List.contains_iff_exists_mem_beq.2 ⟨c, hc, BEq.refl c⟩)
    obtain ⟨-, v, hv, -⟩ := reads_iff.1 ((hw.symmetric c n).2 hlists)
    exact ⟨v, hv⟩

/-! ## Worlds that can be reached -/

/-- **Blankets by parents.**  In a world that can be reached, the blanket of a committed variable
and the scores of the variable, as it is committed and as it is found now, are computed without
missing anything.  The blanket lists nothing twice, neither the variable itself nor an observed
one, and of the others those that read the variable and those that are read together with it.  So
of two hidden variables of which neither reads the other, each is in the blanket of the other or
none is. -/
theorem blanket_of_reachable (hm : m.Propagates) (h : Reachable m w)
    (hy : w.committed.get? y = some v) :
    (∃ b, w.blanket y = .ok b ∧
      (b.toList.Pairwise fun a a' => (a' == a) = false) ∧ b.contains y = false ∧
      (∀ x, w.isObserved x = true → b.contains x = false) ∧
      ∀ x, w.isObserved x = false → (x == y) = false →
        (b.contains x = true ↔ w.HasParent x y ∨ ∃ c, w.HasParent c x ∧ w.HasParent c y)) ∧
    (∀ u, u = v ∨ w.lookup? y = some u →
      ∃ total, u.children.toList.foldlM w.addChild (u.logProb + u.jacobian) = .ok total ∧
        w.score u = if total.isNaN then .error (.inconsistent .undefinedScore) else .ok total) ∧
    ∀ x u, w.committed.get? x = some u → w.isObserved x = false → w.isObserved y = false →
      ¬ w.HasParent x y → ¬ w.HasParent y x →
      ∃ bx, w.blanket x = .ok bx ∧ ∃ b, w.blanket y = .ok b ∧
        (b.contains x = true ↔ bx.contains y = true) := by
  have hsound := sound_of_reachable hm h
  have hs : w.reject.state.Symmetric := hsound.base.symmetric
  have hl := (loopless_of_reachable hm h).2
  obtain ⟨b, hb, hmem⟩ := exists_blanket hs hl hy
  refine ⟨⟨b, hb, b.distinct, ?_, ?_, ?_⟩, ?_, ?_⟩
  · refine Bool.eq_false_iff.2 fun hyb => ?_
    have hyy := ((hmem y).1 hyb).2.1
    rw [BEq.refl y] at hyy
    cases hyy
  · intro x hx
    refine Bool.eq_false_iff.2 fun hxb => ?_
    rw [((hmem x).1 hxb).1] at hx
    cases hx
  · intro x hx hxy
    rw [hmem]
    exact ⟨fun hxb => hxb.2.2, fun hxb => ⟨hx, hxy, hxb⟩⟩
  · rintro u (rfl | hu)
    · exact exists_score fun c hc =>
        exists_lookup?_of_committed (exists_committed_child hs hy hc)
    · exact exists_score fun c hc => hsound.live.exists_child hu hc
  · intro x u hx hxo hyo hxy hyx
    obtain ⟨bx, hbx, hmemx⟩ := exists_blanket hs hl hx
    refine ⟨bx, hbx, b, hb, ?_⟩
    rw [hmem, hmemx, BEq.comm (a := y)]
    simp only [hxo, hyo, hxy, hyx, false_or, true_and, and_comm]

/-! ## Two variables that are read together -/

namespace Joined

/-- A variable that is read. -/
def left : Ident := ⟨"left", []⟩

/-- Another one. -/
def right : Ident := ⟨"right", []⟩

/-- The variable that reads both. -/
def both : Ident := ⟨"both", []⟩

/-- One variable reads two others. -/
def model : Model where
  program n :=
    if n.name = "both" then do
      let x ← .readItem left
      let y ← .readItem right
      return .uniform x (y + 1)
    else return .uniform 0 1
  sampler _ _ := .scalar 0.25

theorem model_propagates : model.Propagates := by
  intro n
  unfold model
  simp only
  split
  · refine (Program.propagates_readItem left).bind fun _ => ?_
    exact (Program.propagates_readItem right).bind fun _ => trivial
  · exact trivial

/-- The world in which the reader is observed. -/
def world : World :=
  [.update both, .accept, .observe [(both, .scalar 0.5)]].foldl (carryOut model) (.new {})

theorem reachable_world : Reachable model world :=
  ((Reachable.new {}).step (.update both)).step .accept |>.step (.observe [(both, .scalar 0.5)])

end Joined

/-- Two variables are in the blankets of each other although the only one that reads them is
observed, and is in neither. -/
theorem blanket_of_reachable_joined :
    Joined.model.Propagates ∧ Reachable Joined.model Joined.world ∧
      ∃ bx, Joined.world.blanket Joined.right = .ok bx ∧
        ∃ b, Joined.world.blanket Joined.left = .ok b ∧ b.contains Joined.both = false ∧
          b.contains Joined.right = true ∧ bx.contains Joined.left = true := by
  have hreach := Joined.reachable_world
  have hleft : (Joined.world.committed.get? Joined.left).isSome := by decide +kernel
  have hright : (Joined.world.committed.get? Joined.right).isSome := by decide +kernel
  obtain ⟨v, hv⟩ := Option.isSome_iff_exists.1 hleft
  obtain ⟨u, hu⟩ := Option.isSome_iff_exists.1 hright
  obtain ⟨⟨b, hb, -, -, hobserved, hmem⟩, -, hsymm⟩ :=
    blanket_of_reachable Joined.model_propagates hreach hv
  have hboth : Joined.world.HasParent Joined.both Joined.right ∧
      Joined.world.HasParent Joined.both Joined.left := by
    rw [hasParent_iff, hasParent_iff]
    decide +kernel
  have hapart : ¬ Joined.world.HasParent Joined.right Joined.left ∧
      ¬ Joined.world.HasParent Joined.left Joined.right := by
    rw [hasParent_iff, hasParent_iff]
    decide +kernel
  have hhidden : Joined.world.isObserved Joined.right = false := by decide +kernel
  have hcontains : b.contains Joined.right = true :=
    (hmem _ hhidden (by decide +kernel)).2 (.inr ⟨Joined.both, hboth⟩)
  obtain ⟨bx, hbx, b', hb', hiff⟩ :=
    hsymm _ u hu hhidden (by decide +kernel) hapart.1 hapart.2
  rw [hb] at hb'
  cases hb'
  exact ⟨Joined.model_propagates, hreach, bx, hbx, b, hb, hobserved _ (by decide +kernel),
    hcontains, hiff.1 hcontains⟩

end Stochastic.World
