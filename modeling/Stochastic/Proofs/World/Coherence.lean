import Stochastic.Proofs.World.Symmetry

/-!
# Coherent worlds

A world is coherent if running the program of a live variable against the live values would read
exactly the variables that it records as read, and come to exactly the distribution it has.

A proposal gives one variable another value, so the readers of that variable are stale until
they are executed again; no other variable ever is, because nothing else changes the value of a
variable that is there.  Readers are executed again one after the other, but one that is marked
when its turn comes is passed over, and a later one may revive it.  Such a reader is live in
the end and was not executed again.  `World.coherent_propose_iff` says that a proposal
leaves a coherent world coherent exactly if all of these happen to agree with the new value, and
`World.not_coherent_forked` that they need not.  Everything else that can be done to a world
keeps it coherent.

An identifier may be spelled in several ways, and a program may depend on the spelling; a
variable agrees with the values of others if its program does under one of them.

## Main definitions

* `World.Agrees`, `World.Coherent` — variables and worlds that are up to date.
* `World.Run.Fresh` — all variables but the stale ones agree.

## Main results

* `World.fresh_sustained` — running programs makes no variable stale.
* `World.coherent_propose_iff` — when a proposal keeps a world coherent.
* `World.tidy_carryOut` — every other operation keeps it so.
-/

namespace Stochastic.World

variable {w w' : World} {r r' : Run} {n k : Ident} {v v' : Variable} {m : Model}
  {values values' : Ident → Option (Tensor Float)} {stale stale' : Ident → Prop}

/-- The value of a live variable. -/
def value? (w : World) (n : Ident) : Option (Tensor Float) := (w.live? n).map Variable.value

/-- With the given values of other variables, the program of a variable reads what it records as
read and comes to its distribution. -/
def Agrees (m : Model) (values : Ident → Option (Tensor Float)) (n : Ident) (v : Variable) : Prop :=
  ∃ n', (n' == n) = true ∧ Ran m values n' v.distribution v.parents

/-- Every live variable agrees with the live values. -/
def Coherent (m : Model) (w : World) : Prop :=
  ∀ n v, w.live? n = some v → Agrees m w.value? n v

theorem Agrees.congr (h : Agrees m values n v) (hd : v'.distribution = v.distribution)
    (hp : v'.parents = v.parents)
    (hv : ∀ p x, v.parents.contains p = true → values p = some x → values' p = some x) :
    Agrees m values' n v' := by
  obtain ⟨n', hn', hr⟩ := h
  rw [Agrees, hd, hp]
  exact ⟨n', hn', hr.congr hv⟩

/-- What agrees goes on to agree while nothing goes away. -/
theorem Agrees.grows (h : Agrees m w.known n v) (hw : w.Grows w') (hc : v'.core = v.core) :
    Agrees m w'.known n v' :=
  h.congr (distribution_of_core hc) (parents_of_core hc) fun _ _ _ hx => hw.known_eq hx

/-! ## While programs run -/

/-- Every variable that is there, marked or not, agrees with the values of others, unless it is
stale; and the edges are in balance. -/
structure Run.Fresh (m : Model) (stale : Ident → Prop) (r : Run) : Prop where
  wired : r.Wired
  agrees : ∀ {n v}, r.world.lookup? n = some v → ¬ stale n → Agrees m r.world.known n v

theorem agrees_of_steady (h : Steady r r')
    (ha : ∀ {n v}, r.world.lookup? n = some v → ¬ stale n → Agrees m r.world.known n v)
    (hv : r'.world.lookup? n = some v) (hn : ¬ stale n) : Agrees m r'.world.known n v := by
  obtain ⟨v₀, hv₀, hc⟩ := h.cores.symm.exists_core hv
  exact (ha hv₀ hn).grows (grows_of_moves h.moves) hc.symm

/-- **Running programs makes no variable stale**: a variable that is revived is what it was, and
one that is created agrees with what its program has just read. -/
theorem fresh_sustained (m : Model) (stale : Ident → Prop) : Sustained m (Run.Fresh m stale) where
  view h hc ho hf := by
    refine ⟨h.wired.view hc ho hf, fun hv hn => ?_⟩
    -- values do not depend on frames or on the log
    have hl := lookup?_eq_of_view hc ho
    refine (h.agrees (hl _ ▸ hv) hn).congr rfl rfl fun p x _ hx => ?_
    rw [known, hl]
    exact hx
  enter n h := ⟨h.wired.enter n, h.agrees⟩
  revive {r r' n} h hn ho := by
    have hs := (restores_revive n r).toSteady
    rw [Step.after_eq_of_ok ho] at hs
    obtain ⟨hw, hl⟩ := h.wired.revive hn ho
    exact ⟨⟨hw, agrees_of_steady hs h.agrees⟩, hl⟩
  connect {r r' n} h hl ho := by
    refine ⟨h.wired.connect hl ho, fun hv hn => ?_⟩
    cases hf : r.frames with
    | nil =>
      rw [connect_eq, hf] at ho
      cases ho
      exact h.agrees hv hn
    | cons f fs =>
      rw [connect_eq, hf] at ho
      have hs := (restores_attach f.node n (r.noting n)).toSteady
      rw [Step.after_eq_of_ok ho] at hs
      have hw : (r.noting n).world = r.world := by rw [Run.noting, hf]
      exact agrees_of_steady hs (hw.symm ▸ h.agrees) hv hn
  create {r n d parents} value transformConstrained h hn hran := by
    -- the program of the new variable has just run against the values that are known
    obtain ⟨hw, hl⟩ := h.wired.create
      (v := .create d value parents transformConstrained) hn rfl rfl
    refine ⟨⟨hw, fun {k v} hv hk => ?_⟩, hl⟩
    rw [Run.world_creating, lookup?_put] at hv
    by_cases hnk : (n == k) = true
    · rw [if_pos hnk] at hv
      cases hv
      exact ⟨n, hnk, hran.grows (grows_creating hn _)⟩
    · rw [if_neg hnk] at hv
      exact (h.agrees hv hk).grows (grows_creating hn _) rfl

/-- When no program is running, a variable that agrees with all values agrees with the live ones:
whatever a live variable reads is live. -/
theorem agrees_value?_of_known (hw : w.Wired ⊥ ⊥) (hv : w.live? n = some v)
    (h : Agrees m w.known n v) : Agrees m w.value? n v := by
  refine h.congr rfl rfl fun p x hp hx => ?_
  obtain ⟨u, hu, -⟩ := (hw.symmetric n p).1 ⟨v, hv, hp⟩
  rw [value?, hu]
  rw [known, (live?_eq_some.1 hu).2] at hx
  exact hx

/-- Where nothing is marked, live values are all values. -/
theorem known_eq_value? (hm : ∀ n, w.overlay.isMarked n = false) : w.known = w.value? := by
  funext n
  rw [known, value?, live?, hm]
  rfl

/-! ## Proposals -/

/-- A variable that is executed again is stale no longer. -/
theorem fresh_reexecute (hm : m.Propagates) (hf : r.frames = []) (h : r.Fresh m stale)
    (hn : r.world.overlay.isMarked n = false) (ho : reexecute m n r = .ok () r') :
    r'.frames = [] ∧ r'.Fresh m fun k => stale k ∧ (k == n) = false := by
  obtain ⟨hf', hw'⟩ := wired_reexecute hm hf ((Run.wired_iff hf).1 h.wired) hn ho
  obtain ⟨d, parents, r₁, v, hx, hv, hd⟩ := reexecute_eq_ok.1 ho
  obtain ⟨h₁, hran⟩ := execute_sustains hm (fresh_sustained m stale) _ h hx
  -- The value of the variable stays as it is.
  have hknown : (r₁.replace n v (revised v d parents)).world.known = r₁.world.known := by
    funext k
    rw [known, known, lookup?_replace]
    by_cases hnk : (n == k) = true
    · rw [if_pos hnk, ← lookup?_congr _ hnk, hv]
      rfl
    · rw [if_neg hnk]
  have ha : ∀ {k u}, (r₁.replace n v (revised v d parents)).world.lookup? k = some u →
      ¬ (stale k ∧ (k == n) = false) →
      Agrees m (r₁.replace n v (revised v d parents)).world.known k u := by
    intro k u hu hk
    rw [hknown]
    rw [lookup?_replace] at hu
    by_cases hnk : (n == k) = true
    · rw [if_pos hnk] at hu
      cases hu
      exact ⟨n, hnk, hran⟩
    · rw [if_neg hnk] at hu
      exact h₁.agrees hu fun hs => hk ⟨hs, Bool.eq_false_iff.2 fun hkn => hnk (BEq.symm hkn)⟩
  exact ⟨hf', (Run.wired_iff hf').2 hw',
    fun hu hk => agrees_of_steady (sheds_forM_detach hd).toSteady ha hu hk⟩

theorem Run.Fresh.mono (h : r.Fresh m stale) (hs : ∀ n, stale n → stale' n) : r.Fresh m stale' :=
  ⟨h.wired, fun hv hn => h.agrees hv fun h => hn (hs _ h)⟩

/-- After all readers have had their turn, those are stale that were passed over. -/
theorem fresh_revisions (hm : m.Propagates) {cs : List Ident}
    {shifts : List (Option (Ident × Shift))} (hf : r.frames = []) (h : r.Fresh m stale)
    (ho : (cs.mapM (revise m) : Step _) r = .ok shifts r') :
    r'.frames = [] ∧
      r'.Fresh m fun k => stale k ∧ ∀ s ∈ shifts.filterMap id, (k == s.1) = false := by
  induction cs generalizing r stale shifts with
  | nil =>
    obtain ⟨rfl, rfl⟩ := Step.mapM_nil_eq_ok.1 ho
    exact ⟨hf, h.mono fun n hn => ⟨hn, fun s hs => by cases hs⟩⟩
  | cons c cs ih =>
    obtain ⟨o, os, r₁, hc, hcs, rfl⟩ := Step.mapM_cons_eq_ok.1 ho
    rcases revise_eq_ok hc with ⟨-, rfl, rfl⟩ | ⟨hn, v, v', -, hx, -, rfl⟩
    · rw [List.filterMap_cons_none rfl]
      exact ih hf h hcs
    · obtain ⟨hf₁, h₁⟩ := fresh_reexecute hm hf h hn hx
      obtain ⟨hf', h'⟩ := ih hf₁ h₁ hcs
      refine ⟨hf', h'.mono fun k hk => ⟨hk.1.1, fun s hs => ?_⟩⟩
      rcases List.mem_cons.1 hs with rfl | hs
      · exact hk.1.2
      · exact hk.2 s hs

/-- When a variable has got its new value, its readers are stale and nothing else is. -/
theorem fresh_moved (ho : w.overlay = .empty) (hs : w.Symmetric) (hc : Coherent m w)
    {t : Ident} {u : Variable} (hu : w.lookup? t = some u) (value : Tensor Float) :
    Run.Fresh m (fun k => w.Lists t k)
      ((Run.proposing { world := w } t).replace t u (u.setValue value)) := by
  have hmarks : ∀ n, w.overlay.isMarked n = false := fun n => by
    rw [ho]
    rfl
  have hlookup : ∀ k,
      ((Run.proposing { world := w } t).replace t u (u.setValue value)).world.lookup? k =
        (w.put t (u.setValue value)).lookup? k := fun k => by
    rw [lookup?_replace, lookup?_put]
    rfl
  refine ⟨(Run.wired_iff (Run.frames_replace ..)).2 ?_, fun {k v} hv hk => ?_⟩
  · have hw : (w.put t (u.setValue value)).Wired ⊥ ⊥ := wired_put hu rfl rfl (hs.wired hmarks)
    exact hw.congr hlookup fun k => isMarked_replace (Run.proposing { world := w } t) ..
  -- The variable had the same distribution and parents before, and does not read the target.
  · obtain ⟨v₀, hv₀, hd, hp⟩ : ∃ v₀, w.lookup? k = some v₀ ∧ v.distribution = v₀.distribution ∧
        v.parents = v₀.parents := by
      rw [hlookup, lookup?_put] at hv
      by_cases htk : (t == k) = true
      · rw [if_pos htk] at hv
        cases hv
        exact ⟨u, lookup?_congr w htk ▸ hu, rfl, rfl⟩
      · rw [if_neg htk] at hv
        exact ⟨v, hv, rfl, rfl⟩
    have hlive : w.live? k = some v₀ := live?_eq_some.2 ⟨hmarks k, hv₀⟩
    refine (hc k v₀ hlive).congr hd hp fun p x hpar hx => ?_
    have htp : ¬ (t == p) = true := fun htp => hk ((hs k t).1 ⟨v₀, hlive, by
      rw [OrderedSet.contains_congr _ htp]
      exact hpar⟩)
    rw [known, hlookup, lookup?_put, if_neg htp]
    rw [← known_eq_value? hmarks] at hx
    exact hx

/-- **When a proposal keeps a world coherent**: exactly if every reader of the proposed variable
that is live afterwards, but was passed over because it was marked when its turn came, agrees
with the values afterwards. -/
theorem coherent_propose_iff (hm : m.Propagates) (ho : w.overlay = .empty) (hs : w.Symmetric)
    (hc : Coherent m w) (t : Ident) (value : Tensor Float) {p : Proposal}
    (hp : (itemize m w t value).result = .ok p) :
    Coherent m (propose m w t value).state ↔
      ∀ c v, w.Lists t c → (∀ s ∈ p.children, (c == s.1) = false) →
        (propose m w t value).state.live? c = some v →
        Agrees m (propose m w t value).state.value? c v := by
  obtain ⟨r', hr', hstate⟩ := itemize_eq_ok hp
  rw [hstate]
  refine ⟨fun h c v _ _ hv => h c v hv, fun h n v hv => ?_⟩
  obtain ⟨-, u, shifts, r₁, created, deleted, hu, hrev, -, hworld, rfl⟩ := proposal_eq_ok hr'
  rw [hworld] at h hv ⊢
  have h₀ := fresh_moved ho hs hc hu value
  obtain ⟨hf₁, h₁⟩ := fresh_revisions hm (Run.frames_replace ..) h₀ hrev
  by_cases hn : w.Lists t n ∧ ∀ s ∈ shifts.filterMap id, (n == s.1) = false
  · exact h n v hn.1 (fun s hs => hn.2 s (List.mem_of_mem_filter hs)) hv
  · exact agrees_value?_of_known ((Run.wired_iff hf₁).1 h₁.wired) hv
      (h₁.agrees (live?_eq_some.1 hv).2 hn)

/-! ## Everything but proposals -/

/-- Every variable that is there agrees with the values of others. -/
def UpToDate (m : Model) (w : World) : Prop :=
  ∀ n v, w.lookup? n = some v → Agrees m w.known n v

/-- The edges are in balance and every variable is up to date, and both would be so if the
staged changes were rejected. -/
structure Tidy (m : Model) (w : World) : Prop where
  sound : w.Sound
  live : UpToDate m w
  base : UpToDate m w.reject.state

theorem Tidy.coherent (h : Tidy m w) : Coherent m w := fun _ _ hv =>
  agrees_value?_of_known h.sound.live hv (h.live _ _ (live?_eq_some.1 hv).2)

theorem UpToDate.congr (h : UpToDate m w) (hl : ∀ n, w'.lookup? n = w.lookup? n) :
    UpToDate m w' := by
  have hk : w'.known = w.known := by
    funext n
    rw [known, known, hl]
  intro n v hv
  rw [hk]
  exact h n v (hl n ▸ hv)

theorem upToDate_base (h : Tidy m w) (hc : w'.committed = w.committed) :
    UpToDate m w'.reject.state := by
  refine h.base.congr fun n => ?_
  change w'.committed.get? n = w.committed.get? n
  rw [hc]

/-- What a visit creates is up to date; if it fails, what is committed still is. -/
theorem tidy_update (hm : m.Propagates) (h : Tidy m w) (n : Ident) :
    Tidy m (carryOut m w (.update n)) := by
  have hp := execute_proceeds m w.config.maxDepth
  obtain ⟨hlive, hbase⟩ : UpToDate m (carryOut m w (.update n)) ∧
      UpToDate m (carryOut m w (.update n)).reject.state := by
    rw [carryOut, perform, orRejected_map]
    refine orRejected_reply (P := fun w' => UpToDate m w' ∧ UpToDate m w'.reject.state)
      (visit m n) (sameBase_visit m n _) (fun {x r'} ho hc => ?_)
      fun hc => ⟨upToDate_base h hc, upToDate_base h hc⟩
    have h₀ : Run.Fresh m (fun _ => False) { world := w } :=
      ⟨(Run.wired_iff rfl).2 h.sound.live, fun hv _ => h.live _ _ hv⟩
    have h₁ := (fresh_sustained m _).read (execute_sustains hm (fresh_sustained m _) _) hp h₀ ho
    exact ⟨fun _ _ hv => h₁.agrees hv id, upToDate_base h hc⟩
  exact ⟨sound_update hm h.sound n, hlive, hbase⟩

/-- What is accepted is the live view, and whatever is read there is live. -/
theorem tidy_accept (h : Tidy m w) : Tidy m w.accept.state := by
  have hu : UpToDate m w.accept.state := by
    intro n v hv
    rw [lookup?_accept] at hv
    refine (h.coherent n v hv).congr rfl rfl fun p x _ hx => ?_
    rw [known, lookup?_accept]
    exact hx
  exact ⟨sound_accept h.sound, hu, hu⟩

/-- **Every operation but a proposal keeps all variables up to date.** -/
theorem tidy_carryOut (hm : m.Propagates) (h : Tidy m w) {op : Operation}
    (hop : ∀ t value, op ≠ .propose t value) : Tidy m (carryOut m w op) := by
  have hs := sound_carryOut hm h.sound op
  cases op with
  | update n => exact tidy_update hm h n
  | propose t value => exact absurd rfl (hop t value)
  | accept => exact tidy_accept h
  | reject => exact ⟨hs, h.base, h.base⟩
  | observe observations => exact ⟨hs, h.live.congr fun _ => rfl, h.base.congr fun _ => rfl⟩
  | ask queries => exact ⟨hs, h.live.congr fun _ => rfl, h.base.congr fun _ => rfl⟩

/-! ## A reader that is passed over -/

namespace Forked

theorem tidy_before : Tidy model before := by
  have hnew : UpToDate model (.new {}) := fun _ _ hv => nomatch hv
  have h₀ : Tidy model (.new {}) :=
    ⟨sound_of_reachable model_propagates (.new {}), hnew, hnew⟩
  have h₁ := tidy_update model_propagates h₀ early
  have h₂ := tidy_update model_propagates h₁ late
  exact tidy_accept h₂

/-- Whether a distribution is uniform and does not reach far. -/
def isNarrow : Distribution → Bool
  | .uniform _ high => high < 1.5
  | _ => false

end Forked

/-- A coherent world and a proposal to which `coherent_propose_iff` applies. -/
theorem coherent_propose_iff_forked :
    Forked.model.Propagates ∧ Forked.before.overlay = .empty ∧ Forked.before.Symmetric ∧
      Coherent Forked.model Forked.before ∧
      ∃ p, (itemize Forked.model Forked.before Forked.root (.scalar 1)).result = .ok p ∧
        let after := (propose Forked.model Forked.before Forked.root (.scalar 1)).state
        (Coherent Forked.model after ↔ ∀ c v, Forked.before.Lists Forked.root c →
          (∀ s ∈ p.children, (c == s.1) = false) → after.live? c = some v →
          Agrees Forked.model after.value? c v) := by
  have hs := Forked.tidy_before.sound.live.symmetric
  have hc := Forked.tidy_before.coherent
  have hok : (itemize Forked.model Forked.before Forked.root (.scalar 1)).result.isOk = true := by
    decide +kernel
  cases hp : (itemize Forked.model Forked.before Forked.root (.scalar 1)).result with
  | error e =>
    rw [hp] at hok
    cases hok
  | ok p =>
    exact ⟨Forked.model_propagates, rfl, hs, hc, p, rfl,
      coherent_propose_iff Forked.model_propagates rfl hs hc Forked.root (.scalar 1) hp⟩

/-- A proposal after which a coherent world is not coherent any more: `early` drops `shared`,
which is marked and therefore passed over, and then `late` revives it with the distribution that
it had for the old value. -/
theorem not_coherent_forked :
    Coherent Forked.model Forked.before ∧ Forked.before.Symmetric ∧
      (propose Forked.model Forked.before Forked.root (.scalar 1)).result.isOk = true ∧
      ¬ Coherent Forked.model
        (propose Forked.model Forked.before Forked.root (.scalar 1)).state := by
  refine ⟨Forked.tidy_before.coherent, Forked.tidy_before.sound.live.symmetric, by decide +kernel,
    fun h => ?_⟩
  generalize hw : (propose Forked.model Forked.before Forked.root (.scalar 1)).state = after at h
  have hold : (after.live? Forked.shared).any (fun v => Forked.isNarrow v.distribution) = true := by
    subst hw
    decide +kernel
  have hnew : ((Forked.model.program Forked.shared).against after.value?).map
      (fun result => Forked.isNarrow result.2) = some false := by
    subst hw
    decide +kernel
  obtain ⟨v, hv, hd⟩ := (Option.any_eq_true ..).1 hold
  obtain ⟨n', hn', reads, hr, -⟩ := h Forked.shared v hv
  obtain rfl : n' = Forked.shared := by
    have hkey := Ident.beq_iff.1 hn'
    obtain ⟨name, args⟩ := n'
    simpa [Ident.key, Forked.shared] using hkey
  rw [hr, Option.map_some, hd] at hnew
  cases hnew

end Stochastic.World
