import Stochastic.Proofs.World.Ledger
import Stochastic.Proofs.World.Upkeep

/-!
# Reads in vain

A program may ask for a variable that is not there and cannot be generated, and go on without it.
If nothing is created or marked on the way, such an attempt is not in the ledger.  But it has left
its traces: the program of that variable has run until it failed, so what it has read lists it as
a reader, and likewise for whatever it has asked for in vain itself.

All these are names of variables that are not there.  The variables that are there have what they
had, with readers added behind those that they had, and none of them has become a reader.

The ledger tells whether anything was created or marked.  It only grows, so if it is clean at the
end then it was clean all the way.

## Main definitions

* `World.Run.Clean` — a ledger in which nothing has been created or marked.
* `World.Gains` — a world that differs from another only in readers that have been added.
* `World.Run.Futile` — the program of a variable that is not there is running.

## Main results

* `World.clean_of_moves` — a run that ends clean was clean.
* `World.read_there`, `World.read_missing` — a read of a variable that is there, and of one that is
  not.
* `World.gains_execute` — what an execution in vain leaves behind.
-/

namespace Stochastic.World

variable {w w' w'' : World} {r r' r'' : Run} {m : Model} {n k c : Ident} {v v' v'' : Variable}
  {ex : Executor} {depth : Nat} {names : Ident → Prop}

/-! ## Ledgers that stay clean -/

/-- A proposal is being made, and it has neither created nor marked anything. -/
def Run.Clean (r : Run) : Prop := ∃ l, r.ledger = some l ∧ l.created = [] ∧ l.marked = []

theorem not_clean_creating (r : Run) (n : Ident) (v : Variable) : ¬ (r.creating n v).Clean := by
  rintro ⟨l, hl, hc, -⟩
  rw [Run.creating, Run.ledger_mapLedger, Option.map_eq_some_iff] at hl
  obtain ⟨l₀, -, rfl⟩ := hl
  simp at hc

theorem not_clean_marking (r : Run) (n : Ident) : ¬ (r.marking n).Clean := by
  rintro ⟨l, hl, -, hm⟩
  rw [Run.marking, Run.ledger_mapLedger, Option.map_eq_some_iff] at hl
  obtain ⟨l₀, -, rfl⟩ := hl
  simp at hm

theorem clean_of_replace {v' : Variable} (h : (r.replace n v v').Clean) : r.Clean := by
  obtain ⟨l, hl, hc, hm⟩ := h
  rw [Run.ledger_replace, Option.map_eq_some_iff] at hl
  obtain ⟨l₀, hl₀, rfl⟩ := hl
  rw [created_note] at hc
  rw [marked_note] at hm
  exact ⟨l₀, hl₀, hc, hm⟩

theorem clean_of_move (h : Move r r') (hc : r'.Clean) : r.Clean := by
  cases h with
  | relist readers found => exact clean_of_replace hc
  | mark => exact absurd hc (not_clean_marking _ _)
  | create => exact absurd hc (not_clean_creating _ _ _)
  | unmark | draw | write | frames => exact hc

/-- **A run that ends clean was clean all the way.** -/
theorem clean_of_moves (h : Moves r r') (hc : r'.Clean) : r.Clean := by
  induction h with
  | refl => exact hc
  | tail _ hm ih => exact ih (clean_of_move hm hc)

/-! ## Variables that gain readers -/

theorem exists_of_rel {α β : Type} {R : α → β → Prop} {o : Option α} {o' : Option β} {a : α}
    (h : Option.Rel R o o') (ho : o = some a) : ∃ b, o' = some b ∧ R a b := by
  subst ho
  cases h with
  | some hab => exact ⟨_, rfl, hab⟩

theorem rel_mono {α β : Type} {R S : α → β → Prop} {o : Option α} {o' : Option β}
    (hRS : ∀ a b, R a b → S a b) (h : Option.Rel R o o') : Option.Rel S o o' := by
  cases h with
  | none => exact .none
  | some hab => exact .some (hRS _ _ hab)

theorem eq_none_of_rel {α β : Type} {R : α → β → Prop} {o : Option α} {o' : Option β}
    (h : Option.Rel R o o') (ho : o = none) : o' = none := by
  subst ho
  cases h
  rfl

theorem contains_eq_of_known (h : w'.known = w.known) (n : Ident) :
    w'.contains n = w.contains n := by
  have hn := congrArg Option.isSome (congrFun h n)
  rwa [known, known, Option.isSome_map, Option.isSome_map] at hn

/-- No variable is marked. -/
def Unmarked (w : World) : Prop := ∀ n, w.overlay.isMarked n = false

theorem Unmarked.live?_eq (h : w.Unmarked) (n : Ident) : w.live? n = w.lookup? n := by
  rw [live?, h n]
  rfl

/-- A variable is the same but for readers that have been added behind those it had.  Of the names
in question, those that `joins` tells have been added. -/
structure Gained (names : Ident → Prop) (joins : Ident → Bool) (v v' : Variable) : Prop where
  core : v'.core = v.core
  readers : v.children.toList <+: v'.children.toList
  contains : ∀ a, names a → v'.children.contains a = (v.children.contains a || joins a)

namespace Gained

variable {f g : Ident → Bool}

theorem refl (v : Variable) : Gained names (fun _ => false) v v :=
  ⟨rfl, List.prefix_rfl, fun _ _ => (Bool.or_false _).symm⟩

theorem trans (h : Gained names f v v') (h' : Gained names g v' v'') :
    Gained names (fun a => f a || g a) v v'' := by
  refine ⟨h'.core.trans h.core, h.readers.trans h'.readers, fun a ha => ?_⟩
  rw [h'.contains a ha, h.contains a ha, Bool.or_assoc]

theorem congr (h : Gained names f v v') (hfg : ∀ a, names a → f a = g a) :
    Gained names g v v' :=
  ⟨h.core, h.readers, fun a ha => by rw [h.contains a ha, hfg a ha]⟩

/-- Only the readers are others. -/
theorem eq_with (h : Gained names f v v') : v' = { v with children := v'.children } := by
  have hreaders (u : Variable) : { u.core with children := v'.children } =
      { u with children := v'.children } := rfl
  rw [← hreaders v, ← h.core]
  rfl

theorem insert (v : Variable) (c : Ident) :
    Gained names (· == c) v { v with children := v.children.insert c } :=
  ⟨rfl, v.children.prefix_insert c, fun _ _ => OrderedSet.contains_insert ..⟩

/-- A reader that is listed need not be added. -/
theorem of_contains (h : v.children.contains c = true) : Gained names (· == c) v v := by
  have hinsert : Gained names (· == c) v { v with children := v.children.insert c } := .insert v c
  rwa [OrderedSet.insert_of_contains h] at hinsert

end Gained

/-- The variables of both worlds are the same, up to readers that have been added.  Of the names
in question, those that `joins` tells have been added. -/
structure Gains (names : Ident → Prop) (joins : Ident → Ident → Bool) (w w' : World) : Prop where
  gained : ∀ k, Option.Rel (Gained names (joins k)) (w.lookup? k) (w'.lookup? k)
  marks : ∀ k, w'.overlay.isMarked k = w.overlay.isMarked k

namespace Gains

variable {f g : Ident → Ident → Bool}

theorem refl (w : World) : Gains names (fun _ _ => false) w w := by
  refine ⟨fun k => ?_, fun _ => rfl⟩
  cases w.lookup? k with
  | none => exact .none
  | some v => exact .some (.refl v)

theorem exists_gained (h : Gains names f w w') (hv : w.lookup? k = some v) :
    ∃ v', w'.lookup? k = some v' ∧ Gained names (f k) v v' := exists_of_rel (h.gained k) hv

theorem lookup?_eq_none (h : Gains names f w w') (hk : w.lookup? k = none) :
    w'.lookup? k = none := eq_none_of_rel (h.gained k) hk

theorem trans (h : Gains names f w w') (h' : Gains names g w' w'') :
    Gains names (fun k a => f k a || g k a) w w'' := by
  refine ⟨fun k => ?_, fun k => (h'.marks k).trans (h.marks k)⟩
  cases hv : w.lookup? k with
  | none =>
    rw [h'.lookup?_eq_none (h.lookup?_eq_none hv)]
    exact .none
  | some v =>
    obtain ⟨v', hv', hg⟩ := h.exists_gained hv
    obtain ⟨v'', hv'', hg'⟩ := h'.exists_gained hv'
    rw [hv'']
    exact .some (hg.trans hg')

theorem congr (h : Gains names f w w') (hfg : ∀ k a, names a → f k a = g k a) :
    Gains names g w w' :=
  ⟨fun k => rel_mono (fun _ _ hg => hg.congr (hfg k)) (h.gained k), h.marks⟩

theorem known_eq (h : Gains names f w w') : w'.known = w.known := by
  funext k
  rw [known, known]
  cases hv : w.lookup? k with
  | none => rw [h.lookup?_eq_none hv]
  | some v =>
    obtain ⟨v', hv', hg⟩ := h.exists_gained hv
    rw [hv', Option.map_some, Option.map_some, value_of_core hg.core]

theorem unmarked (h : Gains names f w w') (hw : w.Unmarked) : w'.Unmarked :=
  fun k => (h.marks k).trans (hw k)

/-- Only one variable has gained readers. -/
theorem of_one {joins : Ident → Bool} (hv : w.lookup? n = some v) (hg : Gained names joins v v')
    (hl : ∀ k, w'.lookup? k = if n == k then some v' else w.lookup? k)
    (hm : ∀ k, w'.overlay.isMarked k = w.overlay.isMarked k) :
    Gains names (fun k a => n == k && joins a) w w' := by
  refine ⟨fun k => ?_, hm⟩
  rw [hl]
  cases hk : n == k with
  | true =>
    rw [← lookup?_congr w hk, hv]
    exact .some (hg.congr fun a _ => (Bool.true_and _).symm)
  | false => exact (Gains.refl w).gained k

end Gains

/-! ## Reads -/

/-- Connecting a variable that is there adds the reader, unless it is listed already. -/
theorem connect_there (names : Ident → Prop) {f : Frame} {fs : List Frame}
    (hf : r.frames = f :: fs) (hv : r.world.lookup? n = some v) :
    ∃ r', connect n r = .ok () r' ∧ r'.frames = { f with parents := f.parents.insert n } :: fs ∧
      Gains names (fun k a => n == k && a == f.node) r.world r'.world := by
  have hworld : (r.noting n).world = r.world := by rw [Run.noting, hf]
  have hframes : (r.noting n).frames = { f with parents := f.parents.insert n } :: fs := by
    rw [Run.noting, hf]
  rw [connect_eq, hf]
  simp only
  rw [attach_eq, hworld, hv]
  simp only
  by_cases hc : v.children.contains f.node = true
  · rw [if_pos hc]
    refine ⟨_, rfl, hframes, .of_one hv (.of_contains hc) (fun k => ?_) fun k => by rw [hworld]⟩
    rw [hworld]
    split
    · next hk => rw [← lookup?_congr _ hk, hv]
    · rfl
  · rw [if_neg hc]
    refine ⟨_, rfl, (Run.frames_relist ..).trans hframes, .of_one hv (.insert v f.node)
      (fun k => ?_) fun k => ?_⟩
    · rw [lookup?_relist, hworld]
    · rw [isMarked_relist, hworld]

/-- A variable that is there, and not marked, is connected to its reader and returned. -/
theorem read_there (names : Ident → Prop) (m : Model) (ex : Executor) {f : Frame}
    {fs : List Frame} (hf : r.frames = f :: fs) (hu : r.world.Unmarked)
    (hstack : (r.frames.any fun f => f.node == n) = false) (hv : r.world.lookup? n = some v) :
    ∃ r', read m ex n r = .ok v.value r' ∧
      r'.frames = { f with parents := f.parents.insert n } :: fs ∧
      Gains names (fun k a => n == k && a == f.node) r.world r'.world := by
  have hprovide : provide m ex n r = .ok () r := by
    change (ite ((!r.world.contains n) = true) _ _ : Step Unit) r = _
    rw [if_neg (by rw [contains, hv]; exact Bool.false_ne_true),
      if_neg (Bool.eq_false_iff.1 (hu n))]
    rfl
  obtain ⟨r₁, hconnect, hframes, hgains⟩ := connect_there names hf hv
  obtain ⟨v₁, hv₁, hg⟩ := hgains.exists_gained hv
  refine ⟨r₁, ?_, hframes, hgains⟩
  change (ite ((r.frames.any fun f => f.node == n) = true) _ _ : Step (Tensor Float)) r = _
  rw [if_neg (Bool.eq_false_iff.1 hstack), ← value_of_core hg.core]
  refine Step.bind_eq_ok.2 ⟨(), r, hprovide, Step.bind_eq_ok.2 ⟨(), r₁, hconnect, ?_⟩⟩
  exact Step.bind_eq_ok.2 ⟨v₁, r₁, Step.lookup_eq_ok.2 ⟨rfl, hv₁⟩, rfl⟩

/-- A program that reads a variable that is being generated is told so, and nothing changes. -/
theorem read_running (m : Model) (ex : Executor)
    (hstack : (r.frames.any fun f => f.node == n) = true) :
    read m ex n r = .error (.cyclic n) r := by
  change (ite ((r.frames.any fun f => f.node == n) = true) _ _ : Step (Tensor Float)) r = _
  rw [if_pos hstack]
  rfl

/-- A read of a variable that is not there fails if the run stays clean, and does no more than to
execute its program. -/
theorem read_missing (hstack : (r.frames.any fun f => f.node == n) = false)
    (hn : r.world.lookup? n = none) (hclean : ((read m ex n).after r).Clean) :
    ∃ e, read m ex n r = .error e ((ex n).after r) := by
  have hread : read m ex n r = (create m ex n >>= fun _ => connect n >>= fun _ =>
      lookup n >>= fun v => pure v.value : Step (Tensor Float)) r := by
    change (ite ((r.frames.any fun f => f.node == n) = true) _ _ : Step (Tensor Float)) r = _
    rw [if_neg (Bool.eq_false_iff.1 hstack)]
    change ((ite ((!r.world.contains n) = true) _ _ : Step Unit) >>= _ : Step (Tensor Float)) r = _
    rw [if_pos (by rw [contains, hn]; rfl)]
  cases hc : create m ex n r with
  | error e r' =>
    refine ⟨e, ?_⟩
    rw [hread, create_eq_error hc]
    exact Step.bind_eq_error.2 (.inl hc)
  | ok u r₁ =>
    -- the variable has been created, and what comes next cannot hide it
    obtain ⟨d, parents, r₂, value, r₃, -, -, hr₁⟩ := create_eq_ok.1 hc
    have hrest : Progress r₁ ((read m ex n).after r) := by
      rw [Step.after, hread, ← Step.after, Step.after_bind_of_ok hc]
      refine Step.after_bind (R := Progress) Progress.trans (progress_connect n r₁) fun _ r₄ _ => ?_
      refine Step.after_bind (R := Progress) Progress.trans ?_ fun _ r₅ _ => Progress.refl r₅
      rw [Step.after_lookup]
      exact Progress.refl r₄
    exact absurd (hr₁ ▸ clean_of_moves hrest.moves hclean) (not_clean_creating _ _ _)

/-! ## Executions in vain -/

/-- The innermost program that runs is that of `c`, which is not there; the names in question are
names of variables that are. -/
structure Run.Futile (names : Ident → Prop) (c : Ident) (r : Run) : Prop where
  running : ∃ cs, r.running = c :: cs
  absent : r.world.lookup? c = none
  there : ∀ a, names a → r.world.contains a = true
  unmarked : r.world.Unmarked

/-- If the run is clean in the end it was so before, and a program that runs in vain has added no
reader in question. -/
def Fruitless (names : Ident → Prop) (c : Ident) (r r' : Run) : Prop :=
  r'.Clean → r.Clean ∧
    (r.Futile names c → r'.Futile names c ∧ Gains names (fun _ _ => false) r.world r'.world)

theorem Fruitless.refl (r : Run) : Fruitless names c r r :=
  fun hclean => ⟨hclean, fun h => ⟨h, .refl _⟩⟩

theorem Fruitless.trans (h : Fruitless names c r r') (h' : Fruitless names c r' r'') :
    Fruitless names c r r'' := by
  intro hclean
  obtain ⟨hclean', hnext⟩ := h' hclean
  obtain ⟨hclean₀, hfirst⟩ := h hclean'
  refine ⟨hclean₀, fun hr => ?_⟩
  obtain ⟨hr', hgains⟩ := hfirst hr
  obtain ⟨hr'', hgains'⟩ := hnext hr'
  exact ⟨hr'', (hgains.trans hgains').congr fun _ _ _ => rfl⟩

/-- Executing the program of a variable that is not there adds no reader that is. -/
def FruitlessWithin (m : Model) (depth : Nat) : Prop :=
  ∀ {names : Ident → Prop} {n : Ident} {r : Run}, r.world.Unmarked → r.world.lookup? n = none →
    (∀ a, names a → r.world.contains a = true) → ((execute m depth n).after r).Clean →
    Gains names (fun _ _ => false) r.world ((execute m depth n).after r).world

theorem gains_read (hex : FruitlessWithin m depth) (h : r.Futile names c)
    (hclean : ((read m (execute m depth) n).after r).Clean) :
    Gains names (fun _ _ => false) r.world ((read m (execute m depth) n).after r).world := by
  cases hstack : r.frames.any fun f => f.node == n with
  | true =>
    rw [Step.after, read_running m _ hstack]
    exact .refl _
  | false =>
    cases hn : r.world.lookup? n with
    | none =>
      obtain ⟨e, hread⟩ := read_missing hstack hn hclean
      have hafter : (read m (execute m depth) n).after r = (execute m depth n).after r := by
        rw [Step.after, hread]
        rfl
      rw [hafter] at hclean ⊢
      exact hex h.unmarked hn h.there hclean
    | some v =>
      obtain ⟨cs, hcs⟩ := h.running
      obtain ⟨f, fs, hf, rfl, -⟩ := List.map_eq_cons_iff.1 hcs
      obtain ⟨r₁, hread, -, hgains⟩ :=
        read_there names m (execute m depth) hf h.unmarked hstack hn
      rw [Step.after_eq_of_ok hread]
      -- the program itself is none of those in question, since its variable is not there
      refine hgains.congr fun k a ha => ?_
      have hne : (a == f.node) = false := Bool.eq_false_iff.2 fun haf => by
        have hthere := h.there a ha
        rw [contains, lookup?_congr _ haf, h.absent] at hthere
        cases hthere
      rw [hne, Bool.and_false]

theorem fruitless_read (hex : FruitlessWithin m depth) (n : Ident) (r : Run) :
    Fruitless names c r ((read m (execute m depth) n).after r) := by
  intro hclean
  have hprogress := progress_read (m := m) (execute_proceeds m depth) n r
  refine ⟨clean_of_moves hprogress.moves hclean, fun h => ?_⟩
  have hgains := gains_read hex h hclean
  refine ⟨⟨?_, hgains.lookup?_eq_none h.absent, fun a ha => ?_, hgains.unmarked h.unmarked⟩, hgains⟩
  · rw [hprogress.running]
    exact h.running
  · rw [contains_eq_of_known hgains.known_eq]
    exact h.there a ha

theorem fruitless_run (hex : FruitlessWithin m depth) {α : Type} (program : Program α) (r : Run) :
    Fruitless names c r
      ((program.run (fun p => (read m (execute m depth) p).attempt) throw).after r) := by
  induction program generalizing r with
  | done a => exact .refl r
  | fail e => exact .refl r
  | ask n next ih =>
    refine Step.after_bind (R := Fruitless names c) Fruitless.trans ?_ fun a r₁ _ => ih a r₁
    rw [Step.after_attempt]
    exact fruitless_read hex n r

/-- **What an execution in vain leaves behind.**  If nothing is created or marked, then executing
the program of a variable that is not there has added only readers that are not there either. -/
theorem gains_execute (m : Model) (depth : Nat) : FruitlessWithin m depth := by
  induction depth with
  | zero => exact fun _ _ _ _ => .refl _
  | succ depth ih =>
    intro names n r hu hn hthere hclean
    rw [execute, after_withFrame] at hclean ⊢
    have hfutile : Run.Futile names n { r with frames := ⟨n, .empty⟩ :: r.frames } :=
      ⟨⟨_, rfl⟩, hn, hthere, hu⟩
    exact ((fruitless_run ih (m.program n) _ hclean).2 hfutile).2

end Stochastic.World
