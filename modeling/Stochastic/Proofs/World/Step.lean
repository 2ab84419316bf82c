import Stochastic.Proofs.Step
import Stochastic.World.Propose

/-!
# The state that a step leaves

A step on worlds leaves a state whether it succeeds or fails.  Facts about all ends are
proved of that state, `Step.after`, and are put together by transitivity.

## Main definitions

* `World.Step.after` — the state that a step leaves.

## Main results

* `World.Step.after_bind` — what holds of a sequence if it holds of its parts.
* `World.Step.after_forM` — the same for a step that is done for every member of a list.
-/

namespace Stochastic.World

namespace Step

variable {α β : Type} {r r' : Run}

/-! ## Steps that succeed -/

/-- Looking up a variable finds it, and changes nothing. -/
theorem lookup_eq_ok {n : Ident} {v : Variable} :
    lookup n r = .ok v r' ↔ r = r' ∧ r.world.lookup? n = some v := by
  unfold lookup find
  cases r.world.lookup? n with
  | none => simp
  | some v' =>
    simp only [EStateM.Result.ok.injEq, Option.some.injEq]
    exact and_comm

/-- What an attempt comes to is the end of the step that was attempted. -/
theorem attempt_eq_ok {x : Step α} {a : Except Error α} (h : x.attempt r = .ok a r') :
    (∃ b, a = .ok b ∧ x r = .ok b r') ∨ ∃ e, a = .error e := by
  unfold attempt at h
  cases hx : x r with
  | ok b r₁ =>
    rw [hx] at h
    cases h
    exact .inl ⟨b, rfl, rfl⟩
  | error e r₁ =>
    rw [hx] at h
    cases h
    exact .inr ⟨e, rfl⟩

/-- A call that succeeds is a step that succeeds. -/
theorem reply_eq_ok {x : Step α} {w : World} {a : α} (h : (x.reply w).result = .ok a) :
    ∃ r', x { world := w } = .ok a r' ∧ (x.reply w).state = r'.world := by
  unfold reply at h ⊢
  cases hx : x { world := w } with
  | ok b r' =>
    rw [hx] at h
    cases h
    exact ⟨r', rfl, rfl⟩
  | error e r' =>
    rw [hx] at h
    cases h

/-- A call that fails is a step that fails. -/
theorem reply_eq_error {x : Step α} {w : World} {e : Error} (h : (x.reply w).result = .error e) :
    ∃ r', x { world := w } = .error e r' ∧ (x.reply w).state = r'.world := by
  unfold reply at h ⊢
  cases hx : x { world := w } with
  | ok b r' =>
    rw [hx] at h
    cases h
  | error e' r' =>
    rw [hx] at h
    cases h
    exact ⟨r', rfl, rfl⟩

/-! ## The state that a step leaves -/

/-- The state with which a step ends, whether it succeeds or not. -/
def final : EStateM.Result Error Run α → Run
  | .ok _ r => r
  | .error _ r => r

/-- The state that a step leaves. -/
def after (x : Step α) (r : Run) : Run := final (x r)

theorem after_eq_of_ok {x : Step α} {a : α} (h : x r = .ok a r') : x.after r = r' := by
  rw [after, h]
  rfl

@[simp] theorem after_pure (a : α) : (pure a : Step α).after r = r := rfl

@[simp] theorem after_get : (get : Step Run).after r = r := rfl

@[simp] theorem after_throw (e : Error) : (throw e : Step α).after r = r := rfl

@[simp] theorem after_modify (f : Run → Run) : (modify f : Step Unit).after r = f r := rfl

@[simp] theorem after_write (level : Level) (message : String) :
    (write level message).after r = r.write ⟨level, message⟩ := rfl

@[simp] theorem after_lookup (n : Ident) : (lookup n).after r = r := by
  unfold after lookup
  cases r.world.find n <;> rfl

@[simp] theorem after_attempt (x : Step α) : x.attempt.after r = x.after r := by
  unfold after attempt
  cases x r <;> rfl

theorem after_bind_of_ok {x : Step α} {f : α → Step β} {a : α} (h : x r = .ok a r') :
    (x >>= f).after r = (f a).after r' := by
  change final (EStateM.bind x f r) = _
  unfold EStateM.bind
  rw [h]
  rfl

variable {R : Run → Run → Prop}

/-- A transitive relation leads through a sequence if it leads through the first step, and
through the second one wherever the first one succeeds. -/
theorem after_bind (trans : ∀ {a b c}, R a b → R b c → R a c) {x : Step α} {f : α → Step β}
    (hx : R r (x.after r)) (hf : ∀ a r₁, x r = .ok a r₁ → R r₁ ((f a).after r₁)) :
    R r ((x >>= f).after r) := by
  have hb : (x >>= f).after r = match x r with
      | .ok a r₁ => (f a).after r₁
      | .error _ r₁ => r₁ := by
    change final (EStateM.bind x f r) = _
    unfold EStateM.bind
    cases x r <;> rfl
  rw [hb]
  unfold after at hx
  cases h : x r with
  | ok a r₁ =>
    rw [h] at hx
    exact trans hx (hf a r₁ h)
  | error e r₁ =>
    rw [h] at hx
    exact hx

/-- A transitive and reflexive relation leads through a step for every member of a list if it
leads through each of them. -/
theorem after_forM (refl : ∀ a, R a a) (trans : ∀ {a b c}, R a b → R b c → R a c)
    {f : β → Step Unit} {bs : List β} (hf : ∀ b r, R r ((f b).after r)) (r : Run) :
    R r ((bs.forM f : Step Unit).after r) := by
  induction bs generalizing r with
  | nil => exact refl r
  | cons b bs ih =>
    change R r (Step.after (f b >>= fun _ => bs.forM f) r)
    exact after_bind (R := R) trans (hf b r) fun _ r₁ _ => ih r₁

/-- The same for a step with a result for each member. -/
theorem after_mapM (refl : ∀ a, R a a) (trans : ∀ {a b c}, R a b → R b c → R a c)
    {f : α → Step β} {as : List α} (hf : ∀ a ∈ as, ∀ r, R r ((f a).after r)) (r : Run) :
    R r ((as.mapM f : Step (List β)).after r) := by
  induction as generalizing r with
  | nil => exact refl r
  | cons a as ih =>
    obtain ⟨ha, has⟩ := List.forall_mem_cons.1 hf
    rw [List.mapM_cons]
    refine after_bind (R := R) trans (ha r) fun _ r₁ _ => ?_
    exact after_bind (R := R) trans (ih has r₁) fun _ r₂ _ => refl r₂

/-- A step for every member of a list succeeds if it succeeds for each of them wherever the steps
before lead. -/
theorem exists_forM {f : β → Step Unit} {bs : List β} {P : Run → Prop}
    (hf : ∀ b ∈ bs, ∀ r, P r → ∃ r', f b r = .ok () r' ∧ P r') (hr : P r) :
    ∃ r', (bs.forM f : Step Unit) r = .ok () r' := by
  induction bs generalizing r with
  | nil => exact ⟨r, rfl⟩
  | cons b bs ih =>
    obtain ⟨hb, hbs⟩ := List.forall_mem_cons.1 hf
    obtain ⟨r₁, h₁, hr₁⟩ := hb r hr
    obtain ⟨r', h'⟩ := ih hbs hr₁
    exact ⟨r', Step.forM_cons_eq_ok.2 ⟨r₁, h₁, h'⟩⟩

end Step

end Stochastic.World
