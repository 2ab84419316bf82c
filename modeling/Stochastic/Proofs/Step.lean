/-!
# Steps that succeed and steps that fail

A step changes a state and either succeeds or fails.  Facts about success are proved by
taking a successful step apart: if one step after another succeeds, then the first one does
and the second one does where the first one ends.  A step that fails leaves a state as well: a
sequence fails because the first step does, or because the second one does where the first one
ends.

## Main definitions

* `Step.Leaves` — a step leaves a state, whether it succeeds or fails.
* `Step.Decided` — a step fails exactly if there is something to complain about.

## Main results

* `Step.bind_eq_ok`, `Step.bind_eq_error` — a sequence that succeeds or fails, taken apart.
* `Step.forM_cons_eq_ok`, `Step.mapM_cons_eq_ok` — the same for a step that is done for every
  member of a list.
* `Step.forM_relates`, `Step.mapM_relates` — what leads through each member leads through all.
* `Step.decided_forM` — such a step fails with the first complaint about a member.
-/

namespace Stochastic.Step

variable {ε σ α β : Type} {s s' : σ}

theorem bind_eq_ok {x : EStateM ε σ α} {f : α → EStateM ε σ β} {b : β} :
    (x >>= f) s = .ok b s' ↔ ∃ a s₁, x s = .ok a s₁ ∧ f a s₁ = .ok b s' := by
  change EStateM.bind x f s = _ ↔ _
  unfold EStateM.bind
  cases hx : x s with
  | ok a s₁ =>
    constructor
    · intro h
      exact ⟨a, s₁, rfl, h⟩
    · rintro ⟨a', s₂, h₁, h₂⟩
      cases h₁
      exact h₂
  | error e s₁ =>
    constructor
    · intro h
      cases h
    · rintro ⟨a', s₂, h₁, -⟩
      cases h₁

theorem pure_eq_ok {a b : α} : (pure a : EStateM ε σ α) s = .ok b s' ↔ a = b ∧ s = s' := by
  constructor
  · intro h
    cases h
    exact ⟨rfl, rfl⟩
  · rintro ⟨rfl, rfl⟩
    rfl

theorem get_eq_ok {t : σ} : (get : EStateM ε σ σ) s = .ok t s' ↔ t = s ∧ s = s' := by
  constructor
  · intro h
    cases h
    exact ⟨rfl, rfl⟩
  · rintro ⟨rfl, rfl⟩
    rfl

theorem get_bind {f : σ → EStateM ε σ β} : (get >>= f) s = f s s := rfl

theorem modify_eq_ok {f : σ → σ} {u : Unit} :
    (modify f : EStateM ε σ Unit) s = .ok u s' ↔ s' = f s := by
  constructor
  · intro h
    cases h
    rfl
  · rintro rfl
    rfl

theorem throw_ne_ok {e : ε} {a : α} : ¬ (throw e : EStateM ε σ α) s = .ok a s' := by
  intro h
  cases h

/-- A step for every member of a list, taken apart at the first one. -/
theorem forM_cons_eq_ok {f : β → EStateM ε σ Unit} {b : β} {bs : List β} {u : Unit} :
    ((b :: bs).forM f : EStateM ε σ Unit) s = .ok u s' ↔
      ∃ s₁, f b s = .ok () s₁ ∧ (bs.forM f : EStateM ε σ Unit) s₁ = .ok () s' := by
  change (f b >>= fun _ => bs.forM f : EStateM ε σ Unit) s = _ ↔ _
  rw [bind_eq_ok]
  constructor
  · rintro ⟨⟨⟩, s₁, h₁, h₂⟩
    exact ⟨s₁, h₁, h₂⟩
  · rintro ⟨s₁, h₁, h₂⟩
    exact ⟨(), s₁, h₁, h₂⟩

theorem forM_nil_eq_ok {f : β → EStateM ε σ Unit} {u : Unit} :
    (([] : List β).forM f : EStateM ε σ Unit) s = .ok u s' ↔ s' = s := by
  change (pure () : EStateM ε σ Unit) s = _ ↔ _
  rw [pure_eq_ok]
  exact ⟨fun h => h.2.symm, fun h => ⟨rfl, h.symm⟩⟩

/-- If the step changes nothing for any member, then nothing changes. -/
theorem forM_eq_ok_self {f : β → EStateM ε σ Unit} {bs : List β}
    (h : ∀ b ∈ bs, f b s = .ok () s) : (bs.forM f : EStateM ε σ Unit) s = .ok () s := by
  induction bs with
  | nil => rfl
  | cons b bs ih =>
    obtain ⟨hb, hbs⟩ := List.forall_mem_cons.1 h
    exact forM_cons_eq_ok.2 ⟨s, hb, ih hbs⟩

/-- A step for every member of a list with a result for each, taken apart at the first one. -/
theorem mapM_cons_eq_ok {f : α → EStateM ε σ β} {a : α} {as : List α} {bs : List β} :
    ((a :: as).mapM f : EStateM ε σ (List β)) s = .ok bs s' ↔
      ∃ b bs' s₁, f a s = .ok b s₁ ∧ (as.mapM f : EStateM ε σ (List β)) s₁ = .ok bs' s' ∧
        bs = b :: bs' := by
  rw [List.mapM_cons]
  simp only [bind_eq_ok, pure_eq_ok]
  constructor
  · rintro ⟨b, s₁, h₁, bs', s₂, h₂, rfl, rfl⟩
    exact ⟨b, bs', s₁, h₁, h₂, rfl⟩
  · rintro ⟨b, bs', s₁, h₁, h₂, rfl⟩
    exact ⟨b, s₁, h₁, bs', s', h₂, rfl, rfl⟩

theorem mapM_nil_eq_ok {f : α → EStateM ε σ β} {bs : List β} :
    (([] : List α).mapM f : EStateM ε σ (List β)) s = .ok bs s' ↔ bs = [] ∧ s' = s := by
  rw [List.mapM_nil, pure_eq_ok]
  exact ⟨fun h => ⟨h.1.symm, h.2.symm⟩, fun h => ⟨h.1.symm, h.2.symm⟩⟩

section Relates

variable {R : σ → σ → Prop} (refl : ∀ s, R s s) (trans : ∀ {a b c}, R a b → R b c → R a c)

include refl trans

/-- A reflexive and transitive relation leads through a step for every member of a list that
succeeds, if it leads through each of them that succeeds. -/
theorem forM_relates {f : β → EStateM ε σ Unit} {bs : List β}
    (hf : ∀ b ∈ bs, ∀ {s s'}, f b s = .ok () s' → R s s')
    (h : (bs.forM f : EStateM ε σ Unit) s = .ok () s') : R s s' := by
  induction bs generalizing s with
  | nil =>
    obtain rfl := forM_nil_eq_ok.1 h
    exact refl s'
  | cons b bs ih =>
    obtain ⟨hb, hbs⟩ := List.forall_mem_cons.1 hf
    obtain ⟨s₁, h₁, h₂⟩ := forM_cons_eq_ok.1 h
    exact trans (hb h₁) (ih hbs h₂)

/-- The same for a step with a result for each member. -/
theorem mapM_relates {f : α → EStateM ε σ β} {as : List α} {bs : List β}
    (hf : ∀ a ∈ as, ∀ {b s s'}, f a s = .ok b s' → R s s')
    (h : (as.mapM f : EStateM ε σ (List β)) s = .ok bs s') : R s s' := by
  induction as generalizing s bs with
  | nil =>
    obtain ⟨-, rfl⟩ := mapM_nil_eq_ok.1 h
    exact refl s'
  | cons a as ih =>
    obtain ⟨ha, has⟩ := List.forall_mem_cons.1 hf
    obtain ⟨b, bs', s₁, h₁, h₂, -⟩ := mapM_cons_eq_ok.1 h
    exact trans (ha h₁) (ih has h₂)

end Relates

/-! ## Steps that fail -/

theorem bind_eq_error {x : EStateM ε σ α} {f : α → EStateM ε σ β} {e : ε} :
    (x >>= f) s = .error e s' ↔
      x s = .error e s' ∨ ∃ a s₁, x s = .ok a s₁ ∧ f a s₁ = .error e s' := by
  change EStateM.bind x f s = _ ↔ _
  unfold EStateM.bind
  cases hx : x s with
  | ok a s₁ =>
    constructor
    · intro h
      exact .inr ⟨a, s₁, rfl, h⟩
    · rintro (h | ⟨a', s₂, h₁, h₂⟩)
      · cases h
      · cases h₁
        exact h₂
  | error e' s₁ =>
    constructor
    · intro h
      cases h
      exact .inl rfl
    · rintro (h | ⟨a', s₂, h₁, -⟩)
      · cases h
        rfl
      · cases h₁

theorem throw_eq_error {e e' : ε} :
    (throw e : EStateM ε σ α) s = .error e' s' ↔ e = e' ∧ s = s' := by
  constructor
  · intro h
    cases h
    exact ⟨rfl, rfl⟩
  · rintro ⟨rfl, rfl⟩
    rfl

theorem forM_cons_eq_error {f : β → EStateM ε σ Unit} {b : β} {bs : List β} {e : ε} :
    ((b :: bs).forM f : EStateM ε σ Unit) s = .error e s' ↔ f b s = .error e s' ∨
      ∃ s₁, f b s = .ok () s₁ ∧ (bs.forM f : EStateM ε σ Unit) s₁ = .error e s' := by
  change (f b >>= fun _ => bs.forM f : EStateM ε σ Unit) s = _ ↔ _
  rw [bind_eq_error]
  constructor
  · rintro (h | ⟨⟨⟩, s₁, h₁, h₂⟩)
    · exact .inl h
    · exact .inr ⟨s₁, h₁, h₂⟩
  · rintro (h | ⟨s₁, h₁, h₂⟩)
    · exact .inl h
    · exact .inr ⟨(), s₁, h₁, h₂⟩

/-! ## Steps that end -/

/-- A step leaves a state, whether it succeeds or fails. -/
def Leaves (x : EStateM ε σ α) (s s' : σ) : Prop :=
  (∃ a, x s = .ok a s') ∨ ∃ e, x s = .error e s'

/-- A step for every member of a list ends where it fails for the first one, or goes on for the
others. -/
theorem leaves_forM_cons {f : β → EStateM ε σ Unit} {b : β} {bs : List β}
    (h : Leaves ((b :: bs).forM f : EStateM ε σ Unit) s s') :
    (∃ e, f b s = .error e s') ∨
      ∃ s₁, f b s = .ok () s₁ ∧ Leaves (bs.forM f : EStateM ε σ Unit) s₁ s' := by
  rcases h with ⟨u, h⟩ | ⟨e, h⟩
  · obtain ⟨s₁, h₁, h₂⟩ := forM_cons_eq_ok.1 h
    exact .inr ⟨s₁, h₁, .inl ⟨(), h₂⟩⟩
  · rcases forM_cons_eq_error.1 h with h₁ | ⟨s₁, h₁, h₂⟩
    · exact .inl ⟨e, h₁⟩
    · exact .inr ⟨s₁, h₁, .inr ⟨e, h₂⟩⟩

theorem leaves_forM_nil {f : β → EStateM ε σ Unit}
    (h : Leaves (([] : List β).forM f : EStateM ε σ Unit) s s') : s' = s := by
  rcases h with ⟨u, h⟩ | ⟨e, h⟩ <;> cases h
  rfl

/-! ## Steps that are decided -/

/-- What becomes of a step is known: it fails with a complaint, or there is none and it succeeds
with `P`. -/
def Decided (x : EStateM ε σ Unit) (s : σ) (P : σ → Prop) : Option ε → Prop
  | none => ∃ s', x s = .ok () s' ∧ P s'
  | some e => ∃ s', x s = .error e s'

theorem Decided.congr {x y : EStateM ε σ Unit} {P : σ → Prop} {complaint : Option ε}
    (h : Decided x s P complaint) (hxy : y s = x s) : Decided y s P complaint := by
  cases complaint with
  | none =>
    obtain ⟨s', hs', hP⟩ := h
    exact ⟨s', hxy.trans hs', hP⟩
  | some e =>
    obtain ⟨s', hs'⟩ := h
    exact ⟨s', hxy.trans hs'⟩

theorem Decided.imp {x : EStateM ε σ Unit} {P Q : σ → Prop} {complaint : Option ε}
    (h : Decided x s P complaint) (hPQ : ∀ s', P s' → Q s') : Decided x s Q complaint := by
  cases complaint with
  | none =>
    obtain ⟨s', hs', hP⟩ := h
    exact ⟨s', hs', hPQ s' hP⟩
  | some e => exact h

/-- If the step for each member is decided while `P` holds of what is left of the list, then the
first complaint decides. -/
theorem decided_forM {f : β → EStateM ε σ Unit} {P : List β → σ → Prop}
    {complaint : β → Option ε}
    (hstep : ∀ b bs s, P (b :: bs) s → Decided (f b) s (P bs) (complaint b)) (bs : List β)
    (hs : P bs s) :
    Decided (bs.forM f : EStateM ε σ Unit) s (P []) (bs.findSome? complaint) := by
  induction bs generalizing s with
  | nil => exact ⟨s, rfl, hs⟩
  | cons b bs ih =>
    have hfirst := hstep b bs s hs
    rw [List.findSome?_cons]
    cases hb : complaint b with
    | some e =>
      rw [hb] at hfirst
      obtain ⟨s', hs'⟩ := hfirst
      exact ⟨s', forM_cons_eq_error.2 (.inl hs')⟩
    | none =>
      rw [hb] at hfirst
      obtain ⟨s₁, hs₁, hP⟩ := hfirst
      have hrest := ih hP
      dsimp only
      cases hbs : bs.findSome? complaint with
      | some e =>
        rw [hbs] at hrest
        obtain ⟨s', hs'⟩ := hrest
        exact ⟨s', forM_cons_eq_error.2 (.inr ⟨s₁, hs₁, hs'⟩)⟩
      | none =>
        rw [hbs] at hrest
        obtain ⟨s', hs', hP'⟩ := hrest
        exact ⟨s', forM_cons_eq_ok.2 ⟨s₁, hs₁, hs'⟩, hP'⟩

end Stochastic.Step
