import Stochastic.Proofs.World.Execution

/-!
# Plain recursive evaluation

What a variable comes to can be said without a world: its program is run, and whatever it reads
is evaluated in the same way, once more each time it is read.  The value is the observed one if
there is one, and else the one that is drawn; for this to make sense, draws must depend on the
distribution only.  The recursion need not end, so it is given a depth; a result is the same at
any greater depth.

Identifiers are compared by `==`, which does not see how arguments are spelled, while a program
may look at the spelling.  Evaluation keeps the two apart.  Which identifiers come up when some
variables are evaluated is `Model.Occurs`; a model is deterministic if those of them that are
equal have the same program.

## Main definitions

* `Model.evaluate`, `Model.Evaluates` — plain recursive evaluation, to a depth and to any depth.
* `Model.Comes` — what a program reads and comes to, if each read is evaluated.
* `Model.Asks`, `Model.Occurs` — what a program asks for, and what comes up in the end.
* `Model.Deterministic` — equal identifiers that come up have the same program.

## Main results

* `Model.evaluates_iff` — evaluating a variable is running its program and settling its value.
* `Model.comes_ask_iff` — a program that reads, one read at a time.
* `Model.Evaluates.unique` — there is one evaluation at most.
-/

namespace Stochastic

/-- What a variable comes to. -/
structure Evaluation where
  value : Tensor Float
  distribution : Distribution
  /-- What its program has read, in order, and as often as it was read. -/
  reads : List Ident

/-- A sampler whose draws depend on the distribution only, not on the draws before. -/
def Sampler.Forced (s : Sampler) : Prop := ∀ before d, s before d = s 0 d

theorem Sampler.Forced.draw?_eq {m : Model} (h : m.sampler.Forced) (before : Nat)
    (d : Distribution) : m.draw? before d = m.draw? 0 d := by
  rw [Model.draw?, Model.draw?, draw?, draw?, h before d]

namespace Model

variable {m : Model} {observed : Table Ident (Tensor Float)} {depth depth' : Nat}
  {n n' p : Ident} {e e' : Evaluation} {α : Type} {program : Program α} {reads : List Ident} {a : α}

/-- The value of a variable with a known distribution: the observed one, or else a draw. -/
def settled? (m : Model) (observed : Table Ident (Tensor Float)) (n : Ident) (d : Distribution) :
    Option (Tensor Float) :=
  (observed.get? n).or (m.draw? 0 d).toOption

/-- Plain recursive evaluation, with at most `depth` programs nested: the program is run, every
read is evaluated, and the value is settled. -/
def evaluate (m : Model) (observed : Table Ident (Tensor Float)) :
    (depth : Nat) → Ident → Option Evaluation
  | 0, _ => none
  | depth + 1, n => do
    let (reads, distribution) ←
      (m.program n).against fun p => (m.evaluate observed depth p).map Evaluation.value
    let value ← m.settled? observed n distribution
    return { value, distribution, reads }

/-- The values that variables evaluate to within a depth. -/
def values (m : Model) (observed : Table Ident (Tensor Float)) (depth : Nat) (p : Ident) :
    Option (Tensor Float) :=
  (m.evaluate observed depth p).map Evaluation.value

/-- Plain recursive evaluation of a variable ends with a result. -/
def Evaluates (m : Model) (observed : Table Ident (Tensor Float)) (n : Ident) (e : Evaluation) :
    Prop :=
  ∃ depth, m.evaluate observed depth n = some e

/-- A program reads the given variables and comes to a result, if each read is evaluated. -/
def Comes (m : Model) (observed : Table Ident (Tensor Float)) (program : Program α)
    (reads : List Ident) (a : α) : Prop :=
  ∃ depth, program.against (m.values observed depth) = some (reads, a)

theorem evaluate_succ_eq_some : m.evaluate observed (depth + 1) n = some e ↔
    (m.program n).against (m.values observed depth) = some (e.reads, e.distribution) ∧
      m.settled? observed n e.distribution = some e.value := by
  rw [evaluate]
  constructor
  · intro h
    obtain ⟨⟨reads, d⟩, hprogram, h⟩ := Option.bind_eq_some_iff.1 h
    obtain ⟨value, hvalue, h⟩ := Option.bind_eq_some_iff.1 h
    cases h
    exact ⟨hprogram, hvalue⟩
  · rintro ⟨hprogram, hvalue⟩
    refine Option.bind_eq_some_iff.2 ⟨(e.reads, e.distribution), hprogram, ?_⟩
    exact Option.bind_eq_some_iff.2 ⟨e.value, hvalue, rfl⟩

/-- Evaluating a variable is running its program and settling its value. -/
theorem evaluates_iff : m.Evaluates observed n e ↔
    m.Comes observed (m.program n) e.reads e.distribution ∧
      m.settled? observed n e.distribution = some e.value := by
  constructor
  · rintro ⟨depth, h⟩
    cases depth with
    | zero => cases h
    | succ depth =>
      obtain ⟨hprogram, hvalue⟩ := evaluate_succ_eq_some.1 h
      exact ⟨⟨depth, hprogram⟩, hvalue⟩
  · rintro ⟨⟨depth, hprogram⟩, hvalue⟩
    exact ⟨depth + 1, evaluate_succ_eq_some.2 ⟨hprogram, hvalue⟩⟩

/-! ## More depth -/

theorem against_values_mono
    (hle : ∀ {p e}, m.evaluate observed depth p = some e → m.evaluate observed depth' p = some e)
    (h : program.against (m.values observed depth) = some (reads, a)) :
    program.against (m.values observed depth') = some (reads, a) := by
  -- only what is read matters, and that has a value already
  refine Program.against_congr h fun p hp => ?_
  obtain ⟨x, hx⟩ := Program.exists_value_of_against h hp
  obtain ⟨e, he, rfl⟩ := Option.map_eq_some_iff.1 hx
  rw [hx, values, hle he, Option.map_some]

theorem evaluate_succ_of_some (h : m.evaluate observed depth n = some e) :
    m.evaluate observed (depth + 1) n = some e := by
  induction depth generalizing n e with
  | zero => cases h
  | succ depth ih =>
    obtain ⟨hprogram, hvalue⟩ := evaluate_succ_eq_some.1 h
    exact evaluate_succ_eq_some.2 ⟨against_values_mono ih hprogram, hvalue⟩

/-- A result is the same at any greater depth. -/
theorem evaluate_mono (hle : depth ≤ depth') (h : m.evaluate observed depth n = some e) :
    m.evaluate observed depth' n = some e := by
  induction hle with
  | refl => exact h
  | step _ ih => exact evaluate_succ_of_some ih

/-- **There is one evaluation at most.** -/
theorem Evaluates.unique (h : m.Evaluates observed n e) (h' : m.Evaluates observed n e') :
    e' = e := by
  obtain ⟨depth, h⟩ := h
  obtain ⟨depth', h'⟩ := h'
  have h := evaluate_mono (Nat.le_max_left depth depth') h
  have h' := evaluate_mono (Nat.le_max_right depth depth') h'
  exact Option.some.inj (h'.symm.trans h)

/-- Equal identifiers with the same program evaluate to the same. -/
theorem Evaluates.congr (h : m.Evaluates observed n e) (hn : (n == n') = true)
    (hp : m.program n = m.program n') : m.Evaluates observed n' e := by
  obtain ⟨hprogram, hvalue⟩ := evaluates_iff.1 h
  refine evaluates_iff.2 ⟨hp ▸ hprogram, ?_⟩
  rwa [settled?, ← Table.get?_congr _ hn]

/-! ## One read at a time -/

theorem comes_done (a : α) : m.Comes observed (.done a) [] a := ⟨0, rfl⟩

/-- A program that reads comes to what is left of it comes to, once the read is evaluated. -/
theorem comes_ask_iff {next : Except World.Error (Tensor Float) → Program α} :
    m.Comes observed (.ask n next) reads a ↔ ∃ e reads', m.Evaluates observed n e ∧
      m.Comes observed (next (.ok e.value)) reads' a ∧ reads = n :: reads' := by
  constructor
  · rintro ⟨depth, h⟩
    rw [Program.against] at h
    cases hn : m.values observed depth n with
    | none =>
      rw [hn] at h
      cases h
    | some x =>
      rw [hn] at h
      obtain ⟨⟨reads', b⟩, hrest, heq⟩ := Option.map_eq_some_iff.1 h
      cases heq
      obtain ⟨e, he, rfl⟩ := Option.map_eq_some_iff.1 hn
      exact ⟨e, reads', ⟨depth, he⟩, ⟨depth, hrest⟩, rfl⟩
  · rintro ⟨e, reads', ⟨depth, he⟩, ⟨depth', hrest⟩, rfl⟩
    -- the read and the rest may need different depths
    refine ⟨max depth depth', ?_⟩
    have he := evaluate_mono (Nat.le_max_left depth depth') he
    have hrest := against_values_mono (evaluate_mono (Nat.le_max_right depth depth')) hrest
    rw [Program.against, values, he, Option.map_some]
    simp only
    rw [hrest, Option.map_some]

/-! ## What comes up -/

/-- A program asks for a variable at some point, if each read before is evaluated. -/
inductive Asks (m : Model) (observed : Table Ident (Tensor Float)) :
    Program α → Ident → Prop where
  | here {n : Ident} {next : Except World.Error (Tensor Float) → Program α} :
      Asks m observed (.ask n next) n
  | later {n p : Ident} {next : Except World.Error (Tensor Float) → Program α} {e : Evaluation}
      (evaluated : m.Evaluates observed n e) (asks : Asks m observed (next (.ok e.value)) p) :
      Asks m observed (.ask n next) p

/-- What a program asks for is among what it reads, if it comes to a result. -/
theorem Asks.mem (h : m.Asks observed program p) (hc : m.Comes observed program reads a) :
    p ∈ reads := by
  induction h generalizing reads with
  | here =>
    obtain ⟨e, reads', -, -, rfl⟩ := comes_ask_iff.1 hc
    exact List.mem_cons_self
  | later evaluated asks ih =>
    -- the read before is evaluated in one way only, so the program goes on as it did
    obtain ⟨e', reads', he', hrest, rfl⟩ := comes_ask_iff.1 hc
    obtain rfl := evaluated.unique he'
    exact List.mem_cons_of_mem _ (ih hrest)

/-- The identifiers that come up when some variables are requested: these, and whatever is asked
for by the program of one that comes up. -/
inductive Occurs (m : Model) (observed : Table Ident (Tensor Float)) (requests : List Ident) :
    Ident → Prop where
  | request {n : Ident} (requested : n ∈ requests) : Occurs m observed requests n
  | read {n p : Ident} (reader : Occurs m observed requests n)
      (asks : m.Asks observed (m.program n) p) : Occurs m observed requests p

/-- More requests bring more up. -/
theorem Occurs.mono {requests requests' : List Ident} (h : m.Occurs observed requests n)
    (hsub : requests ⊆ requests') : m.Occurs observed requests' n := by
  induction h with
  | request requested => exact .request (hsub requested)
  | read _ asks ih => exact .read ih asks

/-- The model is deterministic as far as the requests go: of the identifiers that come up, equal
ones have the same program, however they are spelled. -/
def Deterministic (m : Model) (observed : Table Ident (Tensor Float)) (requests : List Ident) :
    Prop :=
  ∀ n n', m.Occurs observed requests n → m.Occurs observed requests n' → (n == n') = true →
    m.program n = m.program n'

end Model

end Stochastic
