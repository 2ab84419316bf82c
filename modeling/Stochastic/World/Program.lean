import Stochastic.World.Error

/-!
# Generating programs

The program of a random variable reads other variables one after the other, each choice
depending on what was read before, and ends with a distribution or an error.  Programs are
trees, so a program makes finitely many reads on every path.  A program sees when a read
fails and may go on all the same; most do not.

## Main definitions

* `Program` — programs, with `pure`, `bind` and `Program.read`.
* `Program.run` — runs a program, given how reads are answered.
* `Program.Propagates` — programs that end with an error once a read has failed.
* `Model`, `Model.draw?` — the programs of all variables, and where fresh values come from.
-/

namespace Stochastic

/-- A program that reads random variables. -/
inductive Program (α : Type) where
  /-- Ends with a result. -/
  | done (a : α)
  /-- Ends with an error. -/
  | fail (e : World.Error)
  /-- Reads a variable and goes on with its value, or with the error of the read. -/
  | ask (n : Ident) (next : Except World.Error (Tensor Float) → Program α)

namespace Program

variable {α β : Type}

/-- One program after the other. -/
def bind : Program α → (α → Program β) → Program β
  | .done a, f => f a
  | .fail e, _ => .fail e
  | .ask n next, f => .ask n fun answer => (next answer).bind f

instance : Monad Program where
  pure := .done
  bind := .bind

/-- The result of a computation that may fail. -/
def ofExcept {ε : Type} (wrap : ε → World.Error) : Except ε α → Program α
  | .ok a => .done a
  | .error e => .fail (wrap e)

/-- Reads a variable, ending with the error if the read fails. -/
def read (n : Ident) : Program (Tensor Float) := .ask n (ofExcept id)

/-- Reads a variable that has a single element. -/
def readItem (n : Ident) : Program Float := do
  let v ← read n
  ofExcept .tensor v.item?

/-- Runs a program in a monad, given how reads and errors are answered there. -/
def run {m : Type → Type} [Monad m] (answer : Ident → m (Except World.Error (Tensor Float)))
    (raise : World.Error → m α) : Program α → m α
  | .done a => pure a
  | .fail e => raise e
  | .ask n next => do
    let a ← answer n
    (next a).run answer raise

/-- A program that ends with an error as soon as one of its reads fails. -/
def Propagates : Program α → Prop
  | .done _ => True
  | .fail _ => True
  | .ask _ next => (∀ e, ∃ e', next (.error e) = .fail e') ∧ ∀ v, (next (.ok v)).Propagates

theorem propagates_ofExcept {ε : Type} (wrap : ε → World.Error) (x : Except ε α) :
    (ofExcept wrap x).Propagates := by
  cases x <;> exact trivial

theorem Propagates.bind {p : Program α} {f : α → Program β} (hp : p.Propagates)
    (hf : ∀ a, (f a).Propagates) : (p.bind f).Propagates := by
  induction p with
  | done a => exact hf a
  | fail e => exact trivial
  | ask n next ih =>
    refine ⟨fun e => ?_, fun v => ih (.ok v) (hp.2 v)⟩
    obtain ⟨e', he'⟩ := hp.1 e
    exact ⟨e', congrArg (Program.bind · f) he'⟩

theorem propagates_read (n : Ident) : (read n).Propagates :=
  ⟨fun e => ⟨e, rfl⟩, fun _ => trivial⟩

theorem propagates_readItem (n : Ident) : (readItem n).Propagates :=
  (propagates_read n).bind fun _ => propagates_ofExcept ..

end Program

/-- What worlds are grown from. -/
structure Model where
  /-- The program that generates each variable. -/
  program : Ident → Program Distribution
  /-- Where fresh values come from. -/
  sampler : Sampler
  /-- Which parameters are refused there. -/
  refusal : Refusal := Distribution.rejection?

/-- A value of a distribution, given the number of earlier draws. -/
def Model.draw? (m : Model) (before : Nat) (d : Distribution) :
    Except ParameterError (Tensor Float) :=
  m.sampler.draw? m.refusal before d

/-- A model all of whose programs end with an error as soon as a read fails. -/
def Model.Propagates (m : Model) : Prop := ∀ n, (m.program n).Propagates

end Stochastic
