/-!
# Log lines

What a step reports besides its result.  Lines are data: a step returns those it
wrote.

## Main definitions

* `LogLine`, `LogLine.text` — a line and its written form.
* `Reply` — what a step answers: its result, the state after it, its log.
-/

namespace Stochastic

/-- How much a line matters. -/
inductive Level where
  | trace
  | debug
  | warn
  deriving DecidableEq, Repr

/-- The name of a level. -/
def Level.name : Level → String
  | .trace => "TRACE"
  | .debug => "DEBUG"
  | .warn => "WARN"

/-- A line of the log. -/
structure LogLine where
  level : Level
  message : String
  deriving DecidableEq, Repr

/-- A line as it is written. -/
def LogLine.text (l : LogLine) : String := l.level.name ++ " " ++ l.message

/-- The answer of a step: a result or an error, the state that the step leaves
in either case, and the lines it logged. -/
structure Reply (σ ε α : Type) where
  state : σ
  result : Except ε α
  log : List LogLine

namespace Reply

variable {σ ε α β : Type}

/-- A step that answers without changing anything. -/
def of (state : σ) (result : Except ε α) : Reply σ ε α := ⟨state, result, []⟩

/-- The same answer with another state. -/
def mapState {τ : Type} (f : σ → τ) (r : Reply σ ε α) : Reply τ ε α :=
  ⟨f r.state, r.result, r.log⟩

/-- The same answer with another result. -/
def map (f : α → β) (r : Reply σ ε α) : Reply σ ε β := ⟨r.state, r.result.map f, r.log⟩

end Reply

end Stochastic
