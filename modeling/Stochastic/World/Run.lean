import Stochastic.World.Basic
import Stochastic.World.Program

/-!
# Steps in a world

Generating a variable runs its program, whose reads may generate further variables.  While
this goes on, a stack holds the programs that are running, each with what it has read; during
a proposal a ledger holds what the proposal has done.  A step that fails leaves what it
changed before.

## Main definitions

* `World.Frame`, `World.Ledger`, `World.Run` — the state of a step.
* `World.Step` — steps.
* `World.stage`, `World.restage`, `World.Run.recordPrior` — changing a variable.
* `World.Step.attempt` — a step whose error is a result.
* `World.Step.reply` — a step from outside.
-/

namespace Stochastic.World

/-- A program that is running, with the variables it has read. -/
structure Frame where
  node : Ident
  parents : OrderedSet Ident

/-- What a proposal has done. -/
structure Ledger where
  /-- The variable whose value is proposed. -/
  target : Ident
  /-- The variables created, in order. -/
  created : List Ident := []
  /-- The variables marked, in order. -/
  marked : List Ident := []
  /-- The log-probability that a variable had when it was first touched. -/
  prior : Table Ident Float := .empty

/-- Remembers the log-probability of a variable, unless an earlier one is remembered. -/
def Ledger.note (l : Ledger) (n : Ident) (logProb : Float) : Ledger :=
  if l.prior.contains n then l else { l with prior := l.prior.insert n logProb }

/-- The state of a step. -/
structure Run where
  world : World
  /-- The programs that are running, innermost first. -/
  frames : List Frame := []
  /-- What the current proposal has done, if there is one. -/
  ledger : Option Ledger := none
  log : List LogLine := []

/-- A step in a world, which leaves its changes behind also when it fails. -/
abbrev Step := EStateM Error Run

namespace Run

/-- Changes the staged changes. -/
def mapOverlay (r : Run) (f : Overlay → Overlay) : Run :=
  { r with world := { r.world with overlay := f r.world.overlay } }

/-- Changes the ledger, if there is one. -/
def mapLedger (r : Run) (f : Ledger → Ledger) : Run := { r with ledger := r.ledger.map f }

/-- Adds a line to the log. -/
def write (r : Run) (line : LogLine) : Run := { r with log := r.log ++ [line] }

/-- Remembers the log-probability of a variable that the proposal touches for the first
time. -/
def recordPrior (r : Run) (n : Ident) : Run :=
  match r.world.lookup? n with
  | none => r
  | some v => r.mapLedger (·.note n v.logProb)

/-- Whether a variable must not be deleted: it is observed, queried, or proposed. -/
def isProtected (r : Run) (n : Ident) : Bool :=
  r.world.isObserved n || r.world.queries.contains n ||
    r.ledger.any fun l => l.target == n

end Run

/-- The variable, which must be there. -/
def lookup (n : Ident) : Step Variable := fun r =>
  match r.world.find n with
  | .ok v => .ok v r
  | .error e => .error e r

/-- Copies a variable into the staged changes unless it is there, and returns the copy. -/
def stage (n : Ident) : Step Variable := fun r =>
  match r.world.lookup? n with
  | none => .error (.notFound n) r
  | some v => .ok v ((r.mapOverlay (·.put n v)).recordPrior n)

/-- Changes a staged variable. -/
def restage (n : Ident) (v : Variable) : Step Unit := modify fun r => r.mapOverlay (·.put n v)

/-- Adds a line to the log. -/
def write (level : Level) (message : String) : Step Unit :=
  modify fun r => r.write ⟨level, message⟩

/-- What a step comes to, be it an error; what it changed stays. -/
def Step.attempt {α : Type} (step : Step α) : Step (Except Error α) := fun r =>
  match step r with
  | .ok a r => .ok (.ok a) r
  | .error e r => .ok (.error e) r

/-- Runs a step in a world outside of any other: nothing is running and no proposal is being
made. -/
def Step.reply {α : Type} (step : Step α) (w : World) : Reply World Error α :=
  match step { world := w } with
  | .ok a r => ⟨r.world, .ok a, r.log⟩
  | .error e r => ⟨r.world, .error e, r.log⟩

end Stochastic.World
