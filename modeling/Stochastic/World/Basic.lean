import Stochastic.Config
import Stochastic.Log
import Stochastic.Tensor.Printer
import Stochastic.World.Error
import Stochastic.World.Overlay

/-!
# Worlds

A world holds the random variables that have been generated.  Committed variables are
overlaid with staged changes; the live view is what would be committed if the changes were
accepted.

## Main definitions

* `World` — committed variables, staged changes, observations and queries.
* `World.lookup?` — the staged copy of a variable if there is one, else the committed one.
* `World.live?` — the same, unless the variable is marked for delete.
* `World.observe`, `World.ask` — setting observations and queries.
-/

namespace Stochastic

/-- A world of random variables. -/
structure World where
  config : Config := {}
  committed : Table Ident Variable := .empty
  overlay : Overlay := .empty
  /-- Values that variables are known to have. -/
  observations : Table Ident (Tensor Float) := .empty
  /-- Variables that must not be deleted. -/
  queries : OrderedSet Ident := .empty
  /-- How many values have been drawn. -/
  drawn : Nat := 0
  deriving Inhabited

namespace World

/-- The world without variables. -/
def new (config : Config) : World := { config }

/-- The staged copy of a variable if there is one, else the committed one. -/
def lookup? (w : World) (n : Ident) : Option Variable :=
  match w.overlay.staged.get? n with
  | some v => some v
  | none => w.committed.get? n

/-- The variable as it would be committed if the staged changes were accepted. -/
def live? (w : World) (n : Ident) : Option Variable :=
  if w.overlay.isMarked n then none else w.lookup? n

/-- The variable, which must be there. -/
def find (w : World) (n : Ident) : Except Error Variable :=
  match w.lookup? n with
  | some v => .ok v
  | none => .error (.notFound n)

/-- Whether a variable is staged or committed. -/
def contains (w : World) (n : Ident) : Bool := (w.lookup? n).isSome

/-- Whether a variable is observed. -/
def isObserved (w : World) (n : Ident) : Bool := w.observations.contains n

/-- An upper bound for the number of variables. -/
def size (w : World) : Nat := w.committed.size + w.overlay.staged.size

/-! ## Observations, queries, commits -/

/-- The log line for an observation that contradicts the current value, if it does. -/
def contradiction? (w : World) (n : Ident) (value : Tensor Float) : Option LogLine :=
  match w.lookup? n with
  | none => none
  | some v =>
    if v.value == value then none
    else some ⟨.warn, "Observation for " ++ n.text ++ " differs from its current value " ++
      v.value.text⟩

/-- Replaces all observations; of several for one variable the last counts. -/
def observe (w : World) (observations : List (Ident × Tensor Float)) : Reply World Error Nat :=
  let table := Table.ofList observations
  { state := { w with observations := table }
    result := .ok table.size
    log := table.entries.filterMap fun o => w.contradiction? o.1 o.2 }

/-- Replaces all queries. -/
def ask (w : World) (queries : List Ident) : World := { w with queries := .ofList queries }

/-- Puts a variable among the committed ones. -/
def commit (w : World) (n : Ident) (v : Variable) : World :=
  { w with committed := w.committed.insert n v }

/-- Takes a variable from the committed ones. -/
def remove (w : World) (n : Ident) : World := { w with committed := w.committed.erase n }

/-- Changes a committed variable, if it is there. -/
def amend (w : World) (n : Ident) (f : Variable → Variable) : World :=
  { w with committed := w.committed.modify n f }

/-! ## Accepting and rejecting staged changes -/

/-- Commits the staged variables that are not marked, and deletes the marked ones. -/
def settle (committed : Table Ident Variable) (o : Overlay) : Table Ident Variable :=
  let kept := o.staged.entries.filter fun e => !o.isMarked e.1
  let updated := kept.foldl (fun t e => t.insert e.1 e.2) committed
  o.marked.toList.foldl Table.erase updated

/-- Accepts the staged changes. -/
def accept (w : World) : Reply World Error Unit :=
  { state := { w with committed := settle w.committed w.overlay, overlay := .empty }
    result := .ok ()
    log := [⟨.debug, "Accepting " ++ toString w.overlay.staged.size ++ " staged and " ++
      toString w.overlay.marked.size ++ " deleted variables"⟩] }

/-- Rejects the staged changes. -/
def reject (w : World) : Reply World Error Unit :=
  { state := { w with overlay := .empty }
    result := .ok ()
    log := [⟨.debug, "Rejecting " ++ toString w.overlay.staged.size ++ " staged variables"⟩] }

end World

end Stochastic
