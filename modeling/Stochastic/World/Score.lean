import Stochastic.World.Basic

/-!
# Scores

How likely a world is, and how its variables hang together.

## Main definitions

* `World.liveLogProbs`, `World.jointIn`, `World.joint` — the joint log-probability of the live
  view.
* `World.score` — the log-probability of a variable with its children.
* `World.blanket` — the variables that a variable must be known together with.
* `World.distanceTo` — how far a value is from the observed one.
-/

namespace Stochastic.World

/-- The log-probabilities of the live view: those of staged variables, then those of
committed variables that are not staged. -/
def liveLogProbs (w : World) : List Float :=
  let committed := w.committed.entries.filter fun e => !w.overlay.staged.contains e.1
  let live := (w.overlay.staged.entries ++ committed).filter fun e => !w.overlay.isMarked e.1
  live.map fun e => e.2.logProb

/-- The joint log-probability of the live view, in any numbers that log-probabilities can be
read as. -/
def jointIn {A : Type} (a : Arithmetic A) (read : Float → A) (w : World) : A :=
  a.total (w.liveLogProbs.map read)

/-- The joint log-probability of the live view. -/
def joint (w : World) : Float := w.jointIn .float id

/-- Adds the log-probability of a child to a score. -/
def addChild (w : World) (score : Float) (child : Ident) : Except Error Float :=
  match w.lookup? child with
  | some v => .ok (score + v.logProb)
  | none => .error (.inconsistent (.missingChild child))

/-- The log-probability of a variable and its children, with its Jacobian. -/
def score (w : World) (v : Variable) : Except Error Float := do
  let s ← v.children.toList.foldlM w.addChild (v.logProb + v.jacobian)
  if s.isNaN then throw (.inconsistent .undefinedScore)
  return s

/-- The committed variable, which must be there. -/
def findCommitted (w : World) (n : Ident) : Except Error Variable :=
  match w.committed.get? n with
  | some v => .ok v
  | none => .error (.notFound n)

/-- Adds a variable to a set unless it is observed. -/
def addHidden (w : World) (s : OrderedSet Ident) (n : Ident) : OrderedSet Ident :=
  if w.isObserved n then s else s.insert n

/-- Adds a child of `n` and its other parents to a set, those that are not observed. -/
def addFamily (w : World) (n : Ident) (s : OrderedSet Ident) (child : Ident) :
    Except Error (OrderedSet Ident) := do
  let v ← w.findCommitted child
  return (v.parents.toList.filter fun p => !(p == n)).foldl w.addHidden (w.addHidden s child)

/-- The children of a committed variable and their other parents, those that are not
observed. -/
def blanket (w : World) (n : Ident) : Except Error (OrderedSet Ident) := do
  let v ← w.findCommitted n
  v.children.toList.foldlM (w.addFamily n) .empty

/-- The distance between a value and the observed one. -/
def distanceTo (w : World) (n : Ident) (value : Tensor Float) : Except Error Float :=
  match w.observations.get? n with
  | none => .error (.notObserved n)
  | some observed => (observed.distance? value).mapError .tensor

end Stochastic.World
