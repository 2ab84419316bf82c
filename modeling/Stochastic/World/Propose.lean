import Stochastic.World.Score
import Stochastic.World.Visit

/-!
# Proposals

A proposal gives a variable another value and executes the programs of the variables that
read it again.  Variables may be created on the way, and variables that nothing reads any
more are marked for delete.  All changes are staged.

What a proposal does to log-probabilities is first kept item by item, as a `Proposal`; the
figures of its `Outcome` are totals of these items.

## Main definitions

* `World.Shift`, `World.Proposal` — the log-probabilities that change.
* `World.Figures`, `World.Proposal.figures`, `World.Outcome` — the figures of a proposal.
* `World.itemize`, `World.propose` — makes a proposal.
-/

namespace Stochastic.World

/-- A log-probability before and after a proposal. -/
structure Shift where
  before : Float
  after : Float
  deriving Repr, Inhabited

/-- What a proposal does to log-probabilities. -/
structure Proposal where
  /-- That of the variable whose value is proposed. -/
  target : Shift
  /-- Those of the variables executed again that are live afterwards. -/
  children : List (Ident × Shift)
  /-- Those of the variables created that are live afterwards. -/
  created : List (Ident × Float)
  /-- Those that variables had before, one for each time that a variable which is deleted in
  the end was marked. -/
  deleted : List (Ident × Float)
  /-- Those of the live view afterwards. -/
  live : List Float
  deriving Inhabited

/-- The figures of a proposal. -/
structure Figures (A : Type) where
  /-- The change of the children. -/
  children : A
  /-- The change of the children and the variable itself. -/
  world : A
  /-- The change of the variable itself. -/
  node : A
  /-- The joint log-probability afterwards. -/
  score : A
  /-- The log-probability of what was created less that of what was deleted. -/
  graph : A
  deriving Repr, Inhabited

/-- The figures of a proposal, as floats. -/
abbrev Outcome := Figures Float

/-- The change of a log-probability. -/
def Shift.delta {A : Type} (a : Arithmetic A) (read : Float → A) (s : Shift) : A :=
  a.sub (read s.after) (read s.before)

/-- The figures of a proposal, in any numbers that log-probabilities can be read as. -/
def Proposal.figures {A : Type} (a : Arithmetic A) (read : Float → A) (p : Proposal) :
    Figures A :=
  let children := a.total (p.children.map fun c => c.2.delta a read)
  let node := p.target.delta a read
  { children
    world := a.add children node
    node
    score := a.total (p.live.map read)
    graph := a.balance (p.created.map fun c => read c.2) (p.deleted.map fun d => read d.2) }

/-- The figures of a proposal. -/
def Proposal.outcome (p : Proposal) : Outcome := p.figures .float id

/-- Executes the program of a variable again.  Variables that it does not read any more lose
it as a reader. -/
def reexecute (m : Model) (n : Ident) : Step Unit := do
  let depth := (← get).world.config.maxDepth
  let (d, parents) ← execute m depth n
  let v ← stage n
  restage n ({ v with parents }.setDistribution d)
  let dropped := v.parents.toList.filter fun p => !parents.contains p
  dropped.forM (detach n)

/-- Executes a child of the proposed variable again, unless it is marked by now, and
returns what happened to its log-probability. -/
def revise (m : Model) (child : Ident) : Step (Option (Ident × Shift)) := do
  if (← get).world.overlay.isMarked child then return none
  let before := (← lookup child).logProb
  reexecute m child
  let after := (← lookup child).logProb
  return some (child, ⟨before, after⟩)

/-- The log-probability that a variable had before the proposal touched it. -/
def prior (l : Ledger) (n : Ident) : Step Float := do
  match l.prior.get? n with
  | some lp => return lp
  | none => return (← lookup n).logProb

/-- The log-probabilities of the variables created and deleted by the proposal. -/
def balance : Step (List (Ident × Float) × List (Ident × Float)) := do
  let r ← get
  match r.ledger with
  | none => return ([], [])
  | some l =>
    let created ← (l.created.filter fun n => !r.world.overlay.isMarked n).mapM fun n => do
      return (n, (← lookup n).logProb)
    let deleted ← (l.marked.filter fun n =>
      r.world.overlay.isMarked n && !l.created.contains n).mapM fun n => do
      return (n, ← prior l n)
    return (created, deleted)

/-- Begins a proposal: gives the variable its new value.  Returns what that does to its
log-probability, and the variables that read it. -/
def move (n : Ident) (value : Tensor Float) : Step (Shift × List Ident) := do
  modify fun r => { r with ledger := some { target := n } }
  let v ← stage n
  let moved := v.setValue value
  restage n moved
  return (⟨v.logProb, moved.logProb⟩, moved.children.toList)

/-- Proposes a value for a variable.  A variable that is marked or observed cannot take
one. -/
def proposal (m : Model) (n : Ident) (value : Tensor Float) : Step Proposal := do
  let w := (← get).world
  if w.overlay.isMarked n then throw (.markedForDelete n)
  if w.isObserved n then throw (.observedNode n)
  let (target, readers) ← move n value
  let revised ← readers.mapM (revise m)
  let (created, deleted) ← balance
  let w := (← get).world
  let children := (revised.filterMap id).filter fun c => !w.overlay.isMarked c.1
  write .debug ("Proposed " ++ (← lookup n).value.text ++ " for " ++ n.text)
  return { target, children, created, deleted, live := w.liveLogProbs }

/-- Proposes a value for a variable, item by item. -/
def itemize (m : Model) (w : World) (n : Ident) (value : Tensor Float) :
    Reply World Error Proposal :=
  (proposal m n value).reply w

/-- Proposes a value for a variable. -/
def propose (m : Model) (w : World) (n : Ident) (value : Tensor Float) :
    Reply World Error Outcome :=
  (itemize m w n value).map Proposal.outcome

end Stochastic.World
