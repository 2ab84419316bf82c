import Stochastic.World.Run

/-!
# Deleting and reviving variables

A variable that nothing reads any more is marked for delete, unless it is protected, and
with it the variables that only it read.  A marked variable that is read again is revived,
and with it the variables it reads.

## Main definitions

* `World.setReaders` — changes who reads a variable.
* `World.attach`, `World.detach` — adds a reader to a variable, or takes one away.
* `World.revive` — takes the mark from a variable.
-/

namespace Stochastic.World

/-- Marks a variable for delete. -/
def mark (n : Ident) : Step Unit := do
  modify fun r =>
    ((r.recordPrior n).mapOverlay (·.mark n)).mapLedger fun l =>
      { l with marked := l.marked ++ [n] }
  write .trace ("Marked " ++ n.text ++ " for delete")

/-- Changes which variables read a variable, and returns them. -/
def setReaders (n : Ident) (change : OrderedSet Ident → OrderedSet Ident) :
    Step (OrderedSet Ident) := do
  let v ← stage n
  restage n { v with children := change v.children }
  return change v.children

/-- Takes `child` away from the readers of `parent`, following a chain of deletions for at
most `depth` links. -/
def detachWithin : (depth : Nat) → (child parent : Ident) → Step Unit
  | 0, _, _ => return ()
  | depth + 1, child, parent => do
    let readers ← setReaders parent (·.erase child)
    let r ← get
    if readers.isEmpty && !r.isProtected parent && !r.world.overlay.isMarked parent then
      mark parent
      let v ← lookup parent
      v.parents.toList.forM (detachWithin depth parent)

/-- Takes `child` away from the readers of `parent`.  If none is left, `parent` is marked,
unless it is protected, and is taken away from the variables it reads in turn.  Every link of
a chain of deletions but the last marks another variable, so one more than the number of
variables bounds its length. -/
def detach (child parent : Ident) : Step Unit := do
  detachWithin ((← get).world.size + 1) child parent

/-- Makes `child` a reader of `parent`. -/
def attach (child parent : Ident) : Step Unit := do
  let v ← lookup parent
  if !v.children.contains child then
    discard <| setReaders parent (·.insert child)

/-- Takes the mark from a variable, following a chain of revivals for at most `depth`
links. -/
def reviveWithin : (depth : Nat) → (n : Ident) → Step Unit
  | 0, _ => return ()
  | depth + 1, n => do
    modify fun r => r.mapOverlay (·.unmark n)
    write .trace ("Revived " ++ n.text)
    let v ← lookup n
    v.parents.toList.forM fun parent => do
      if (← get).world.overlay.isMarked parent then reviveWithin depth parent
      attach n parent

/-- Takes the mark from a variable and makes it a reader again of the variables it reads,
which are revived as well if they are marked.  Every link of a chain of revivals but the first
takes away a mark, so one more than the number of marks bounds its length. -/
def revive (n : Ident) : Step Unit := do
  reviveWithin ((← get).world.overlay.marked.size + 1) n

end Stochastic.World
