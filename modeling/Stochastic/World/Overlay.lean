import Stochastic.Table
import Stochastic.World.Variable

/-!
# Staged changes

Changes to a world are first staged: changed copies of variables, and marks on those that
are to be deleted.

## Main definitions

* `Overlay` — staged variables and marks.
-/

namespace Stochastic

/-- Staged changes. -/
structure Overlay where
  /-- Changed copies of variables, and new variables. -/
  staged : Table Ident Variable := .empty
  /-- Variables that are to be deleted. -/
  marked : OrderedSet Ident := .empty
  deriving Inhabited

namespace Overlay

/-- No changes. -/
def empty : Overlay := {}

/-- Whether nothing is staged or marked. -/
def isEmpty (o : Overlay) : Bool := o.staged.isEmpty && o.marked.isEmpty

/-- Whether a variable is to be deleted. -/
def isMarked (o : Overlay) (n : Ident) : Bool := o.marked.contains n

/-- Stages a variable. -/
def put (o : Overlay) (n : Ident) (v : Variable) : Overlay :=
  { o with staged := o.staged.insert n v }

/-- Marks a variable. -/
def mark (o : Overlay) (n : Ident) : Overlay := { o with marked := o.marked.insert n }

/-- Takes a mark away. -/
def unmark (o : Overlay) (n : Ident) : Overlay := { o with marked := o.marked.erase n }

end Overlay

end Stochastic
