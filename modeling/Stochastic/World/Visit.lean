import Stochastic.World.Cascade

/-!
# Reading variables

Reading a variable generates it first if it is not there.  A variable that is read by a
running program becomes a parent of the variable that the program generates.

## Main definitions

* `World.read` — reads a variable, given how programs are executed.
* `World.execute` — executes the program of a variable.
* `World.visit`, `World.update` — reads a variable from outside.
-/

namespace Stochastic.World

/-- Executes the program of a variable: its distribution, and the variables it read. -/
abbrev Executor := Ident → Step (Distribution × OrderedSet Ident)

/-- Draws a value. -/
def draw (m : Model) (d : Distribution) : Step (Tensor Float) := fun r =>
  match m.draw? r.world.drawn d with
  | .ok v => .ok v { r with world := { r.world with drawn := r.world.drawn + 1 } }
  | .error e => .error (.parameter e) r

/-- The value of a new variable: the observed one if there is one, else a drawn one. -/
def freshValue (m : Model) (n : Ident) (d : Distribution) : Step (Tensor Float) := do
  match (← get).world.observations.get? n with
  | some v => return v
  | none => draw m d

/-- Generates a variable. -/
def create (m : Model) (executor : Executor) (n : Ident) : Step Unit := do
  let (d, parents) ← executor n
  let value ← freshValue m n d
  write .trace ("Created " ++ n.text ++ " = " ++ value.text)
  modify fun r =>
    (r.mapOverlay (·.put n (.create d value parents r.world.config.transformConstrained))).mapLedger
      fun l => { l with created := l.created ++ [n] }

/-- Records that the innermost running program, if there is one, has read a variable. -/
def connect (n : Ident) : Step Unit := do
  match (← get).frames with
  | [] => return ()
  | f :: frames =>
    modify fun r => { r with frames := { f with parents := f.parents.insert n } :: frames }
    attach f.node n

/-- Makes a variable live: generates it if it is not there, and revives it if it is
marked. -/
def provide (m : Model) (executor : Executor) (n : Ident) : Step Unit := do
  let w := (← get).world
  if !w.contains n then create m executor n
  else if w.overlay.isMarked n then revive n

/-- Reads a variable, which is made live first.  A program cannot read a variable that is being
generated. -/
def read (m : Model) (executor : Executor) (n : Ident) : Step (Tensor Float) := do
  if (← get).frames.any fun f => f.node == n then throw (.cyclic n)
  provide m executor n
  connect n
  return (← lookup n).value

/-- Runs `body` as the program of a variable: in a frame of its own, which is gone
afterwards in any case. -/
def withFrame (n : Ident) (body : Step Distribution) : Step (Distribution × OrderedSet Ident) :=
  fun r =>
    match body { r with frames := ⟨n, .empty⟩ :: r.frames } with
    | .ok d r =>
      .ok (d, (r.frames.head?.map Frame.parents).getD .empty) { r with frames := r.frames.tail }
    | .error e r => .error e { r with frames := r.frames.tail }

/-- Executes the program of a variable with at most `depth` programs nested. -/
def execute (m : Model) : (depth : Nat) → Executor
  | 0, n => fun r => .error (.recursionLimit n r.world.config.maxDepth) r
  | depth + 1, n =>
    withFrame n ((m.program n).run (fun p => (read m (execute m depth) p).attempt) throw)

/-- Reads a variable with as deep a nesting as the settings allow. -/
def visit (m : Model) (n : Ident) : Step (Tensor Float) := do
  let depth := (← get).world.config.maxDepth
  read m (execute m depth) n

/-- The value of a variable, which is generated if it is not there. -/
def update (m : Model) (w : World) (n : Ident) : Reply World Error (Tensor Float) :=
  (visit m n).reply w

end Stochastic.World
