import Stochastic.Graph.Basic

/-!
# Adding nodes

A node is checked against the nodes it reads: their number, then what each of them
is, then its own value or type.  A node that must mean the same as one already there
is not added again.

## Main definitions

* `Graph.check` — the checks.
* `Graph.insert` — adds a node or finds the one to share.
* `Graph.add` — the same, with a log line for a new node.
-/

namespace Stochastic.Graph

/-- What nodes of a kind expect at their inputs. -/
def slotKind : NodeKind → SlotKind
  | .sample => .distribution
  | .observation _ => .sample
  | _ => .value

/-- Whether a node is what is expected. -/
def SlotKind.admits : SlotKind → NodeKind → Bool
  | .distribution, kind => kind.isDistribution
  | .sample, kind => kind.isSample
  | .value, kind => kind.isValue

/-- Checks the number of inputs. -/
def checkArity (kind : NodeKind) (inputs : List NodeId) : Except Error Unit :=
  if kind.arity.allows inputs.length then .ok () else .error (.arityMismatch kind inputs.length)

/-- Checks inputs from a slot on. -/
def checkSlots (c : Columns) (kind : NodeKind) : Nat → List NodeId → Except Error Unit
  | _, [] => .ok ()
  | slot, n :: inputs =>
    if (slotKind kind).admits (c.kindOf n) then checkSlots c kind (slot + 1) inputs
    else .error (.invalidInput kind slot (slotKind kind) (c.kindOf n))

/-- Checks the value or the type of a node against the types of its inputs. -/
def checkValue (kind : NodeKind) (inputTypes : List ValueType) : Except Error Unit :=
  match kind with
  | .constant value (some t) =>
    if t.canRepresent value then .ok () else .error (.type (.unrepresentable value t))
  | .conversion c =>
    let input := inputTypes.headD .tensor
    if c.accepts input then .ok () else .error (.type (.illegalConversion c input))
  | .observation value =>
    let support := inputTypes.headD .tensor
    if support.canRepresent value then .ok () else .error (.invalidObservation value support)
  | _ => .ok ()

/-- Checks a node whose inputs are among the nodes of the columns. -/
def check (c : Columns) (kind : NodeKind) (inputs : List NodeId) : Except Error Unit := do
  checkArity kind inputs
  checkSlots c kind 0 inputs
  checkValue kind (inputs.map c.typeOf)

/-- Adds `consumer` to the consumers of each input. -/
def connect (consumer : NodeId) (inputs : List NodeId) (consumers : List (List NodeId)) :
    List (List NodeId) :=
  inputs.foldl (fun cs n => cs.modify n (· ++ [consumer])) consumers

/-- The index with a node added under its key, if it has one; a node that is there
stays. -/
def enlist (index : Table NodeKey NodeId) (key : Option NodeKey) (n : NodeId) :
    Table NodeKey NodeId :=
  match key with
  | none => index
  | some k => if index.contains k then index else index.insert k n

/-- The graph with a node behind the others. -/
def append (g : Graph) (kind : NodeKind) (inputs : List NodeId) : Graph where
  kinds := g.kinds ++ [kind]
  cells := g.cells ++ inputs
  spans := g.spans ++ [⟨g.cells.length, inputs.length⟩]
  types := g.types ++ [kind.infer (inputs.map g.typeOf)]
  consumers := connect g.count inputs g.consumers ++ [[]]
  index := enlist g.index (NodeKey.of? kind inputs) g.count

/-- The node that a new one would be shared with. -/
def shared? (g : Graph) (kind : NodeKind) (inputs : List NodeId) : Option NodeId :=
  (NodeKey.of? kind inputs).bind g.index.get?

/-- Adds a node, or finds the one to share.  An input that does not exist is reported
before anything else. -/
def insert (g : Graph) (kind : NodeKind) (inputs : List NodeId) : Except Error (Graph × NodeId) :=
  match inputs.find? fun n => decide (g.count ≤ n) with
  | some missing => .error (.unknownNode missing)
  | none =>
    match check g.toColumns kind inputs with
    | .error e => .error e
    | .ok () =>
      match g.shared? kind inputs with
      | some n => .ok (g, n)
      | none => .ok (g.append kind inputs, g.count)

/-- The log line for a new node. -/
def additionLine (n : NodeId) (kind : NodeKind) (inputs : List NodeId) : LogLine :=
  ⟨.trace, "Adding node " ++ toString n ++ " (" ++ kind.label ++ ") with inputs [" ++
    ", ".intercalate (inputs.map nodeText) ++ "]"⟩

/-- Adds a node or finds the one to share, and logs a new one. -/
def add (g : Graph) (kind : NodeKind) (inputs : List NodeId) : Reply Graph Error NodeId :=
  match g.insert kind inputs with
  | .error e => ⟨g, .error e, []⟩
  | .ok (g', n) =>
    ⟨g', .ok n, if g.count < g'.count then [additionLine n kind inputs] else []⟩

end Stochastic.Graph
