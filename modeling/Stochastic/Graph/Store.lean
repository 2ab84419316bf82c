import Stochastic.Graph.Insert
import Stochastic.Node.Form

/-!
# Storing a graph

The columns of a graph are stored as JSON.  What is read back is checked like nodes
that are added one by one, and types are inferred anew; the stored types only have to
be as many as the nodes.

## Main definitions

* `Columns.toJson`, `Columns.ofJson?` — the stored form.
* `Graph.rebuild` — a graph from columns.
* `Graph.text`, `Graph.ofText` — a graph as text.
-/

namespace Stochastic

namespace Columns

/-- Stored numbers lie below this limit. -/
def numberLimit : Nat := Nat.pow 2 32

/-- The stored form of columns. -/
def toJson (c : Columns) : Json :=
  .obj [("kinds", JsonForm.toJson c.kinds),
    ("inputs_flat", .array (c.cells.map Json.nat)),
    ("inputs_ranges", .array (c.spans.map fun s => .array [.nat s.start, .nat s.length])),
    ("inf_types", JsonForm.toJson c.types)]

/-- A span: its start and its length. -/
def spanOfJson? : Json → Option Span
  | .array [start, length] => do
    return ⟨← start.natBelow? numberLimit, ← length.natBelow? numberLimit⟩
  | _ => none

/-- The columns that a JSON value stores. -/
def ofJson? (j : Json) : Option Columns := do
  match ← j.members? ["kinds", "inputs_flat", "inputs_ranges", "inf_types"] with
  | [some kinds, some cells, some spans, some types] =>
    let kinds ← JsonForm.ofJson? kinds
    let cells ← (← cells.items?).mapM (Json.natBelow? numberLimit)
    let spans ← (← spans.items?).mapM spanOfJson?
    let types ← JsonForm.ofJson? types
    return ⟨kinds, cells, spans, types⟩
  | _ => none

instance : JsonForm Columns := ⟨toJson, ofJson?⟩

end Columns

namespace Graph

/-- Checks a span and the order of the inputs in it. -/
def checkSpan (c : Columns) (n : NodeId) (s : Span) : Except Error Unit :=
  if c.cells.length < s.start + s.length then .error (.corruptStore (.outside n))
  else
    match (c.slice s).find? fun input => decide (n ≤ input) with
    | some input => .error (.corruptStore (.late n input))
    | none => .ok ()

/-- Takes over the next node of stored columns: checks it against the types inferred so
far, infers its type, and lists it. -/
def restoreNode (c : Columns) (g : Graph) (node : NodeKind × Span) : Except Error Graph := do
  let (kind, s) := node
  let n := g.types.length
  checkSpan c n s
  let inputs := c.slice s
  check g.toColumns kind inputs
  return { g with
    types := g.types ++ [kind.infer (inputs.map g.typeOf)]
    consumers := connect n inputs g.consumers
    index := enlist g.index (NodeKey.of? kind inputs) n }

/-- The graph of stored columns, if they are sound. -/
def rebuild (c : Columns) : Except Error Graph :=
  if c.spans.length ≠ c.count ∨ c.types.length ≠ c.count then
    .error (.corruptStore (.lengths c.count c.spans.length c.types.length))
  else
    let start : Graph :=
      { c with types := [], consumers := List.replicate c.count [], index := .empty }
    (c.kinds.zip c.spans).foldlM (restoreNode c) start

/-- The stored text of a graph. -/
def text (g : Graph) : String := JsonForm.text g.toColumns

/-- The graph that a text stores. -/
def ofText (s : String) : Except Error Graph :=
  match JsonForm.ofText? Columns s with
  | some c => rebuild c
  | none => .error .unreadable

end Graph

end Stochastic
