import Stochastic.Json.Form
import Stochastic.ValueType.Requirement

/-!
# The JSON form of value types and requirements

A type is written by its name, a requirement as a choice with a type.
-/

namespace Stochastic

instance : JsonForm ValueType where
  toJson t := .str t.name
  ofJson? := JsonForm.ofName? ValueType.all ValueType.name

namespace Requirement

/-- The JSON form of a requirement. -/
def toJson : Requirement → Json
  | .exact t => .choice "Exact" (JsonForm.toJson t)
  | .upperBound t => .choice "UpperBound" (JsonForm.toJson t)

/-- The requirement that a JSON value is. -/
def ofJson? (j : Json) : Option Requirement := do
  match ← j.choice? with
  | ("Exact", some t) => .exact <$> JsonForm.ofJson? t
  | ("UpperBound", some t) => .upperBound <$> JsonForm.ofJson? t
  | _ => none

instance : JsonForm Requirement := ⟨toJson, ofJson?⟩

end Requirement

end Stochastic
