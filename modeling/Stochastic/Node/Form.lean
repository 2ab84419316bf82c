import Stochastic.Node.Kind
import Stochastic.Tensor.Form
import Stochastic.ValueType.Form

/-!
# The JSON form of node kinds
-/

namespace Stochastic

instance : JsonForm Family where
  toJson f := .str f.name
  ofJson? := JsonForm.ofName? Family.all Family.name

instance : JsonForm Operator where
  toJson op := .str op.name
  ofJson? := JsonForm.ofName? Operator.all Operator.name

instance : JsonForm Conversion where
  toJson c := .str c.name
  ofJson? := JsonForm.ofName? Conversion.all Conversion.name

namespace NodeKind

/-- The JSON form of a node kind. -/
def toJson : NodeKind → Json
  | .constant value declared =>
    .choice "Constant"
      (.obj [("value", JsonForm.toJson value), ("declared", JsonForm.toJson declared)])
  | .distribution f => .choice "Distribution" (JsonForm.toJson f)
  | .sample => .str "Sample"
  | .operator op => .choice "Operator" (JsonForm.toJson op)
  | .conversion c => .choice "Conversion" (JsonForm.toJson c)
  | .observation value => .choice "Observation" (.obj [("value", JsonForm.toJson value)])
  | .query => .str "Query"

/-- A constant: its declared type may be left out. -/
def constantOfJson? (j : Json) : Option NodeKind := do
  match ← j.members? ["value", "declared"] with
  | [some value, declared] =>
    let value ← JsonForm.ofJson? value
    let declared ← JsonForm.ofJson? (declared.getD .null)
    return .constant value declared
  | _ => none

/-- An observation. -/
def observationOfJson? (j : Json) : Option NodeKind := do
  match ← j.members? ["value"] with
  | [some value] => .observation <$> JsonForm.ofJson? value
  | _ => none

/-- The node kind that a JSON value is. -/
def ofJson? (j : Json) : Option NodeKind := do
  match ← j.choice? with
  | ("Constant", some j) => constantOfJson? j
  | ("Distribution", some j) => .distribution <$> JsonForm.ofJson? j
  | ("Operator", some j) => .operator <$> JsonForm.ofJson? j
  | ("Conversion", some j) => .conversion <$> JsonForm.ofJson? j
  | ("Observation", some j) => observationOfJson? j
  | ("Sample", none) => some .sample
  | ("Sample", some .null) => some .sample
  | ("Query", none) => some .query
  | ("Query", some .null) => some .query
  | _ => none

instance : JsonForm NodeKind := ⟨toJson, ofJson?⟩

end NodeKind

end Stochastic
