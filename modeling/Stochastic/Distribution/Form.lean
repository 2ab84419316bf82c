import Stochastic.Distribution.Basic
import Stochastic.Json.Form

/-!
# The JSON form of distributions and supports
-/

namespace Stochastic

/-- Counts lie below this limit. -/
def countLimit : Nat := Nat.pow 2 64

namespace Distribution

/-- A choice whose contents are named floats. -/
def record (name : String) (fields : List (String × Float)) : Json :=
  .choice name (.obj (fields.map fun f => (f.1, JsonForm.toJson f.2)))

/-- The JSON form of a distribution. -/
def toJson (d : Distribution) : Json :=
  match d with
  | .bernoulli p => record d.name [("probs", p)]
  | .beta a b => record d.name [("alpha", a), ("beta", b)]
  | .binomial count p =>
    .choice d.name (.obj [("total_count", .nat count), ("probs", JsonForm.toJson p)])
  | .categorical weights => .choice d.name (.obj [("probs", JsonForm.toJson weights)])
  | .halfCauchy scale => record d.name [("scale", scale)]
  | .halfNormal scale => record d.name [("scale", scale)]
  | .normal loc scale => record d.name [("loc", loc), ("scale", scale)]
  | .studentT df loc scale => record d.name [("df", df), ("loc", loc), ("scale", scale)]
  | .uniform low high => record d.name [("low", low), ("high", high)]

/-- Named fields, all of which must be there and be floats. -/
def floats? (names : List String) (j : Json) : Option (List Float) := do
  (← j.members? names).mapM fun field => do Json.float? (← field)

/-- The distribution of a name with contents. -/
def ofContents? (name : String) (j : Json) : Option Distribution :=
  match name with
  | "Bernoulli" => do
    match ← floats? ["probs"] j with
    | [p] => some (.bernoulli p)
    | _ => none
  | "Beta" => do
    match ← floats? ["alpha", "beta"] j with
    | [a, b] => some (.beta a b)
    | _ => none
  | "Binomial" => do
    match ← j.members? ["total_count", "probs"] with
    | [some count, some p] =>
      return .binomial (← count.natBelow? countLimit) (← p.float?)
    | _ => none
  | "Categorical" => do
    match ← j.members? ["probs"] with
    | [some weights] => .categorical <$> JsonForm.ofJson? weights
    | _ => none
  | "HalfCauchy" => do
    match ← floats? ["scale"] j with
    | [scale] => some (.halfCauchy scale)
    | _ => none
  | "HalfNormal" => do
    match ← floats? ["scale"] j with
    | [scale] => some (.halfNormal scale)
    | _ => none
  | "Normal" => do
    match ← floats? ["loc", "scale"] j with
    | [loc, scale] => some (.normal loc scale)
    | _ => none
  | "StudentT" => do
    match ← floats? ["df", "loc", "scale"] j with
    | [df, loc, scale] => some (.studentT df loc scale)
    | _ => none
  | "Uniform" => do
    match ← floats? ["low", "high"] j with
    | [low, high] => some (.uniform low high)
    | _ => none
  | _ => none

/-- The distribution that a JSON value is. -/
def ofJson? (j : Json) : Option Distribution := do
  match ← j.choice? with
  | (name, some contents) => ofContents? name contents
  | _ => none

instance : JsonForm Distribution := ⟨toJson, ofJson?⟩

end Distribution

namespace Support

/-- The JSON form of a support. -/
def toJson : Support → Json
  | .boolean => .str "Boolean"
  | .unitInterval => .str "UnitInterval"
  | .nonNegativeInteger => .str "NonNegativeInteger"
  | .integerInterval last => .choice "IntegerInterval" (.nat last)
  | .positive => .str "Positive"
  | .real => .str "Real"
  | .interval low high => .choice "Interval" (JsonForm.toJson [low, high])

/-- The support of a name without contents. -/
def ofName? : String → Option Support
  | "Boolean" => some .boolean
  | "UnitInterval" => some .unitInterval
  | "NonNegativeInteger" => some .nonNegativeInteger
  | "Positive" => some .positive
  | "Real" => some .real
  | _ => none

/-- The support that a JSON value is. -/
def ofJson? (j : Json) : Option Support := do
  match ← j.choice? with
  | ("IntegerInterval", some last) => .integerInterval <$> last.natBelow? countLimit
  | ("Interval", some (.array [low, high])) => return .interval (← low.float?) (← high.float?)
  | (name, none) => ofName? name
  | (name, some .null) => ofName? name
  | _ => none

instance : JsonForm Support := ⟨toJson, ofJson?⟩

end Support

end Stochastic
