import Stochastic.Tensor.Printer
import Stochastic.ValueType.Classify

/-!
# Kinds of nodes

A node of a model graph is a constant, a distribution, a sample of one, an
operator, a conversion between value types, an observation of a sample or a
query.  The kind says what a node is; the graph says what its inputs are.

## Main definitions

* `Family`, `Operator`, `Conversion` — distributions, operators and conversions.
* `NodeKind`, `NodeKind.name`, `NodeKind.label`.
* `NodeKind.isValue` — whether a node of this kind has a value.
-/

namespace Stochastic

/-- A family of distributions. -/
inductive Family where
  | bernoulli
  | beta
  | binomial
  | halfCauchy
  | normal
  | studentT
  deriving DecidableEq, Repr, Inhabited

namespace Family

/-- All families. -/
def all : List Family := [.bernoulli, .beta, .binomial, .halfCauchy, .normal, .studentT]

/-- The types of the parameters, in order. -/
def parameterTypes : Family → List ValueType
  | .bernoulli => [.probability]
  | .beta => [.positiveReal, .positiveReal]
  | .binomial => [.natural, .probability]
  | .halfCauchy => [.positiveReal]
  | .normal => [.real, .positiveReal]
  | .studentT => [.positiveReal, .real, .positiveReal]

/-- How many parameters there are. -/
def arity (f : Family) : Nat := f.parameterTypes.length

/-- The type of the values of a sample. -/
def supportType : Family → ValueType
  | .bernoulli => .bool
  | .beta => .probability
  | .binomial => .natural
  | .halfCauchy => .positiveReal
  | .normal => .real
  | .studentT => .real

/-- The name of a family. -/
def name : Family → String
  | .bernoulli => "Bernoulli"
  | .beta => "Beta"
  | .binomial => "Binomial"
  | .halfCauchy => "HalfCauchy"
  | .normal => "Normal"
  | .studentT => "StudentT"

end Family

/-- An operator on values. -/
inductive Operator where
  /-- A sum of at least two operands. -/
  | addition
  /-- A product of at least two operands. -/
  | multiplication
  | negate
  | exp
  /-- A choice between its second and third input by its first. -/
  | ifThenElse
  deriving DecidableEq, Repr, Inhabited

namespace Operator

/-- All operators. -/
def all : List Operator := [.addition, .multiplication, .negate, .exp, .ifThenElse]

/-- The name in stored form. -/
def name : Operator → String
  | .addition => "Addition"
  | .multiplication => "Multiplication"
  | .negate => "Negate"
  | .exp => "Exp"
  | .ifThenElse => "IfThenElse"

/-- The name on a node. -/
def label : Operator → String
  | .addition => "+"
  | .multiplication => "*"
  | .negate => "-"
  | .exp => "Exp"
  | .ifThenElse => "if"

end Operator

/-- A conversion to a larger type. -/
inductive Conversion where
  | toReal
  | toPositiveReal
  | toTensor
  deriving DecidableEq, Repr, Inhabited

namespace Conversion

/-- All conversions. -/
def all : List Conversion := [.toReal, .toPositiveReal, .toTensor]

/-- The type of the result. -/
def target : Conversion → ValueType
  | .toReal => .real
  | .toPositiveReal => .positiveReal
  | .toTensor => .tensor

/-- The conversion with a given result, if there is one. -/
def reaching? : ValueType → Option Conversion
  | .real => some .toReal
  | .positiveReal => some .toPositiveReal
  | .tensor => some .toTensor
  | _ => none

/-- A conversion only widens. -/
def accepts (c : Conversion) (source : ValueType) : Bool := source.le c.target

/-- The name in stored form. -/
def name : Conversion → String
  | .toReal => "ToReal"
  | .toPositiveReal => "ToPositiveReal"
  | .toTensor => "ToTensor"

/-- The name on a node. -/
def label : Conversion → String
  | .toReal => "ToReal"
  | .toPositiveReal => "ToPosReal"
  | .toTensor => "ToTensor"

end Conversion

/-- What a node is. -/
inductive NodeKind where
  /-- A value, with the type it is declared to have, if any. -/
  | constant (value : Tensor Float) (declared : Option ValueType)
  | distribution (family : Family)
  /-- A draw from a distribution. -/
  | sample
  | operator (op : Operator)
  | conversion (c : Conversion)
  /-- Says that a sample has been observed to be `value`. -/
  | observation (value : Tensor Float)
  /-- Asks for the value of a node. -/
  | query
  deriving Repr, Inhabited

namespace NodeKind

/-- Whether a node of this kind is a distribution. -/
def isDistribution : NodeKind → Bool
  | .distribution _ => true
  | _ => false

/-- Whether a node of this kind is a sample. -/
def isSample : NodeKind → Bool
  | .sample => true
  | _ => false

/-- Whether a node of this kind has a value that others can read. -/
def isValue : NodeKind → Bool
  | .constant _ _ => true
  | .sample => true
  | .operator _ => true
  | .conversion _ => true
  | _ => false

/-- The name of a kind in messages. -/
def name : NodeKind → String
  | .constant _ _ => "Constant"
  | .distribution f => f.name
  | .sample => "Sample"
  | .operator op => op.label
  | .conversion c => c.label
  | .observation _ => "Observation"
  | .query => "Query"

/-- The label of a node: constants show their value and declared type. -/
def label : NodeKind → String
  | .constant value none => value.text
  | .constant value (some t) => value.text ++ ":" ++ t.shortName
  | .observation value => "Observation " ++ value.text
  | kind => kind.name

end NodeKind

end Stochastic
