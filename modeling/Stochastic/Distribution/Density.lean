import Stochastic.Decimal.Binary
import Stochastic.Distribution.Basic
import Stochastic.Distribution.Gamma
import Stochastic.Tensor.Basic

/-!
# Log-probabilities

The logarithm of the density of a distribution, or of the probability of a value
if it is discrete.  Elements of a tensor are independent, so its log-probability
is the total of theirs.

## Main definitions

* `Distribution.logDensity` — at a number.
* `Distribution.logProb` — at a tensor.
-/

namespace Stochastic.Distribution

open Special

/-- The log-probability of what cannot happen. -/
def impossible : Float := -1.0 / 0.0

/-- The log-density of a normal distribution. -/
def normalLogDensity (x loc scale : Float) : Float :=
  let z := (x - loc) / scale
  (-0.5) * z * z - scale.log - 0.5 * (2.0 * pi).log

/-- The log-density at a number. -/
def logDensity (d : Distribution) (x : Float) : Float :=
  match d with
  | .bernoulli p =>
    if x == 1 then p.log else if x == 0 then (1.0 - p).log else impossible
  | .beta a b =>
    if x ≤ 0 ∨ x ≥ 1 then impossible
    else (a - 1.0) * x.log + (b - 1.0) * (1.0 - x).log - lnBeta a b
  | .binomial count p =>
    let n := Float.ofNat count
    if x < 0 ∨ x > n ∨ !Decimal.isIntegral x then impossible
    else lnChoose n x + xlogy x p + xlogy (n - x) (1.0 - p)
  | .categorical weights =>
    if x < 0 ∨ !Decimal.isIntegral x then impossible
    else
      match weights[x.toUInt64.toNat]? with
      | some w => (w / total weights).log
      | none => impossible
  | .halfCauchy scale =>
    if x < 0 then impossible
    else
      let z := x / scale
      ln2 - (pi * scale).log - (1.0 + z * z).log
  | .halfNormal scale =>
    if x < 0 then impossible else ln2 + normalLogDensity x 0 scale
  | .normal loc scale => normalLogDensity x loc scale
  | .studentT df loc scale =>
    let z := (x - loc) / scale
    lnGamma ((df + 1.0) / 2.0) - lnGamma (df / 2.0) - 0.5 * (df * pi).log - scale.log
      - (df + 1.0) / 2.0 * (1.0 + z * z / df).log
  | .uniform low high =>
    if x ≥ low ∧ x < high then -(high - low).log else impossible

/-- The log-probability of a tensor. -/
def logProb (d : Distribution) (value : Tensor Float) : Float :=
  total (value.data.map d.logDensity)

end Stochastic.Distribution
