/-!
# Distributions

A distribution of a random variable with its parameters, and the set of values it
can take.

## Main definitions

* `Distribution`, `Distribution.name`.
* `Support`, `Distribution.support`, `Support.isDiscrete`.
-/

namespace Stochastic

/-- A distribution with its parameters. -/
inductive Distribution where
  | bernoulli (p : Float)
  | beta (alpha beta : Float)
  /-- The number of successes in `count` trials. -/
  | binomial (count : Nat) (p : Float)
  /-- An index into the weights, each as likely as its share of their total. -/
  | categorical (weights : List Float)
  | halfCauchy (scale : Float)
  | halfNormal (scale : Float)
  | normal (loc scale : Float)
  | studentT (df loc scale : Float)
  | uniform (low high : Float)
  deriving DecidableEq, Repr, Inhabited

/-- The set of values that a distribution can take. -/
inductive Support where
  | boolean
  | unitInterval
  | nonNegativeInteger
  /-- The integers from zero to `last`. -/
  | integerInterval (last : Nat)
  | positive
  | real
  | interval (low high : Float)
  deriving Repr, Inhabited

/-- Whether the values are isolated points. -/
def Support.isDiscrete : Support → Bool
  | .boolean => true
  | .nonNegativeInteger => true
  | .integerInterval _ => true
  | _ => false

namespace Distribution

/-- The name of a distribution. -/
def name : Distribution → String
  | .bernoulli _ => "Bernoulli"
  | .beta _ _ => "Beta"
  | .binomial _ _ => "Binomial"
  | .categorical _ => "Categorical"
  | .halfCauchy _ => "HalfCauchy"
  | .halfNormal _ => "HalfNormal"
  | .normal _ _ => "Normal"
  | .studentT _ _ _ => "StudentT"
  | .uniform _ _ => "Uniform"

/-- The values that a distribution can take. -/
def support : Distribution → Support
  | .bernoulli _ => .boolean
  | .beta _ _ => .unitInterval
  | .binomial count _ => .integerInterval count
  | .categorical weights => .integerInterval (weights.length - 1)
  | .halfCauchy _ => .positive
  | .halfNormal _ => .positive
  | .normal _ _ => .real
  | .studentT _ _ _ => .real
  | .uniform low high => .interval low high

/-- Whether the values are isolated points. -/
def isDiscrete (d : Distribution) : Bool := d.support.isDiscrete

end Distribution

end Stochastic
