import Stochastic.Distribution.Density
import Stochastic.OrderedSet
import Stochastic.Transform
import Stochastic.World.Ident

/-!
# Variables

What a world knows of a random variable: its distribution and value, how likely the value
is, which variables it reads and which read it, and its value on the real line.

## Main definitions

* `Variable`, `Variable.create`.
* `Variable.setValue`, `Variable.setUnconstrained`, `Variable.setDistribution`,
  `Variable.setProposal` — changes.
-/

namespace Stochastic

/-- The distribution that a sampler proposes values from. -/
structure ProposalLaw where
  distribution : Distribution
  /-- Whether proposed values lie on the real line and have to be moved back. -/
  needsTransform : Bool
  deriving Inhabited

/-- A random variable of a world. -/
structure Variable where
  distribution : Distribution
  value : Tensor Float
  /-- The log-probability of the value. -/
  logProb : Float
  /-- The variables that this one reads. -/
  parents : OrderedSet Ident
  /-- The variables that read this one. -/
  children : OrderedSet Ident
  /-- Where proposed values come from, as long as value and distribution stay. -/
  proposal : Option ProposalLaw
  isDiscrete : Bool
  transforms : List Transform
  /-- The value moved to the real line. -/
  unconstrained : Tensor Float
  /-- The log-Jacobian at the value. -/
  jacobian : Float
  deriving Inhabited

namespace Variable

/-- A new variable that nothing reads yet.  Discrete variables are never moved. -/
def create (d : Distribution) (value : Tensor Float) (parents : OrderedSet Ident)
    (transformConstrained : Bool) : Variable :=
  let transforms := if d.isDiscrete then [] else d.support.transforms transformConstrained
  let (unconstrained, jacobian) := Transform.unconstrain transforms value
  { distribution := d
    value
    logProb := d.logProb value
    parents
    children := .empty
    proposal := none
    isDiscrete := d.isDiscrete
    transforms
    unconstrained
    jacobian }

/-- Gives a variable another value. -/
def setValue (v : Variable) (value : Tensor Float) : Variable :=
  let (unconstrained, jacobian) := Transform.unconstrain v.transforms value
  { v with
    value
    unconstrained
    jacobian
    logProb := v.distribution.logProb value
    proposal := none }

/-- Gives a variable the value that a point of the real line stands for. -/
def setUnconstrained (v : Variable) (unconstrained : Tensor Float) : Variable :=
  let (value, jacobian) := Transform.constrain v.transforms unconstrained
  { v with
    value
    unconstrained
    jacobian
    logProb := v.distribution.logProb value
    proposal := none }

/-- Gives a variable another distribution; its transforms stay. -/
def setDistribution (v : Variable) (d : Distribution) : Variable :=
  { v with
    distribution := d
    logProb := d.logProb v.value
    isDiscrete := d.isDiscrete
    proposal := none }

/-- Says where proposed values come from. -/
def setProposal (v : Variable) (d : Distribution) (needsTransform : Bool) : Variable :=
  { v with proposal := some ⟨d, needsTransform⟩ }

end Variable

end Stochastic
