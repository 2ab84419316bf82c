import Stochastic.Distribution.Basic
import Stochastic.Tensor.Basic

/-!
# Drawing from a distribution

Before a value is drawn the parameters are checked; log-probabilities need no such
check.  Some checks are made here.  Others are left to the source of fresh values, which
may refuse parameters for reasons of its own.

That source is a `Sampler`, which is told how many draws were made before: a stream of
random numbers is one, and so is a function of the distribution alone.

## Main definitions

* `Distribution.fault?`, `Distribution.rejection?` — what is checked here, and what common
  generators of random numbers check.
* `Distribution.check` — whether a distribution can be drawn from.
* `Sampler`, `Sampler.concentrated` — where drawn values come from.
* `Sampler.draw?` — a checked draw.
-/

namespace Stochastic

/-- A parameter that a distribution cannot have. -/
structure ParameterError where
  distribution : String
  reason : String
  deriving DecidableEq, Repr

/-- The text of a parameter error. -/
def ParameterError.message (e : ParameterError) : String :=
  "Invalid parameter for " ++ e.distribution ++ ": " ++ e.reason

/-- The reasons for which a source of fresh values does not take the parameters of a
distribution. -/
abbrev Refusal := Distribution → Option String

namespace Distribution

/-- What is wrong with the order or the sign of the parameters, if anything is. -/
def fault? : Distribution → Option String
  | .halfNormal scale => scaleFault? scale
  | .normal _ scale => scaleFault? scale
  | .studentT _ _ scale => scaleFault? scale
  | .uniform low high => if low < high then none else some "low must be less than high"
  | _ => none
where
  /-- What is wrong with a scale. -/
  scaleFault? (scale : Float) : Option String :=
    if scale > 0 then none else some "scale must be positive"

/-- Why generators of random numbers reject parameters. -/
def rejection? : Refusal
  | .bernoulli p =>
    if 0 ≤ p ∧ p ≤ 1 then none else some "p is outside [0, 1] in Bernoulli distribution"
  | .beta a b =>
    if ¬ a > 0 then some "alpha is not positive in beta distribution"
    else if ¬ b > 0 then some "beta is not positive in beta distribution"
    else none
  | .binomial _ p =>
    if ¬ p ≥ 0 then some "p < 0 or is NaN in binomial distribution"
    else if ¬ p ≤ 1 then some "p > 1 in binomial distribution"
    else none
  | .categorical weights =>
    if weights.isEmpty then some "No weights provided in distribution"
    else if !weights.all fun w => decide (w ≥ 0) then some "A weight is invalid in distribution"
    else if weights.foldl (· + ·) 0 == 0 then some "All weights are zero in distribution"
    else none
  | .halfCauchy scale =>
    if scale > 0 then none else some "scale is not positive in Cauchy distribution"
  | .halfNormal scale => infiniteScale? scale
  | .normal _ scale => infiniteScale? scale
  | .studentT df _ _ =>
    if df > 0 then none
    else some "degrees-of-freedom k is not positive in chi-squared distribution"
  | .uniform _ _ => none
where
  /-- Scales have to be finite. -/
  infiniteScale? (scale : Float) : Option String :=
    if scale.isInf then some "variation parameter is non-finite in (log)normal distribution"
    else none

/-- Whether a distribution can be drawn from.  Faults come before refusals. -/
def check (refusal : Refusal) (d : Distribution) : Except ParameterError Unit :=
  match d.fault?.or (refusal d) with
  | none => .ok ()
  | some reason => .error ⟨d.name, reason⟩

end Distribution

/-- Where drawn values come from: given the number of earlier draws and a
distribution with sound parameters, a value. -/
abbrev Sampler := Nat → Distribution → Tensor Float

namespace Sampler

/-- A value near which a distribution is concentrated, and the only one it takes
if all of it lies in one place. -/
def centre : Distribution → Float
  | .bernoulli p => if p == 1 then 1 else 0
  | .beta _ _ => 0.5
  | .binomial count p => if p == 1 then Float.ofNat count else 0
  | .categorical weights =>
    let heaviest := weights.foldl (fun m w => if m < w then w else m) 0
    Float.ofNat (weights.findIdx fun w => w == heaviest)
  | .halfCauchy scale => scale
  | .halfNormal scale => scale
  | .normal loc _ => loc
  | .studentT _ loc _ => loc
  | .uniform low _ => low

/-- The sampler that draws the centre of every distribution. -/
def concentrated : Sampler := fun _ d => .scalar (centre d)

/-- A draw, after a check of the parameters. -/
def draw? (s : Sampler) (refusal : Refusal) (before : Nat) (d : Distribution) :
    Except ParameterError (Tensor Float) :=
  match d.check refusal with
  | .ok () => .ok (s before d)
  | .error e => .error e

end Sampler

end Stochastic
