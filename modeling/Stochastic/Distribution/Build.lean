import Stochastic.Distribution.Basic

/-!
# Distributions from parameters

## Main definitions

* `Parameter` — a number given as a parameter.
* `Distribution.ofParameters?` — the distribution of a name with parameters.
-/

namespace Stochastic

/-- A number given as a parameter: its value, and what it is as a count. -/
structure Parameter where
  value : Float
  count : Nat
  deriving Repr, Inhabited

namespace Parameter

/-- A float, which as a count is cut off towards zero and confined to 64 bits. -/
def ofFloat (x : Float) : Parameter := ⟨x, x.toUInt64.toNat⟩

/-- A natural number, which as a count is exact. -/
def ofNat (n : Nat) : Parameter := ⟨Float.ofNat n, n⟩

end Parameter

/-- The distribution of a name with the given parameters, if there is one that has so
many. -/
def Distribution.ofParameters? (name : String) (ps : List Parameter) : Option Distribution :=
  match name, ps with
  | "Bernoulli", [p] => some (.bernoulli p.value)
  | "Beta", [a, b] => some (.beta a.value b.value)
  | "Binomial", [n, p] => some (.binomial n.count p.value)
  | "Categorical", ws => some (.categorical (ws.map Parameter.value))
  | "HalfCauchy", [scale] => some (.halfCauchy scale.value)
  | "HalfNormal", [scale] => some (.halfNormal scale.value)
  | "Normal", [loc, scale] => some (.normal loc.value scale.value)
  | "StudentT", [df, loc, scale] => some (.studentT df.value loc.value scale.value)
  | "Uniform", [low, high] => some (.uniform low.value high.value)
  | _, _ => none

end Stochastic
