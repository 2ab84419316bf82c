/-!
# The logarithm of the gamma function

A series approximation, with the functions that densities build from it.

## Main definitions

* `lnGamma`, `lnBeta`, `lnChoose` — logarithms of the gamma and beta functions and
  of binomial coefficients.
* `xlogy` — a product with a logarithm, zero at zero.
-/

namespace Stochastic.Special

/-- The ratio of a circle's circumference to its diameter. -/
def pi : Float := 3.141592653589793

/-- The natural logarithm of two. -/
def ln2 : Float := 0.6931471805599453

/-- The leading coefficient of the series. -/
def leadingCoefficient : Float := 0.9999999999998099

/-- The coefficients of the series behind the leading one. -/
def coefficients : List Float :=
  [676.5203681218851, -1259.1392167224028, 771.3234287776531, -176.6150291621406,
    12.507343278686905, -0.13857109526572012, 9.984369578019572e-6, 1.5056327351493116e-7]

/-- The series at `x`: the coefficient of index `i` stands over `x + i + 1`. -/
def series (x : Float) : Float :=
  coefficients.zipIdx.foldl
    (fun sum c => sum + c.1 / (x + Float.ofNat c.2 + 1.0)) leadingCoefficient

/-- The logarithm of the gamma function from one half on. -/
def lnGammaUpper (x : Float) : Float :=
  let x := x - 1.0
  let t := x + 7.0 + 0.5
  0.5 * (2.0 * pi).log + (x + 0.5) * t.log - t + (series x).log

/-- The logarithm of the gamma function, by reflection below one half. -/
def lnGamma (x : Float) : Float :=
  if x < 0.5 then (pi / (pi * x).sin).log - lnGammaUpper (1.0 - x) else lnGammaUpper x

/-- The logarithm of the beta function. -/
def lnBeta (a b : Float) : Float := lnGamma a + lnGamma b - lnGamma (a + b)

/-- The logarithm of a binomial coefficient. -/
def lnChoose (n k : Float) : Float :=
  lnGamma (n + 1.0) - lnGamma (k + 1.0) - lnGamma (n - k + 1.0)

/-- `x` times the logarithm of `y`, zero if `x` is. -/
def xlogy (x y : Float) : Float := if x == 0 then 0 else x * y.log

end Stochastic.Special
