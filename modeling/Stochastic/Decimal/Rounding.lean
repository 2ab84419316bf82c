import Stochastic.Decimal.Binary

/-!
# Decimal text with a given number of places

Rounding is that of the exact value, to the nearest decimal of the wanted form.
Which way a tie goes is a `Tie`; text with a given number of places takes the
even neighbour.

## Main definitions

* `Tie` — which of two equally near naturals is taken.
* `roundDiv` — a quotient of naturals rounded to a natural.
* `fixed` — a float with a given number of places after the point.
* `scientific` — a float with one digit before the point and an exponent.

## Main results

* `roundDiv_near` — a rounded quotient is within half a unit of the exact one.
* `roundDiv_tie` — half way between two naturals the tie rule decides.
-/

namespace Stochastic.Decimal

/-- Which of two neighbouring naturals a number half way between them becomes. -/
inductive Tie where
  /-- The even one. -/
  | even
  /-- The greater one. -/
  | up
  deriving DecidableEq, Repr

/-- The natural that is taken half way between `q` and `q + 1`. -/
def Tie.choose : Tie → Nat → Nat
  | .even, q => if q % 2 = 0 then q else q + 1
  | .up, q => q + 1

/-- The even neighbour is even. -/
theorem Tie.choose_even_mod_two (q : Nat) : Tie.even.choose q % 2 = 0 := by
  simp only [Tie.choose]
  split <;> omega

/-- Only the two neighbours are taken. -/
theorem Tie.choose_eq_or (t : Tie) (q : Nat) : t.choose q = q ∨ t.choose q = q + 1 := by
  cases t with
  | even => simp only [Tie.choose]; split <;> simp
  | up => exact .inr rfl

/-- `num / den` rounded to the nearest natural. -/
def roundDiv (tie : Tie) (num den : Nat) : Nat :=
  let q := num / den
  let r := num % den
  if 2 * r < den then q
  else if den < 2 * r then q + 1
  else tie.choose q

/-- A rounded quotient is within half a unit of the exact one. -/
theorem roundDiv_near (tie : Tie) (num den : Nat) (h : 0 < den) :
    2 * num ≤ (2 * roundDiv tie num den + 1) * den ∧
      2 * roundDiv tie num den * den ≤ 2 * num + den := by
  have hdiv := Nat.div_add_mod num den
  have hmod := Nat.mod_lt num h
  simp only [roundDiv]
  generalize num / den = q at *
  generalize num % den = r at *
  have hq : (2 * q + 1) * den = 2 * (den * q) + den := by
    rw [Nat.add_mul, Nat.one_mul, Nat.mul_assoc, Nat.mul_comm q den]
  have hq' : (2 * (q + 1) + 1) * den = 2 * (den * q) + 3 * den := by
    rw [show 2 * (q + 1) + 1 = 2 * q + 1 + 2 by omega, Nat.add_mul, hq]
    omega
  have hd : 2 * q * den = 2 * (den * q) := by
    rw [Nat.mul_assoc, Nat.mul_comm q den]
  have hd' : 2 * (q + 1) * den = 2 * (den * q) + 2 * den := by
    rw [Nat.mul_add, Nat.add_mul, hd]
  split
  · rw [hq, hd]; omega
  · split
    · rw [hq', hd']; omega
    · rcases tie.choose_eq_or q with ht | ht
      · rw [ht, hq, hd]; omega
      · rw [ht, hq', hd']; omega

/-- Half way between two naturals the tie rule decides. -/
theorem roundDiv_tie (tie : Tie) (num den : Nat) (h : 2 * (num % den) = den) :
    roundDiv tie num den = tie.choose (num / den) := by
  simp only [roundDiv]
  rw [if_neg (by omega), if_neg (by omega)]

/-- The decimal digits of `n`, with zeros in front up to `width` digits. -/
def padded (width n : Nat) : List Char :=
  let ds := Nat.toDigits 10 n
  List.replicate (width - ds.length) '0' ++ ds

/-- The sign of a float as it is written in front of its digits. -/
def signText (negative : Bool) : String := if negative then "-" else ""

/-- A finite float with `places` digits after the point, and no point if there
are none.  The sign of a zero is written. -/
def fixed (places : Nat) (x : Float) : String :=
  let p := parts x
  let n := roundDiv .even (p.numerator * Nat.pow 10 places) p.denominator
  let whole := String.ofList (Nat.toDigits 10 (n / Nat.pow 10 places))
  let rest := if places = 0 then "" else "." ++ String.ofList (padded places (n % Nat.pow 10 places))
  signText p.negative ++ whole ++ rest

/-- How many decimal digits `n` has; zero has one. -/
def digitCount (n : Nat) : Nat := (Nat.toDigits 10 n).length

/-- The exponent of the leading decimal digit of `num / den`, for a positive
fraction: the greatest `e` with `10 ^ e ≤ num / den`. -/
def leadingExponent (num den : Nat) : Int :=
  if den ≤ num then (digitCount (num / den) : Int) - 1
  else -(digitCount ((den + num - 1) / num - 1) : Int)

/-- A positive fraction times `10 ^ e`, as a fraction. -/
def scaleTen (num den : Nat) (e : Int) : Nat × Nat :=
  (num * Nat.pow 10 e.toNat, den * Nat.pow 10 (-e).toNat)

/-- A finite float with one digit before the point, `places` digits after it,
and the exponent behind an `e`. -/
def scientific (places : Nat) (x : Float) : String :=
  let p := parts x
  if p.mantissa = 0 then
    let zeros := String.ofList (List.replicate places '0')
    signText p.negative ++ (if places = 0 then "0" else "0." ++ zeros) ++ "e0"
  else
    let e := leadingExponent p.numerator p.denominator
    let (num, den) := scaleTen p.numerator p.denominator ((places : Int) - e)
    let n := roundDiv .even num den
    -- Rounding up to the next power of ten moves the point by one.
    let (n, e) := if n = Nat.pow 10 (places + 1) then (n / 10, e + 1) else (n, e)
    let ds := Nat.toDigits 10 n
    let mantissa := String.ofList (ds.take 1) ++
      (if places = 0 then "" else "." ++ String.ofList (ds.drop 1))
    signText p.negative ++ mantissa ++ "e" ++ toString e

end Stochastic.Decimal
