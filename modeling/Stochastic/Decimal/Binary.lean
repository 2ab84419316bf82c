/-!
# Floats as exact numbers

A finite float is an integer multiple of a power of two.  This module takes a
float apart into sign, mantissa and exponent, so that everything said about its
decimal text is said about natural numbers.

## Main definitions

* `Parts`, `parts` — sign, mantissa and binary exponent of a finite float.
* `Parts.numerator`, `Parts.denominator` — its size as a fraction.
* `isIntegral` — whether a float is a whole number.
-/

namespace Stochastic.Decimal

/-- A finite float taken apart: its size is `mantissa * 2 ^ exponent`. -/
structure Parts where
  negative : Bool
  mantissa : Nat
  exponent : Int
  deriving DecidableEq, Repr

/-- The parts of a finite float, read off its bits: a zero exponent field means
that the leading bit of the mantissa is not implied. -/
def parts (x : Float) : Parts :=
  let bits := x.toBits.toNat
  let field : Nat := bits / Nat.pow 2 52 % Nat.pow 2 11
  let fraction := bits % Nat.pow 2 52
  { negative := bits / Nat.pow 2 63 == 1
    mantissa := if field = 0 then fraction else fraction + Nat.pow 2 52
    exponent := if field = 0 then -1074 else (field : Int) - 1075 }

/-- Numerator of the size. -/
def Parts.numerator (p : Parts) : Nat := p.mantissa * Nat.pow 2 p.exponent.toNat

/-- Denominator of the size, a power of two. -/
def Parts.denominator (p : Parts) : Nat := Nat.pow 2 (-p.exponent).toNat

theorem Parts.denominator_pos (p : Parts) : 0 < p.denominator :=
  Nat.two_pow_pos _

/-- Whether a float is a finite whole number. -/
def isIntegral (x : Float) : Bool :=
  x.isFinite && (parts x).numerator % (parts x).denominator == 0

end Stochastic.Decimal
