/-!
# Totals of floats

Float addition is not associative, so a total is a sum in a fixed order: from the
left, beginning with negative zero, which is the neutral element of float
addition.  The same sums can be taken in other numbers, such as exact ones.

## Main definitions

* `Arithmetic`, `Arithmetic.total` — numbers that are added up in a fixed order.
* `total` — the sum of a list of floats.
-/

namespace Stochastic

/-- What it takes to add up numbers. -/
structure Arithmetic (A : Type) where
  add : A → A → A
  sub : A → A → A
  /-- What a total begins with. -/
  origin : A
  /-- What a balance of gains and losses begins with. -/
  zero : A

namespace Arithmetic

variable {A : Type}

/-- Floats. -/
def float : Arithmetic Float := ⟨(· + ·), (· - ·), -0.0, 0⟩

/-- The sum of a list, added from the left. -/
def total (a : Arithmetic A) (xs : List A) : A := xs.foldl a.add a.origin

/-- Gains less losses, from the left. -/
def balance (a : Arithmetic A) (gains losses : List A) : A :=
  losses.foldl a.sub (gains.foldl a.add a.zero)

end Arithmetic

/-- The sum of a list of floats, added from the left onto negative zero. -/
def total (xs : List Float) : Float := Arithmetic.float.total xs

end Stochastic
