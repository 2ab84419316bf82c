import Stochastic.Decimal.Numeral
import Stochastic.Decimal.Rounding

/-!
# The fewest digits that read back

Of all decimals that round to a given float, the shortest is written; of two
equally short ones the nearer.  Which of two equally near ones is taken, and how
the digits are laid out, is a `Layout`, chosen where the number is written.

## Main definitions

* `Digits`, `shortest` — the fewest decimal digits that identify a float.
* `Layout`, `Layout.numeral` — from digits to a numeral.
-/

namespace Stochastic.Decimal

/-- The number `digits * 10 ^ exponent`. -/
structure Digits where
  digits : Nat
  exponent : Int
  deriving DecidableEq, Repr

/-- The decimals that read back as a float are those between its two
boundaries, half way to its neighbours, in quarters of the mantissa's unit.  The
lower neighbour of a power of two is nearer. -/
structure Neighbourhood where
  low : Nat
  middle : Nat
  high : Nat
  /-- Whether the boundaries themselves read back as the float. -/
  closed : Bool

/-- The neighbourhood of a float, in units of `2 ^ (exponent - 2)`. -/
def Parts.neighbourhood (p : Parts) : Neighbourhood :=
  let edge := p.mantissa = Nat.pow 2 52 ∧ -1074 < p.exponent
  { low := 4 * p.mantissa - (if edge then 1 else 2)
    middle := 4 * p.mantissa
    high := 4 * p.mantissa + 2
    closed := p.mantissa % 2 = 0 }

/-- Whether `a` lies strictly before `b`, or not after it if ends count. -/
def inOrder (closed : Bool) (a b : Nat) : Bool := if closed then a ≤ b else a < b

/-- The decimal with exponent `k` in the neighbourhood of a float that is
nearest to it, if there is one.  Only the two neighbours of the float on the
grid of multiples of `10 ^ k` can be. -/
def nearestOnGrid (tie : Tie) (p : Parts) (k : Int) : Option Nat :=
  let n := p.neighbourhood
  let unit := p.exponent - 2
  let up := Nat.pow 2 unit.toNat * Nat.pow 10 (-k).toNat
  let den := Nat.pow 2 (-unit).toNat * Nat.pow 10 k.toNat
  let below := n.middle * up / den
  let above := below + 1
  let belowFits := inOrder n.closed (n.low * up) (below * den)
  let aboveFits := inOrder n.closed (above * den) (n.high * up)
  match belowFits, aboveFits with
  | false, false => none
  | true, false => some below
  | false, true => some above
  | true, true => some (roundDiv tie (n.middle * up) den)

/-- The shortest decimal in the neighbourhood with more than `len` digits, trying
`left` further lengths. -/
def shortestFrom (tie : Tie) (p : Parts) (e : Int) : (left len : Nat) → Digits
  | 0, len => ⟨(nearestOnGrid tie p (e - len)).getD 0, e - len⟩
  | left + 1, len =>
    match nearestOnGrid tie p (e - len) with
    | some d => ⟨d, e - len⟩
    | none => shortestFrom tie p e left (len + 1)

/-- Drops trailing zeros, at most `n` of them. -/
def Digits.trim : (n : Nat) → Digits → Digits
  | 0, d => d
  | n + 1, d =>
    if d.digits % 10 = 0 ∧ d.digits ≠ 0 then Digits.trim n ⟨d.digits / 10, d.exponent + 1⟩ else d

/-- The fewest decimal digits that read back as the float, the nearest of those.
Seventeen digits always suffice. -/
def shortest (tie : Tie) (x : Float) : Digits :=
  let p := parts x
  if p.mantissa = 0 then ⟨0, 0⟩
  else (shortestFrom tie p (leadingExponent p.numerator p.denominator) 16 0).trim 17

/-! ## Laying out digits -/

/-- How a number is written: positionally while its leading digit stands at an
exponent in `least ≤ e < limit`, with an exponent otherwise. -/
structure Layout where
  /-- The least exponent written positionally. -/
  least : Int
  /-- The least exponent above those written positionally. -/
  limit : Int
  /-- Whether a positive exponent carries a plus sign. -/
  plus : Bool
  /-- Which of two equally short and equally near decimals is written. -/
  tie : Tie

/-- The numeral of a finite float: at least one digit stands after a point that
no exponent follows. -/
def Layout.numeral (l : Layout) (x : Float) : Numeral :=
  let d := shortest l.tie x
  let ds := Nat.toDigits 10 d.digits
  -- The number is the digits with a point in front, times ten to `point`.
  let point : Int := ds.length + d.exponent
  let e := point - 1
  let negative := (parts x).negative
  if d.digits = 0 then ⟨negative, ['0'], ['0'], none⟩
  else if l.least ≤ e ∧ e < l.limit then
    if point ≤ 0 then
      ⟨negative, ['0'], List.replicate (-point).toNat '0' ++ ds, none⟩
    else if ds.length ≤ point.toNat then
      ⟨negative, ds ++ List.replicate (point.toNat - ds.length) '0', ['0'], none⟩
    else
      ⟨negative, ds.take point.toNat, ds.drop point.toNat, none⟩
  else
    let sign := if e < 0 then ['-'] else if l.plus then ['+'] else []
    ⟨negative, ds.take 1, ds.drop 1, some (sign ++ Nat.toDigits 10 e.natAbs)⟩

end Stochastic.Decimal
