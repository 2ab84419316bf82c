/-!
# Decimal numerals

A numeral is the written form of a number: sign, digits before and after the
point, and an exponent.  It is what a number is between its text and its value.

## Main definitions

* `Numeral`, `Numeral.text`, `Numeral.ofChars?` — a numeral, its text, and the
  numeral that a text spells.
* `Numeral.toInt?` — the value of a numeral that is written as an integer.
* `Numeral.toFloat?` — its value as a float.
-/

namespace Stochastic.Decimal

/-- A number as it is written.  The fraction is empty if no point is written;
the exponent holds what stands behind the `e`, with its sign. -/
structure Numeral where
  negative : Bool
  whole : List Char
  fraction : List Char
  exponent : Option (List Char)
  deriving DecidableEq, Repr

namespace Numeral

/-- The characters of a numeral. -/
def chars (n : Numeral) : List Char :=
  (if n.negative then ['-'] else []) ++ n.whole ++
    (if n.fraction.isEmpty then [] else '.' :: n.fraction) ++
    (match n.exponent with
      | none => []
      | some e => 'e' :: e)

/-- The text of a numeral. -/
def text (n : Numeral) : String := String.ofList n.chars

/-- The numeral of an integer. -/
def ofInt (i : Int) : Numeral :=
  ⟨decide (i < 0), Nat.toDigits 10 i.natAbs, [], none⟩

/-! ## Reading a numeral

A minus sign, digits without a needless leading zero, then a point with at least
one digit, then an `e` or `E` with an optional sign and at least one digit. -/

/-- Splits the part behind the whole digits into fraction and the rest; none if
a point is followed by no digit. -/
def splitFraction : List Char → Option (List Char × List Char)
  | '.' :: cs =>
    let ds := cs.takeWhile Char.isDigit
    if ds.isEmpty then none else some (ds, cs.dropWhile Char.isDigit)
  | cs => some ([], cs)

/-- Reads the exponent, which must end the numeral. -/
def splitExponent : List Char → Option (Option (List Char))
  | [] => some none
  | c :: cs =>
    if c = 'e' ∨ c = 'E' then
      let ds := match cs with
        | '+' :: ds => ds
        | '-' :: ds => ds
        | ds => ds
      if ds.isEmpty || !ds.all Char.isDigit then none else some (some cs)
    else none

/-- The numeral that the characters spell, if they spell one. -/
def ofChars? (cs : List Char) : Option Numeral := do
  let (negative, cs) := match cs with
    | '-' :: cs => (true, cs)
    | cs => (false, cs)
  let whole := cs.takeWhile Char.isDigit
  if whole.isEmpty || (whole.length != 1 && whole.head? == some '0') then none
  let (fraction, cs) ← splitFraction (cs.dropWhile Char.isDigit)
  let exponent ← splitExponent cs
  return ⟨negative, whole, fraction, exponent⟩

/-! ## The value of a numeral -/

/-- The value of a decimal digit. -/
def digitValue (c : Char) : Nat := c.toNat - '0'.toNat

/-- The value of a run of digits. -/
def digitsValue (ds : List Char) : Nat :=
  ds.foldl (fun n c => 10 * n + digitValue c) 0

/-- The value of a numeral written as an integer: no point, no exponent.  A
negative zero is not an integer. -/
def toInt? (n : Numeral) : Option Int :=
  if n.fraction.isEmpty && n.exponent.isNone then
    let v := digitsValue n.whole
    if n.negative then (if v = 0 then none else some (-(v : Int))) else some v
  else none

/-- The largest significand: numerals are read with 64 bits of precision. -/
def significandLimit : Nat := Nat.pow 2 64 - 1

/-- Appends digits to a significand while it stays within 64 bits, and counts
those appended. -/
def absorb (significand : Nat) : List Char → Nat × Nat
  | [] => (significand, 0)
  | c :: cs =>
    let next := 10 * significand + digitValue c
    if next ≤ significandLimit then
      let (s, taken) := absorb next cs
      (s, taken + 1)
    else (significand, 0)

/-- Divides by a power of ten, in steps of at most `10 ^ 308`. -/
def scaleDown (x : Float) (e : Nat) : Float :=
  if e ≤ 308 then x / Float.ofScientific 1 false e
  else if x == 0 then x
  else scaleDown (x / Float.ofScientific 1 false 308) (e - 308)
termination_by e

/-- Multiplies by `10 ^ e`; none if the result is too large for a float. -/
def scale? (x : Float) (e : Int) : Option Float :=
  if e < 0 then some (scaleDown x e.natAbs)
  else if x == 0 then some x
  else if e ≤ 308 then
    let y := x * Float.ofScientific 1 false e.toNat
    if y.isInf then none else some y
  else none

/-- The exponent written behind the `e`, none if it does not fit in 31 bits. -/
def exponentValue? (cs : List Char) : Option Int :=
  let (negative, ds) := match cs with
    | '-' :: ds => (true, ds)
    | '+' :: ds => (false, ds)
    | ds => (false, ds)
  let v := digitsValue ds
  if v < Nat.pow 2 31 then some (if negative then -(v : Int) else v) else none

/-- Whether the exponent carries a minus sign. -/
def exponentNegative (cs : List Char) : Bool := cs.head? == some '-'

/-- The value of a numeral as a float: the leading digits that fit in 64 bits
are rounded to a float, which is then scaled by a power of ten.  Whole digits
beyond those count as zeros and fraction digits beyond those are dropped.  None
if the value is too large. -/
def toFloat? (n : Numeral) : Option Float := do
  let (s, taken) := absorb 0 n.whole
  let (s, places) := absorb s n.fraction
  let shift : Int := (n.whole.length - taken : Nat) - (places : Int)
  let size ← match n.exponent with
    | none => scale? (Float.ofNat s) shift
    | some e =>
      match exponentValue? e with
      | some v => scale? (Float.ofNat s) (shift + v)
      | none => if s = 0 || exponentNegative e then some 0 else none
  return if n.negative then -size else size

end Numeral

end Stochastic.Decimal
