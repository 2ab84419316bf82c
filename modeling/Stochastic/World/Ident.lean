import Stochastic.Decimal.Shortest
import Stochastic.Tensor.Key
import Stochastic.Text.Quoted

/-!
# Identifiers of random variables

A random variable is identified by a name and arguments.  Two identifiers are equal if
their keys are: float arguments are compared as numbers, so that both zeros are one
argument, and so are all NaNs.  An identifier keeps the spelling of its arguments, which
equality does not see.

## Main definitions

* `Arg`, `Ident` — arguments and identifiers.
* `Ident.key` — what equality of identifiers compares.
* `Ident.text` — the written form.
* `Arg.compareList` — an order of argument lists.
-/

namespace Stochastic

/-- An argument of a random variable. -/
inductive Arg where
  | bool (b : Bool)
  | int (i : Int)
  | float (x : Float)
  | text (s : String)
  deriving Repr, Inhabited

namespace Arg

/-- What equality of arguments compares. -/
inductive Key where
  | bool (b : Bool)
  | int (i : Int)
  | float (bits : UInt64)
  | text (s : String)
  deriving DecidableEq, Repr

/-- The key of an argument. -/
def key : Arg → Key
  | .bool b => .bool b
  | .int i => .int i
  | .float x => .float (floatKey x)
  | .text s => .text s

/-- An argument as a number; a text is none. -/
def toFloat? : Arg → Option Float
  | .bool b => some (if b then 1 else 0)
  | .int i => some (Float.ofInt i)
  | .float x => some x
  | .text _ => none

/-- Float arguments are written with the fewest digits that read back, positionally from
`10 ^ -4` up to `10 ^ 16`; a tie goes away from zero. -/
def floatLayout : Decimal.Layout := ⟨-4, 16, false, .up⟩

/-- A float argument as it is written. -/
def floatText (x : Float) : String :=
  if x.isNaN then "NaN"
  else if x.isInf then (if x > 0 then "inf" else "-inf")
  else (floatLayout.numeral x).text

/-- An argument as it is written. -/
def render : Arg → String
  | .bool b => if b then "true" else "false"
  | .int i => toString i
  | .float x => floatText x
  | .text s => Text.quote s

/-- The order of floats in which a NaN is the greatest and equals itself. -/
def compareFloat (x y : Float) : Ordering :=
  if x.isNaN then (if y.isNaN then .eq else .gt)
  else if y.isNaN then .lt
  else if x < y then .lt
  else if y < x then .gt
  else .eq

/-- Truth values come before integers, these before floats, and these before texts. -/
def rank : Arg → Nat
  | .bool _ => 0
  | .int _ => 1
  | .float _ => 2
  | .text _ => 3

/-- The order of arguments. -/
def compare : Arg → Arg → Ordering
  | .bool a, .bool b => Ord.compare a b
  | .int a, .int b => Ord.compare a b
  | .float a, .float b => compareFloat a b
  | .text a, .text b => Ord.compare a b
  | a, b => Ord.compare a.rank b.rank

/-- The lexicographic order of argument lists. -/
def compareList : List Arg → List Arg → Ordering := List.compareLex compare

end Arg

/-- The identifier of a random variable. -/
structure Ident where
  name : String
  args : List Arg
  deriving Repr, Inhabited

namespace Ident

/-- What equality of identifiers compares. -/
structure Key where
  name : String
  args : List Arg.Key
  deriving DecidableEq, Repr

/-- The key of an identifier. -/
def key (n : Ident) : Key := ⟨n.name, n.args.map Arg.key⟩

instance : BEq Ident := ⟨fun a b => a.key == b.key⟩

/-- Identifiers are equal exactly if their keys are. -/
theorem beq_iff {a b : Ident} : (a == b) = true ↔ a.key = b.key := by
  change (a.key == b.key) = true ↔ _
  simp

instance : EquivBEq Ident where
  rfl := beq_iff.2 rfl
  symm h := beq_iff.2 (beq_iff.1 h).symm
  trans h₁ h₂ := beq_iff.2 ((beq_iff.1 h₁).trans (beq_iff.1 h₂))

/-- An identifier as it is written. -/
def text (n : Ident) : String := n.name ++ "(" ++ ", ".intercalate (n.args.map Arg.render) ++ ")"

/-- The family of random variables with the same name, as it is written. -/
def familyText (n : Ident) : String := "RandomVariable(" ++ n.name ++ ")"

end Ident

end Stochastic
