import Stochastic.Distribution.Build
import Stochastic.World.Program

/-!
# A language for generating programs

Programs of random variables can be written as expressions.  An expression computes a
number from the variable's own arguments and from other variables; a body computes a
distribution.

## Main definitions

* `Expr`, `ArgExpr`, `Body` — the language.
* `Expr.eval`, `Body.eval` — the program that an expression or a body stands for.
* `Model.ofBodies` — the model of a table of bodies.
-/

namespace Stochastic

mutual
/-- An expression for a number. -/
inductive Expr where
  | number (x : Float)
  /-- The value of another variable, which must have a single element. -/
  | item (name : String) (args : List ArgExpr)
  /-- The sum of the elements of another variable. -/
  | sum (name : String) (args : List ArgExpr)
  /-- An argument of the variable itself; `otherwise` if it is missing or a text. -/
  | arg (index : Nat) (otherwise : Expr)
  | add (a b : Expr)
  | sub (a b : Expr)
  | mul (a b : Expr)
  | abs (a : Expr)
  /-- One of two expressions, depending on which of two numbers is less. -/
  | ifLess (a b yes no : Expr)
  /-- What is not an expression. -/
  | malformed
/-- An expression for an argument of another variable. -/
inductive ArgExpr where
  | literal (a : Arg)
  /-- An argument of the variable itself. -/
  | own (index : Nat)
  | float (e : Expr)
  /-- A number, cut off towards zero and confined to 64 bits. -/
  | int (e : Expr)
  /-- What is not an argument. -/
  | malformed
end

/-- A parameter of a distribution. -/
inductive ParamExpr where
  | expr (e : Expr)
  /-- A natural number, which is exact as a count. -/
  | count (n : Nat)

/-- An expression for a distribution. -/
inductive Body where
  | law (name : String) (params : List ParamExpr)
  | ifLess (a b : Expr) (yes no : Body)
  | fail (message : String)
  /-- What is not a body. -/
  | malformed

/-- Fails with a message, in the name of the variable that is being generated. -/
def Program.failWith {α : Type} (self : Ident) (message : String) : Program α :=
  .fail (.model self message)

mutual
/-- The program that an expression stands for in a variable's own program. -/
def Expr.eval (self : Ident) : Expr → Program Float
  | .number x => return x
  | .item name args => do
    let args ← ArgExpr.evalAll self args
    Program.readItem ⟨name, args⟩
  | .sum name args => do
    let args ← ArgExpr.evalAll self args
    return (← Program.read ⟨name, args⟩).sum
  | .arg index otherwise =>
    match (self.args[index]?).bind Arg.toFloat? with
    | some x => return x
    | none => otherwise.eval self
  | .add a b => return (← a.eval self) + (← b.eval self)
  | .sub a b => return (← a.eval self) - (← b.eval self)
  | .mul a b => return (← a.eval self) * (← b.eval self)
  | .abs a => return (← a.eval self).abs
  | .ifLess a b yes no => do
    let x ← a.eval self
    let y ← b.eval self
    if x < y then yes.eval self else no.eval self
  | .malformed => .failWith self "malformed"
/-- The argument that an expression stands for. -/
def ArgExpr.eval (self : Ident) : ArgExpr → Program Arg
  | .literal a => return a
  | .own index =>
    match self.args[index]? with
    | some a => return a
    | none => .failWith self "missing argument"
  | .float e => return .float (← e.eval self)
  | .int e => return .int (← e.eval self).toInt64.toInt
  | .malformed => .failWith self "malformed"
/-- The arguments that expressions stand for, from left to right. -/
def ArgExpr.evalAll (self : Ident) : List ArgExpr → Program (List Arg)
  | [] => return []
  | e :: es => do
    let a ← e.eval self
    let as ← ArgExpr.evalAll self es
    return a :: as
end

/-- The parameter that an expression stands for. -/
def ParamExpr.eval (self : Ident) : ParamExpr → Program Parameter
  | .expr e => return .ofFloat (← e.eval self)
  | .count n => return .ofNat n

/-- The program that a body stands for.  Whether there is such a distribution is found out
after its parameters have been computed. -/
def Body.eval (self : Ident) : Body → Program Distribution
  | .law name params => do
    let ps ← params.mapM (ParamExpr.eval self)
    match Distribution.ofParameters? name ps with
    | some d => return d
    | none => .failWith self "malformed"
  | .ifLess a b yes no => do
    let x ← a.eval self
    let y ← b.eval self
    if x < y then yes.eval self else no.eval self
  | .fail message => .failWith self message
  | .malformed => .failWith self "malformed"

/-- The model in which the variables of each name have one body; fresh values are drawn at
the centre of their distributions. -/
def Model.ofBodies (bodies : List (String × Body)) : Model where
  program n :=
    match bodies.lookup n.name with
    | some body => body.eval n
    | none => .failWith n "undefined"
  sampler := .concentrated

end Stochastic
