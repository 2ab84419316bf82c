import Stochastic.Distribution.Basic
import Stochastic.Json.Form
import Stochastic.Tensor.Basic

/-!
# Transforms to the real line

A value that is confined to the positive numbers or to the unit interval is moved
to the whole real line and back.  The Jacobian corrects densities for the move.

## Main definitions

* `Transform`, `Transform.forward`, `Transform.inverse`, `Transform.logJacobian`.
* `Transform.unconstrain`, `Transform.constrain` — a list of transforms, there and
  back.
* `Support.transforms` — the transforms of a support.
-/

namespace Stochastic

/-- A map onto the real line. -/
inductive Transform where
  /-- From the positive numbers. -/
  | log
  /-- From the open unit interval. -/
  | logit
  deriving DecidableEq, Repr, Inhabited

namespace Transform

/-- All transforms. -/
def all : List Transform := [.log, .logit]

/-- The name of a transform. -/
def name : Transform → String
  | .log => "Log"
  | .logit => "Logit"

instance : JsonForm Transform where
  toJson t := .str t.name
  ofJson? := JsonForm.ofName? all name

/-- To the real line. -/
def forward (t : Transform) (x : Float) : Float :=
  match t with
  | .log => x.log
  | .logit => (x / (1.0 - x)).log

/-- Back from the real line. -/
def inverse (t : Transform) (y : Float) : Float :=
  match t with
  | .log => y.exp
  | .logit => 1.0 / (1.0 + (-y).exp)

/-- The logarithm of `1 + u`, exact also where `1 + u` rounds. -/
def logOnePlus (u : Float) : Float :=
  let w := 1.0 + u
  if w == 1 then u
  else if w.isInf then w
  else w.log * (u / (w - 1.0))

/-- The logarithm of `1 + exp x`, without overflow for large `x`. -/
def softplus (x : Float) : Float :=
  (if x > 0 then x else 0) + logOnePlus (-x.abs).exp

/-- The logarithm of the derivative of the way back, at a point of the real
line. -/
def logJacobian (t : Transform) (y : Float) : Float :=
  match t with
  | .log => y
  | .logit => -softplus (-y) - softplus y

/-- The total log-Jacobian of the way back.  Only single transforms have one. -/
def jacobianAt (ts : List Transform) (unconstrained : Tensor Float) : Float :=
  match ts with
  | [t] => total (unconstrained.data.map t.logJacobian)
  | _ => 0

/-- The value on the real line, with the log-Jacobian of the way back. -/
def unconstrain (ts : List Transform) (value : Tensor Float) : Tensor Float × Float :=
  let moved := ts.foldl (fun v t => v.map t.forward) value
  (moved, jacobianAt ts moved)

/-- The value that a point of the real line stands for, with the log-Jacobian. -/
def constrain (ts : List Transform) (unconstrained : Tensor Float) : Tensor Float × Float :=
  (ts.reverse.foldl (fun v t => v.map t.inverse) unconstrained, jacobianAt ts unconstrained)

end Transform

/-- The transforms of values in a support, if they are wanted. -/
def Support.transforms (wanted : Bool) : Support → List Transform
  | .positive => if wanted then [.log] else []
  | .unitInterval => if wanted then [.logit] else []
  | _ => []

end Stochastic
