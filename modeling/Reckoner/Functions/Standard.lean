import Reckoner.Decimal.CubeRoot
import Reckoner.Functions.Basic

/-!
# The functions on doubles

The functions that every calculation on doubles can use.
-/

namespace Reckoner.Functions

/-- The logarithm to the base `e`, or to the base that a second argument gives. -/
def logarithm : BuiltinFunction Float
  | [v] => do
    let x ← expectNumber "log" v
    .ok (.ofNumber x.log)
  | [v, b] => do
    let x ← expectNumber "log" v
    let base ← expectNumber "log" b
    .ok (.ofNumber (x.log / base.log))
  | args => .error (.arity "log" (.between 1 2) args.length)

/-- The first argument to the power of the second. -/
def power : BuiltinFunction Float
  | [b, e] => do
    let base ← expectNumber "pow" b
    let exponent ← expectNumber "pow" e
    .ok (.ofNumber (base.pow exponent))
  | args => .error (.arity "pow" (.exactly 2) args.length)

/-- The number of decimal places to round to. -/
def roundDigits (v : Value Float) : Except EvalError Int := do
  let x ← expectNumber "round" v
  match (Scalar.integer? x).filter fun n ↦ 0 ≤ n && n ≤ 15 with
  | some n => .ok n
  | none => .error (.invalidArgument (.roundDigits (Scalar.text x)))

/-- Rounds a number or a quantity to decimal places. -/
def roundTo (digits : Int) (v : Value Float) : Except EvalError (Value Float) :=
  let scale : Float := Scalar.powInt 10 digits
  mapMagnitude "round" (fun x ↦ Double.round (x * scale) / scale) v

/-- Rounds the first argument to a whole number, or to as many decimal places as the second says. -/
def round : BuiltinFunction Float
  | [v] => roundTo 0 v
  | [v, d] => do roundTo (← roundDigits d) v
  | args => .error (.arity "round" (.between 1 2) args.length)

/-- **The built-in functions.** -/
def standard : Functions Float := .ofList
  [("sqrt", numeric "sqrt" Float.sqrt),
    ("cbrt", numeric "cbrt" Double.cubeRoot),
    ("exp", numeric "exp" Float.exp),
    ("log10", numeric "log10" Float.log10),
    ("log2", numeric "log2" Float.log2),
    ("asin", numeric "asin" Float.asin),
    ("acos", numeric "acos" Float.acos),
    ("atan", numeric "atan" Float.atan),
    ("sin", ofAngle "sin" Float.sin),
    ("cos", ofAngle "cos" Float.cos),
    ("tan", ofAngle "tan" Float.tan),
    ("abs", ofMagnitude "abs" Float.abs),
    ("floor", ofMagnitude "floor" Double.floor),
    ("ceil", ofMagnitude "ceil" Double.ceiling),
    ("round", round),
    ("log", logarithm),
    ("pow", power),
    ("min", minimum),
    ("max", maximum),
    ("sum", sum),
    ("mean", mean)]

end Reckoner.Functions
