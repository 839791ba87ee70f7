import Reckoner.Table
import Reckoner.Value.Basic

/-!
# Built-in functions

A built-in function takes a list of values and checks their number and kinds itself. The functions that
are known by name form a table, in which a later definition replaces an earlier one.
-/

namespace Reckoner

/-- What a built-in function does. -/
abbrev BuiltinFunction (K : Type) := List (Value K) → Except EvalError (Value K)

/-- The built-in functions by name. -/
abbrev Functions (K : Type) := Table String (BuiltinFunction K)

/-- Calls the function of a name. -/
def Functions.call {K : Type} (functions : Functions K) (name : String) (args : List (Value K)) :
    Except EvalError (Value K) :=
  match functions.get? name with
  | some f => f args
  | none => .error (.notCallable name)

namespace Functions

variable {K : Type}

/-- The number that an argument is. -/
def expectNumber (name : String) : Value K → Except EvalError K
  | .number x => .ok x
  | v => .error (.invalidArgument (.notNumber name v.kind))

/-- The only argument, if there is exactly one. -/
def expectOne (name : String) : List (Value K) → Except EvalError (Value K)
  | [v] => .ok v
  | args => .error (.arity name (.exactly 1) args.length)

variable [Scalar K]

/-- A function of one number. -/
def numeric (name : String) (f : K → K) : BuiltinFunction K := fun args ↦ do
  let v ← expectOne name args
  .ok (.ofNumber (f (← expectNumber name v)))

/-- A function of an angle, given as a number of radians or as a quantity. -/
def ofAngle (name : String) (f : K → K) : BuiltinFunction K := fun args ↦ do
  match ← expectOne name args with
  | .number x => .ok (.ofNumber (f x))
  | .quantity q =>
    if q.dimension = .base .angle then .ok (.ofNumber (f q.base))
    else .error (.invalidArgument (.notAngle name .quantity))
  | v => .error (.invalidArgument (.notAngle name v.kind))

/-- Applies a function to a number, or to the value of a quantity in its own units. -/
def mapMagnitude (name : String) (f : K → K) : Value K → Except EvalError (Value K)
  | .number x => .ok (.ofNumber (f x))
  | .quantity q => .ok (.ofQuantity (.ofValue (f q.value) q.units))
  | v => .error (.invalidArgument (.notMagnitude name v.kind))

/-- A function of one number or of one quantity in its own units. -/
def ofMagnitude (name : String) (f : K → K) : BuiltinFunction K := fun args ↦ do
  mapMagnitude name f (← expectOne name args)

/-! ### Aggregates -/

/-- Folds the base values of quantities that have the dimension of the first one. -/
def foldQuantities (name : String) (f : K → K → K) (first : Quantity K) :
    K → List (Value K) → Except EvalError K
  | acc, [] => .ok acc
  | acc, .quantity q :: rest => do
    first.ensureSameDimension q
    foldQuantities name f first (f acc q.base) rest
  | _, v :: _ => .error (.invalidArgument (.mixed name v.kind))

/-- Folds numbers, or quantities of one dimension by their base values. A result with units is shown
in the units of the first argument. -/
def aggregate (name : String) (f : K → K → K) : BuiltinFunction K
  | [] => .error (.arity name (.atLeast 1) 0)
  | .number x :: rest => do
    let total ← rest.foldlM (fun acc v ↦ return f acc (← expectNumber name v)) x
    .ok (.ofNumber total)
  | .quantity q :: rest => do
    let total ← foldQuantities name f q q.base rest
    .ok (.ofQuantity (q.withBase total))
  | v :: _ => .error (.invalidArgument (.notAggregate name v.kind))

/-- The smallest argument. -/
def minimum : BuiltinFunction K := aggregate "min" fun acc x ↦ if Scalar.lt x acc then x else acc

/-- The largest argument. -/
def maximum : BuiltinFunction K := aggregate "max" fun acc x ↦ if Scalar.lt acc x then x else acc

/-- The sum of the arguments. -/
def sum : BuiltinFunction K := aggregate "sum" (· + ·)

/-- The sum of the arguments divided by their number. -/
def mean : BuiltinFunction K := fun args ↦ do
  let count : K := Scalar.ofInt args.length
  match ← aggregate "mean" (· + ·) args with
  | .number x => .ok (.ofNumber (x / count))
  | .quantity q => .ok (.ofQuantity (q.withBase (q.base / count)))
  | v => .ok v

end Functions

end Reckoner
