import Reckoner.Date.Basic
import Reckoner.Expr.Basic
import Reckoner.Units.Quantity
import Reckoner.Value.Kind

/-!
# Values

What a line evaluates to. The results of operations pass through `ofNumber` and `ofQuantity`, which
turn an undefined number into an error value, so that it is shown as such.
-/

namespace Reckoner

/-- A function that a line has defined. -/
structure UserFunction (K : Type) where
  name : String
  params : List String
  body : Expr K
deriving Repr

/-- Something that can be called. -/
inductive Callable (K : Type) where
  | builtin (name : String)
  | user (function : UserFunction K)
deriving Repr

namespace Callable

variable {K : Type}

/-- The name of the function. -/
def name : Callable K → String
  | builtin name => name
  | user function => function.name

/-- The function with its parameters, as far as it has names for them. -/
def text : Callable K → String
  | builtin name => s!"{name}(...)"
  | user function => function.name ++ "(" ++ ", ".intercalate function.params ++ ")"

end Callable

/-- The value of a line. -/
inductive Value (K : Type) where
  | number (value : K)
  | date (value : Date)
  | quantity (value : Quantity K)
  | function (value : Callable K)
  | undefined
  | error (message : String)
deriving Repr

namespace Value

variable {K : Type}

/-- The error value that stands for an undefined number. -/
def notANumber : Value K := error "not a number"

/-- The value of a numeric result. -/
def ofNumber [Scalar K] (x : K) : Value K := if Scalar.isNaN x then notANumber else number x

/-- The value of a result with units. -/
def ofQuantity [Scalar K] (q : Quantity K) : Value K :=
  if Scalar.isNaN q.base then notANumber else quantity q

/-- The kind of a value. -/
def kind : Value K → Kind
  | number _ => .number
  | date _ => .date
  | quantity _ => .quantity
  | function _ => .function
  | undefined => .undefined
  | error _ => .error

/-- Whether the value is shown beside its line. -/
def isDisplayable : Value K → Bool
  | function _ => false
  | undefined => false
  | _ => true

/-- The number that a value is. -/
def number? : Value K → Option K
  | number x => some x
  | _ => none

end Value

end Reckoner
