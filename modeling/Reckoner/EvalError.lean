import Reckoner.Expr.Basic
import Reckoner.Value.Kind

/-!
# Evaluation errors

Why a line that has been read yields no value. Errors are causes; their wording is one function.
-/

namespace Reckoner

/-- How many arguments a function takes. -/
inductive Arity where
  | exactly (count : Nat)
  | between (low high : Nat)
  | atLeast (count : Nat)
deriving DecidableEq, Repr

namespace Arity

/-- Whether the number of arguments is right. -/
def accepts : Arity → Nat → Bool
  | exactly count, given => given == count
  | between low high, given => low ≤ given && given ≤ high
  | atLeast count, given => count ≤ given

/-- The arity as messages write it. -/
def text : Arity → String
  | exactly count => toString count
  | between low high => s!"{low} to {high}"
  | atLeast count => s!"at least {count}"

end Arity

/-- What is wrong with an argument or an operand. Numbers are given as text. -/
inductive ArgumentFault where
  /-- The exponent of a quantity is no small whole number. -/
  | unitExponent (given : String)
  /-- A value of this kind has no sign. -/
  | sign (given : Kind)
  | notNumber (function : String) (given : Kind)
  | roundDigits (given : String)
  | notAngle (function : String) (given : Kind)
  | notMagnitude (function : String) (given : Kind)
  /-- A value among quantities is no quantity. -/
  | mixed (function : String) (given : Kind)
  | notAggregate (function : String) (given : Kind)
deriving DecidableEq, Repr

/-- The message for the user. -/
def ArgumentFault.message : ArgumentFault → String
  | unitExponent given => s!"unit exponent must be a small integer, got {given}"
  | sign given => s!"cannot apply a sign to {given.name}"
  | notNumber function given => s!"{function} expects a number, got {given.name}"
  | roundDigits given => s!"round digits must be an integer between 0 and 15, got {given}"
  | notAngle function given => s!"{function} expects a number or an angle, got {given.name}"
  | notMagnitude function given => s!"{function} expects a number or a quantity, got {given.name}"
  | mixed function given => s!"{function} cannot mix quantities with {given.name}"
  | notAggregate function given => s!"{function} expects numbers or quantities, got {given.name}"

/-- Why evaluation fails. -/
inductive EvalError where
  | undefinedSymbol (name : String)
  | unknownUnit (name : String)
  /-- The two sides have different dimensions, or the left one has none. -/
  | unitMismatch (left right : String)
  /-- The operator has no rule for operands of these kinds. -/
  | noRule (op : Operator) (left right : Kind)
  | divisionByZero
  | arity (function : String) (expected : Arity) (given : Nat)
  | notCallable (what : String)
  | invalidArgument (fault : ArgumentFault)
  | dateOutOfRange
  /-- The line took more steps than the budget allows. -/
  | stepBudgetExceeded (budget : Nat)
  /-- Calls of user functions were nested deeper than the limit. -/
  | callDepthExceeded (limit : Nat)
  /-- An exponent of a dimension or a unit left its range. -/
  | exponentOverflow
deriving DecidableEq, Repr

/-- The message for the user. -/
def EvalError.message : EvalError → String
  | undefinedSymbol name => s!"undefined symbol {name}"
  | unknownUnit name => s!"unknown unit {name}"
  | unitMismatch left right => s!"units {left} and {right} do not match"
  | noRule op left right => s!"no rule for {op.name}({left.name}, {right.name})"
  | divisionByZero => "division by zero"
  | arity function expected given => s!"{function} expects {expected.text} argument(s), got {given}"
  | notCallable what => s!"{what} is not a function"
  | invalidArgument fault => s!"invalid argument: {fault.message}"
  | dateOutOfRange => "date out of range"
  | stepBudgetExceeded budget => s!"evaluation exceeded the budget of {budget} steps"
  | callDepthExceeded limit => s!"function calls nested deeper than {limit}"
  | exponentOverflow => "unit exponent out of range"

end Reckoner
