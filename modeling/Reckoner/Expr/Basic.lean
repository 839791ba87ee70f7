import Reckoner.Scalar

/-!
# Expressions

The tree of an expression: numbers and names joined by binary operators, signs, calls and conversions
to a unit. A juxtaposition such as `10 km` is a multiplication like any other.
-/

namespace Reckoner

/-- The binary operators. Together with the kinds of the operands one selects a rule. -/
inductive Operator where
  | equal
  | notEqual
  | less
  | lessEqual
  | greater
  | greaterEqual
  | add
  | subtract
  | multiply
  | divide
  | modulo
  | power
deriving DecidableEq, Repr

namespace Operator

/-- The name of an operator in messages. -/
def name : Operator → String
  | equal => "equal"
  | notEqual => "unequal"
  | less => "smaller"
  | lessEqual => "smallerEq"
  | greater => "larger"
  | greaterEqual => "largerEq"
  | add => "add"
  | subtract => "subtract"
  | multiply => "multiply"
  | divide => "divide"
  | modulo => "mod"
  | power => "pow"

/-- All operators, in the order in which they are listed. -/
def all : List Operator :=
  [equal, notEqual, less, lessEqual, greater, greaterEqual, add, subtract, multiply, divide, modulo,
    power]

end Operator

/-- A sign in front of an operand. -/
inductive Sign where
  | plus
  | minus
deriving DecidableEq, Repr

/-- One factor of the target of a conversion, such as `s ^ 2` in `to m / s ^ 2`. -/
structure UnitPower where
  name : String
  power : Int
deriving DecidableEq, Repr

/-- An expression whose numbers are of type `K`. -/
inductive Expr (K : Type) where
  | number (value : K)
  | symbol (name : String)
  | binary (op : Operator) (left right : Expr K)
  | signed (sign : Sign) (operand : Expr K)
  | call (callee : Expr K) (args : List (Expr K))
  | convert (value : Expr K) (target : List UnitPower)
deriving Repr

namespace Expr

variable {K : Type}

/-- Whether an argument list may follow: only names, and the results of calls, can be called, so that
`(2)(3)` is a product. -/
def isCallable : Expr K → Bool
  | symbol _ => true
  | call _ _ => true
  | _ => false

/-- The name that a bare symbol consists of. -/
def symbol? : Expr K → Option String
  | symbol name => some name
  | _ => none

mutual

/-- The number of nodes on the longest path from the root to a leaf. -/
def height : Expr K → Nat
  | number _ => 1
  | symbol _ => 1
  | binary _ left right => max left.height right.height + 1
  | signed _ operand => operand.height + 1
  | call callee args => max callee.height (heights args) + 1
  | convert value _ => value.height + 1

/-- The greatest height among some expressions; zero if there are none. -/
def heights : List (Expr K) → Nat
  | [] => 0
  | e :: es => max e.height (heights es)

end

end Expr

end Reckoner
