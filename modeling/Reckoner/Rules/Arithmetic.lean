import Reckoner.Rules.Basic

/-!
# Rules for numbers and quantities

Numbers and quantities are compared up to a relative tolerance, and so are dates by their milliseconds.
Quantities are added and compared within one dimension only. A product of quantities whose dimension
cancels out is a plain number.

Every rule works on magnitudes in base units, so the units in which a quantity is displayed have no
influence on the result but for its own display.
-/

namespace Reckoner.Rules

variable {K : Type} [Scalar K]

/-- The value of a truth value: one or zero. -/
def truth (b : Bool) : Value K := .number (if b then 1 else 0)

/-- What a comparison says about two numbers; numbers that are nearly equal count as equal. -/
def holds (op : Operator) (a b : K) : Bool :=
  let same := Scalar.nearlyEqual a b
  match op with
  | .equal => same
  | .notEqual => !same
  | .less => Scalar.lt a b && !same
  | .lessEqual => Scalar.lt a b || same
  | .greater => Scalar.lt b a && !same
  | .greaterEqual => Scalar.lt b a || same
  | _ => false

/-- Compares two numbers. -/
def compareNumbers : Handler K
  | op, .number a, .number b => .ok (truth (holds op a b))
  | op, left, right => .error (noRule op left right)

/-- Compares two quantities of one dimension. -/
def compareQuantities : Handler K
  | op, .quantity q, .quantity r => do
    q.ensureSameDimension r
    .ok (truth (holds op q.base r.base))
  | op, left, right => .error (noRule op left right)

/-- Compares two dates by their milliseconds. -/
def compareDates : Handler K
  | op, .date d, .date e =>
    .ok (truth (holds op (Scalar.ofInt d.millis : K) (Scalar.ofInt e.millis)))
  | op, left, right => .error (noRule op left right)

/-- Calculates with two numbers. The remainder takes the sign of the divisor. -/
def calculate : Handler K
  | op, .number a, .number b =>
    match op with
    | .add => .ok (.ofNumber (a + b))
    | .subtract => .ok (.ofNumber (a - b))
    | .multiply => .ok (.ofNumber (a * b))
    | .divide => if b == 0 then .error .divisionByZero else .ok (.ofNumber (a / b))
    | .modulo =>
      if b == 0 then .error .divisionByZero
      else .ok (.ofNumber (a - b * Scalar.floor (a / b)))
    | .power => .ok (.ofNumber (Scalar.pow a b))
    | _ => .error (noRule op (.number a) (.number b))
  | op, left, right => .error (noRule op left right)

/-- Adds or subtracts two quantities of one dimension. -/
def addQuantities : Handler K
  | op, .quantity q, .quantity r => do
    q.ensureSameDimension r
    .ok (.ofQuantity (q.withBase (if op = .subtract then q.base - r.base else q.base + r.base)))
  | op, left, right => .error (noRule op left right)

/-- The value of a product or quotient of quantities, which is a number if it has no dimension. -/
def ofProduct (q : Quantity K) : Value K :=
  if q.dimension.isNone then .ofNumber q.base else .ofQuantity q

/-- Multiplies or divides two quantities. -/
def multiplyQuantities : Handler K
  | op, .quantity q, .quantity r =>
    if op = .divide then
      if r.base == 0 then .error .divisionByZero
      else do .ok (ofProduct ⟨q.base / r.base, ← q.units.div r.units⟩)
    else do .ok (ofProduct ⟨q.base * r.base, ← q.units.mul r.units⟩)
  | op, left, right => .error (noRule op left right)

/-- Multiplies or divides a quantity by a number. -/
def scale (op : Operator) (q : Quantity K) (x : K) : Except EvalError (Value K) :=
  if op = .divide then
    if x == 0 then .error .divisionByZero else .ok (.ofQuantity (q.withBase (q.base / x)))
  else .ok (.ofQuantity (q.withBase (q.base * x)))

/-- Multiplies a quantity and a number in either order, or divides a quantity by a number. -/
def scaleQuantity : Handler K
  | op, .quantity q, .number x => scale op q x
  | op, .number x, .quantity q => scale op q x
  | op, left, right => .error (noRule op left right)

/-- Divides a number by a quantity. -/
def invertQuantity : Handler K
  | _, .number x, .quantity q =>
    if q.base == 0 then .error .divisionByZero
    else do .ok (.ofQuantity ⟨x / q.base, ← q.units.pow (-1)⟩)
  | op, left, right => .error (noRule op left right)

/-- The largest magnitude of an exponent of a quantity. -/
def maxPower : Nat := 64

/-- Raises a quantity to a small integer power. -/
def powerQuantity : Handler K
  | _, .quantity q, .number x =>
    match (Scalar.integer? x).filter (·.natAbs ≤ maxPower) with
    | none => .error (.invalidArgument (.unitExponent (Scalar.text x)))
    | some n =>
      if n = 0 then .ok (.number 1)
      else do .ok (.ofQuantity ⟨Scalar.powInt q.base n, ← q.units.pow n⟩)
  | op, left, right => .error (noRule op left right)

/-- The operators that calculate. -/
def arithmetic : List Operator := [.add, .subtract, .multiply, .divide, .modulo, .power]

/-- The operators that compare. -/
def comparisons : List Operator :=
  [.equal, .notEqual, .less, .lessEqual, .greater, .greaterEqual]

/-- The rules for numbers and quantities, and the comparisons of dates. -/
def arithmeticRules : List (RuleKey × Handler K) :=
  (arithmetic.map fun op ↦ ((op, .number, .number), calculate)) ++
  (comparisons.flatMap fun op ↦
    [((op, .number, .number), compareNumbers),
      ((op, .quantity, .quantity), compareQuantities),
      ((op, .date, .date), compareDates)]) ++
  [((.add, .quantity, .quantity), addQuantities),
    ((.subtract, .quantity, .quantity), addQuantities),
    ((.multiply, .quantity, .quantity), multiplyQuantities),
    ((.divide, .quantity, .quantity), multiplyQuantities),
    ((.multiply, .quantity, .number), scaleQuantity),
    ((.divide, .quantity, .number), scaleQuantity),
    ((.multiply, .number, .quantity), scaleQuantity),
    ((.divide, .number, .quantity), invertQuantity),
    ((.power, .quantity, .number), powerQuantity)]

/-- The table of these rules. -/
def builtin : Rules K := ⟨.ofList arithmeticRules⟩

end Reckoner.Rules
