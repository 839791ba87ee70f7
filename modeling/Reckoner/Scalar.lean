import Reckoner.Decimal.Shortest

/-!
# Scalars

The calculator is written over any type of numbers that offers the operations of this class. Doubles
are what it runs on. Over the rational numbers the same definitions describe exact arithmetic, which
is what statements free of rounding are about.

The comparisons `==`, `lt` and `le` are the ones of the number type: for doubles a NaN is equal to
nothing and the two zeros are equal.
-/

namespace Reckoner

/-- **Numbers to calculate with.** -/
class Scalar (K : Type) extends Add K, Sub K, Mul K, Div K, Neg K, BEq K where
  /-- Whether the first number is below the second. -/
  lt : K → K → Bool
  /-- Whether the first number is not above the second. -/
  le : K → K → Bool
  /-- The number nearest to a decimal. -/
  ofDecimal : Decimal → K
  /-- Whether the number stands for the result of an undefined operation. -/
  isNaN : K → Bool
  /-- The integer part of a finite number. -/
  truncate? : K → Option Int
  /-- The largest whole number that is not above the given one. -/
  floor : K → K
  /-- The first number to the power of the second. -/
  pow : K → K → K
  /-- The number written without an exponent. -/
  text : K → String

instance : Scalar Float where
  lt a b := decide (a < b)
  le a b := decide (a ≤ b)
  ofDecimal := Decimal.toFloat
  isNaN := Float.isNaN
  truncate? x := (Double.ofFloat x).truncate?
  floor := Double.floor
  pow := Float.pow
  text := Double.plainText

namespace Scalar

variable {K : Type} [Scalar K]

/-- The number nearest to an integer. -/
def ofInt : Int → K
  | .ofNat n => ofDecimal ⟨n, 0⟩
  | .negSucc n => -ofDecimal ⟨n + 1, 0⟩

instance (priority := low) : OfNat K n where
  ofNat := ofDecimal ⟨n, 0⟩

instance (priority := low) : OfScientific K where
  ofScientific mantissa negative exponent :=
    ofDecimal ⟨mantissa, if negative then -(exponent : Int) else exponent⟩

/-- Whether the number is neither infinite nor undefined. -/
def isFinite (x : K) : Bool := (truncate? x).isSome

/-- The integer that the number is, if it is one. -/
def integer? (x : K) : Option Int := (truncate? x).filter fun n ↦ ofInt n == x

/-- The distance from zero, up to the sign of zero. -/
def magnitude (x : K) : K := if lt x 0 then -x else x

/-- **Repeated squaring.** The product of `acc` and `base` to the power `n`; the base is squared only
when a further bit of `n` remains. -/
def powBySquaring (acc base : K) (n : Nat) : K :=
  let acc := if n % 2 = 1 then acc * base else acc
  if n / 2 = 0 then acc else powBySquaring acc (base * base) (n / 2)
termination_by n
decreasing_by omega

/-- The number to an integer power; a negative power is the reciprocal of the positive one. -/
def powInt (base : K) (power : Int) : K :=
  let p := powBySquaring 1 base power.natAbs
  if power < 0 then 1 / p else p

/-- The relative tolerance within which two numbers count as equal. -/
def tolerance : K := ofDecimal ⟨1, -12⟩

/-- **Equality up to rounding**: equal, or closer than the tolerance times the larger magnitude. -/
def nearlyEqual (a b : K) : Bool :=
  let x := magnitude a
  let y := magnitude b
  a == b || le (magnitude (a - b)) (tolerance * if le x y then y else x)

end Scalar

end Reckoner
