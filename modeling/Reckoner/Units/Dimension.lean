/-!
# Dimensions

A dimension is a vector of exponents over ten base dimensions. Exponents are small: they lie between
-128 and 127, and an operation whose result has an exponent outside this range has no result.

Division is multiplication by the inverse, so it has no result either when the inverse has none.
-/

namespace Reckoner

/-- An exponent of a base dimension. -/
def Exponent : Type := { n : Int // -128 ≤ n ∧ n ≤ 127 }
deriving DecidableEq, Repr

/-- The base dimensions. -/
inductive BaseDimension where
  | length
  | mass
  | time
  | current
  | temperature
  | amount
  | luminosity
  | angle
  | information
  | currency
deriving DecidableEq, Repr

/-- The position of a base dimension among the exponents. -/
def BaseDimension.index : BaseDimension → Nat
  | length => 0
  | mass => 1
  | time => 2
  | current => 3
  | temperature => 4
  | amount => 5
  | luminosity => 6
  | angle => 7
  | information => 8
  | currency => 9

/-- Exponents over the base dimensions. -/
structure Dimension where
  exponents : Vector Exponent 10
deriving DecidableEq, Repr

namespace Dimension

/-- The dimension of plain numbers. -/
def none : Dimension := ⟨Vector.replicate 10 ⟨0, by decide⟩⟩

/-- The dimension with the exponent one at a position, and zero elsewhere. -/
def atIndex (i : Nat) : Dimension :=
  ⟨Vector.ofFn fun j ↦ if j.val = i then ⟨1, by decide⟩ else ⟨0, by decide⟩⟩

/-- A base dimension. -/
def base (b : BaseDimension) : Dimension := atIndex b.index

/-- The exponents as integers. -/
def toList (d : Dimension) : List Int := d.exponents.toList.map (·.val)

/-- The exponent of a base dimension. -/
def exponent (d : Dimension) (i : Fin 10) : Int := d.exponents[i].val

/-- The dimension with the given exponents, if all of them are within the range. -/
def ofInts? (f : Fin 10 → Int) : Option Dimension :=
  if h : ∀ i, -128 ≤ f i ∧ f i ≤ 127 then some ⟨Vector.ofFn fun i ↦ ⟨f i, h i⟩⟩ else .none

/-- The product, whose exponents are the sums. -/
def mul? (d e : Dimension) : Option Dimension := ofInts? fun i ↦ d.exponent i + e.exponent i

/-- The power, whose exponents are the multiples. -/
def pow? (d : Dimension) (n : Int) : Option Dimension := ofInts? fun i ↦ d.exponent i * n

/-- The quotient: the product with the inverse. -/
def div? (d e : Dimension) : Option Dimension := (e.pow? (-1)).bind d.mul?

/-- Whether all exponents are zero. -/
def isNone (d : Dimension) : Bool := d.exponents.all fun e ↦ e.val == 0

/-- Whether this is exactly the dimension of time. -/
def isTime (d : Dimension) : Bool := d = base .time

end Dimension

end Reckoner
