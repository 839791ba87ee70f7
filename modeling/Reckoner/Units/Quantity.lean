import Reckoner.Units.Basic

/-!
# Quantities

A quantity is a magnitude in base units, together with the units in which it is displayed. A change of
the display units leaves the magnitude alone, so it costs no precision.
-/

namespace Reckoner

/-- A magnitude with units. -/
structure Quantity (K : Type) where
  /-- The magnitude in the base units of the dimension. -/
  base : K
  /-- The units in which the quantity is displayed. -/
  units : Units K
deriving Repr

namespace Quantity

variable {K : Type}

/-- The dimension of the display units, which is the dimension of the quantity. -/
def dimension (q : Quantity K) : Dimension := q.units.dimension

/-- The same units with another magnitude. -/
def withBase (q : Quantity K) (base : K) : Quantity K := { q with base }

/-- Fails if two quantities differ in dimension. -/
def ensureSameDimension (q r : Quantity K) : Except EvalError PUnit :=
  if q.dimension = r.dimension then .ok ⟨⟩
  else .error (.unitMismatch q.units.text r.units.text)

/-- The quantity displayed in other units of its dimension. -/
def convert (q : Quantity K) (target : Units K) : Except EvalError (Quantity K) :=
  if q.dimension = target.dimension then .ok ⟨q.base, target⟩
  else .error (.unitMismatch q.units.text target.text)

variable [Scalar K]

/-- The quantity of a value in the given units. -/
def ofValue (value : K) (units : Units K) : Quantity K := ⟨value * units.factor, units⟩

/-- The value in the display units. -/
def value (q : Quantity K) : K := q.base / q.units.factor

end Quantity

end Reckoner
