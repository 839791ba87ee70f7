import Reckoner.Decimal.Double

/-!
# The shortest decimal of a double

Every double is the nearest double to all decimals of an interval around it. Among these decimals the
shortest one is written: fewest digits first, then nearest to the double, and of two equally near ones
the larger.

The search needs no estimate. For each number of digits, the decimals with that many digits form a
grid around the value, and if any point of the grid lies in the interval then one of the value's two
neighbours on the grid does. Seventeen digits always suffice.
-/

namespace Reckoner.Decimal

/-- The exponent of the leading decimal digit of `num / den`, both positive. -/
def orderOfRatio (num den : Nat) : Int :=
  if den ≤ num then (length (num / den) : Int) - 1
  else -(length ((den + num - 1) / num - 1) : Int)

/-- The interval of numbers that are nearest to the double `mantissa * 2 ^ exponent`, in units of
`2 ^ (exponent - 2)`. The gap below a power of two is half the gap above it, except at the smallest
exponent, where both are equal. -/
def nearestBounds (mantissa : Nat) (exponent : Int) : Nat × Nat :=
  let below := if mantissa = Nat.pow 2 52 ∧ exponent ≠ -1074 then 1 else 2
  (4 * mantissa - below, 4 * mantissa + 2)

/-- The better of the two neighbours of a double on the grid of multiples of `10 ^ grid`, if one of
them is nearest to no other double. The ends of the interval count when the mantissa is even. -/
def onGrid? (mantissa : Nat) (exponent grid : Int) : Option Decimal :=
  let tens := Nat.pow 10 grid.toNat * Nat.pow 2 (2 - exponent).toNat
  let twos := Nat.pow 10 (-grid).toNat * Nat.pow 2 (exponent - 2).toNat
  let (lower, upper) := nearestBounds mantissa exponent
  let value := 4 * mantissa * twos
  let floor := value / tens
  let above := (floor + 1) * tens
  let below := floor * tens
  let inside := fun n ↦
    if mantissa % 2 = 0 then decide (lower * twos ≤ n) && decide (n ≤ upper * twos)
    else decide (lower * twos < n) && decide (n < upper * twos)
  match inside below, inside above with
  | false, false => none
  | true, false => some ⟨floor, grid⟩
  | false, true => some ⟨floor + 1, grid⟩
  | true, true => some (if value - below < above - value then ⟨floor, grid⟩ else ⟨floor + 1, grid⟩)

/-- Drops a final zero digit, which only the step from nine to ten can leave. -/
def trim (d : Decimal) : Decimal :=
  if d.coefficient ≠ 0 ∧ d.coefficient % 10 = 0 then ⟨d.coefficient / 10, d.exponent + 1⟩ else d

/-- **The shortest decimal** of the double `mantissa * 2 ^ exponent`, whose mantissa is positive. -/
def shortest (mantissa : Nat) (exponent : Int) : Decimal :=
  let order := orderOfRatio (mantissa * Nat.pow 2 exponent.toNat) (Nat.pow 2 (-exponent).toNat)
  let found := (List.range 17).findSome? fun n ↦ onGrid? mantissa exponent (order - (n : Nat))
  trim (found.getD ⟨mantissa, exponent⟩)

end Reckoner.Decimal

namespace Reckoner.Double

/-! ### Text of doubles -/

/-- The text of a double, where `write` gives the form of the decimals. Zero keeps its sign. -/
def textWith (write : Decimal → String) (x : Float) : String :=
  match ofFloat x with
  | .nan => "NaN"
  | .infinite negative => if negative then "-inf" else "inf"
  | .finite negative mantissa exponent =>
    let d := if mantissa = 0 then ⟨0, 0⟩ else Decimal.shortest mantissa exponent
    (if negative then "-" else "") ++ write d

/-- The shortest digits of a double without an exponent. -/
def plainText (x : Float) : String := textWith Decimal.plain x

/-- The shortest digits of a double with an exponent. -/
def scientificText (x : Float) : String := textWith Decimal.scientific x

end Reckoner.Double
