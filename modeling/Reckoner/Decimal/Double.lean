import Reckoner.Decimal.Basic

/-!
# Doubles, exactly

A double that is finite is a sign and a magnitude `mantissa * 2 ^ exponent`. This module takes doubles
apart into these whole numbers and defines on them what is needed beyond the four operations: the
integer part, rounding to whole numbers in three directions, and the double nearest to a decimal.

Rounding works on the magnitude and puts the sign back, so a negative number that rounds to zero
gives the negative zero.
-/

namespace Reckoner

/-- What a double stands for. -/
inductive Double where
  | nan
  | infinite (negative : Bool)
  /-- The number `mantissa * 2 ^ exponent`, negated when `negative` holds. -/
  | finite (negative : Bool) (mantissa : Nat) (exponent : Int)
deriving DecidableEq, Repr

namespace Double

/-- **Decoding.** One sign bit, eleven bits of biased exponent, and 52 bits of fraction, to which the
leading one belongs unless the biased exponent is zero. -/
def ofFloat (x : Float) : Double :=
  let bits := x.toBits.toNat
  let negative := bits / Nat.pow 2 63 == 1
  let biased : Nat := bits / Nat.pow 2 52 % Nat.pow 2 11
  let fraction := bits % Nat.pow 2 52
  if biased = 2047 then
    if fraction = 0 then .infinite negative else .nan
  else if biased = 0 then
    .finite negative fraction (-1074)
  else
    .finite negative (Nat.pow 2 52 + fraction) (biased - 1075)

/-- The sign of a double; NaN counts as positive. -/
def isNegative : Double → Bool
  | .nan => false
  | .infinite negative => negative
  | .finite negative _ _ => negative

end Double

/-! ### Whole numbers out of doubles -/

/-- A direction in which a magnitude is rounded to a whole number. -/
inductive Rounding where
  /-- Toward zero. -/
  | down
  /-- Away from zero. -/
  | up
  /-- To the nearest whole number, a half away from zero. -/
  | nearest
deriving DecidableEq, Repr

/-- The whole number next to `mantissa * 2 ^ exponent` in the given direction. -/
def Rounding.magnitude (r : Rounding) (mantissa : Nat) (exponent : Int) : Nat :=
  if 0 ≤ exponent then mantissa * Nat.pow 2 exponent.toNat
  else
    let den := Nat.pow 2 (-exponent).toNat
    match r with
    | .down => mantissa / den
    | .up => (mantissa + den - 1) / den
    | .nearest => (2 * mantissa + den) / (2 * den)

namespace Double

/-- The integer part of a finite double. -/
def truncate? : Double → Option Int
  | .finite negative mantissa exponent =>
    let n : Int := Rounding.down.magnitude mantissa exponent
    some (if negative then -n else n)
  | _ => none

/-- Rounds a double to a whole number; `direction` may depend on the sign. A double that is not
finite, or so large that it is whole, stays as it is. -/
def roundTo (direction : Bool → Rounding) (x : Float) : Float :=
  match ofFloat x with
  | .finite negative mantissa exponent =>
    if 0 ≤ exponent then x
    else
      let n := Float.ofNat ((direction negative).magnitude mantissa exponent)
      if negative then -n else n
  | _ => x

/-- The largest whole number that is not above `x`. -/
def floor (x : Float) : Float := roundTo (fun negative ↦ if negative then .up else .down) x

/-- The smallest whole number that is not below `x`. -/
def ceiling (x : Float) : Float := roundTo (fun negative ↦ if negative then .down else .up) x

/-- The whole number nearest to `x`, a half away from zero. -/
def round (x : Float) : Float := roundTo (fun _ ↦ .nearest) x

end Double

/-- The double nearest to a decimal; one beyond the largest double gives infinity. -/
def Decimal.toFloat (d : Decimal) : Float :=
  match d.exponent with
  | .ofNat e => Float.ofScientific d.coefficient false e
  | .negSucc e => Float.ofScientific d.coefficient true (e + 1)

end Reckoner
