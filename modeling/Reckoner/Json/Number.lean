import Reckoner.Decimal.Shortest
import Reckoner.Json.Basic

/-!
# Doubles in JSON

A double is written with the fewest digits that identify it. From a written number a double is
computed in the arithmetic of doubles: the digits that fit into 64 bits give a whole number, which is
rounded to a double and then multiplied or divided by a power of ten. So a number is rounded at most
twice, and numbers of up to fifteen digits with small exponents, which need no rounding before the
last step, are read exactly.
-/

namespace Reckoner.Json.Numeral

/-! ### Writing -/

/-- A decimal as it is written. Up to 16 places before the point and up to four zeros after it are
written out, and a whole number gets a zero after the point. -/
def ofDecimal (negative : Bool) (d : Decimal) : Numeral :=
  let digits := Decimal.digitsOf d.coefficient
  let point := d.exponent + digits.length
  if 0 ≤ d.exponent ∧ point ≤ 16 then
    ⟨negative, digits ++ List.replicate d.exponent.toNat '0', ['0'], 0⟩
  else if 0 < point ∧ point ≤ 16 then
    ⟨negative, digits.take point.toNat, digits.drop point.toNat, 0⟩
  else if -5 < point ∧ point ≤ 0 then
    ⟨negative, ['0'], List.replicate (-point).toNat '0' ++ digits, 0⟩
  else ⟨negative, digits.take 1, digits.drop 1, point - 1⟩

/-- A double as it is written, if it is finite. -/
def ofFloat? (x : Float) : Option Numeral :=
  match Double.ofFloat x with
  | .finite negative mantissa exponent =>
    some (ofDecimal negative (if mantissa = 0 then ⟨0, 0⟩ else Decimal.shortest mantissa exponent))
  | _ => none

/-! ### Reading -/

/-- Appends digits to a number while it fits into 64 bits, and gives the digits that are left. -/
def appendDigits : Nat → List Char → Nat × List Char
  | n, [] => (n, [])
  | n, c :: cs =>
    let longer := 10 * n + (c.toNat - '0'.toNat)
    if longer < UInt64.size then appendDigits longer cs else (n, c :: cs)

/-- The number `x * 10 ^ exponent`, unless it is too large. -/
def timesTenTo (x : Float) (exponent : Int) : Option Float :=
  if exponent.natAbs ≤ 308 then
    if 0 ≤ exponent then
      let y := x * Decimal.toFloat ⟨1, exponent⟩
      if y.isInf then none else some y
    else some (x / Decimal.toFloat ⟨1, -exponent⟩)
  else if x == 0 then some x
  else if 0 ≤ exponent then none
  else timesTenTo (x / Decimal.toFloat ⟨1, 308⟩) (exponent + 308)
termination_by (-exponent).toNat
decreasing_by omega

/-- **The double that a written number denotes**, unless it is too large. -/
def toFloat? (n : Numeral) : Option Float :=
  let (significand, unread) := appendDigits 0 n.whole
  let (significand, unreadFraction) := appendDigits significand n.fraction
  let places : Int := (unread.length : Int) + unreadFraction.length - n.fraction.length
  (timesTenTo (Float.ofNat significand) (places + n.exponent)).map fun x ↦
    if n.negative then -x else x

end Reckoner.Json.Numeral
