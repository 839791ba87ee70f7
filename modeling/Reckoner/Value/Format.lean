import Reckoner.Value.Basic

/-!
# How values are shown

A number is written with the fewest digits that identify it. When its decimal exponent is within the
bounds of the format it is written without an exponent and, if it is positive, with commas between
groups of three digits before the point. Otherwise it is written with an exponent and the sign of the
exponent: `1.5e-10`, `1e+15`.
-/

namespace Reckoner

/-- The decimal exponents from `lowerExponent` up to, and not including, `upperExponent` are written
without an exponent. -/
structure Format where
  lowerExponent : Int := -9
  upperExponent : Int := 15
deriving DecidableEq, Repr

/-! ### Groups of digits -/

/-- Digits with a comma before every group of three counted from the end, but for the first digit. -/
def groupDigits : List Char → List Char
  | [] => []
  | d :: ds => if ds.length % 3 = 0 ∧ ds ≠ [] then d :: ',' :: groupDigits ds else d :: groupDigits ds

/-- A plain number with its integer digits in groups. Numbers with a sign stay as they are. -/
def groupThousands (text : String) : String :=
  let cs := text.toList
  let whole := cs.takeWhile Decimal.isDigit
  if whole.isEmpty then text
  else String.ofList (groupDigits whole ++ cs.drop whole.length)

namespace Format

/-- The decimal written with an exponent, whose sign is always written. -/
def exponential (d : Decimal) : String :=
  let sign := if d.order < 0 then "-" else "+"
  let digits := Decimal.mantissaText (Decimal.digitsOf d.coefficient)
  s!"{String.ofList digits}e{sign}{d.order.natAbs}"

/-- **The text of a number.** -/
def number (format : Format) (x : Float) : String :=
  match Double.ofFloat x with
  | .nan => "NaN"
  | .infinite negative => if negative then "-Infinity" else "Infinity"
  | .finite negative mantissa exponent =>
    if mantissa = 0 then "0"
    else
      let d := Decimal.shortest mantissa exponent
      let sign := if negative then "-" else ""
      if d.order < format.lowerExponent ∨ format.upperExponent ≤ d.order then
        sign ++ exponential d
      else groupThousands (sign ++ d.plain)

/-- The text of a quantity: its value in its own units, and the units. -/
def quantity (format : Format) (q : Quantity Float) : String :=
  let value := format.number q.value
  if q.units.isOne then value else s!"{value} {q.units.text}"

/-- **The text of a value.** -/
def value (format : Format) : Value Float → String
  | .number x => format.number x
  | .date d => d.text
  | .quantity q => format.quantity q
  | .function f => f.text
  | .undefined => "undefined"
  | .error message => s!"Error: {message}"

end Format

end Reckoner
