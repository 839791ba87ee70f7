/-!
# Decimals

A decimal is a natural coefficient times a power of ten. Numbers are read from text as decimals and
written to text through decimals, so that everything between the text and the binary number is exact
arithmetic on `Nat` and `Int`.

Two written forms exist. The *plain* form writes the digits around a point and never an exponent. The
*scientific* form writes one digit, a point and the other digits if there are any, and the exponent.
-/

namespace Reckoner

/-- The number `coefficient * 10 ^ exponent`. -/
structure Decimal where
  coefficient : Nat
  exponent : Int
deriving DecidableEq, Repr

namespace Decimal

/-! ### Digits -/

/-- Whether a character is one of the ten digits. -/
def isDigit (c : Char) : Bool := '0' ≤ c && c ≤ '9'

/-- The decimal digits of a natural number, most significant first; `0` has the single digit `0`. -/
def digitsOf (n : Nat) : List Char := Nat.toDigits 10 n

/-- The number that a row of decimal digits stands for. -/
def ofDigits (digits : List Char) : Nat :=
  digits.foldl (fun n c ↦ 10 * n + (c.toNat - '0'.toNat)) 0

/-- How many decimal digits a natural number has. -/
def length (n : Nat) : Nat := (digitsOf n).length

/-- The exponent of ten of the leading digit: `d` is at least `10 ^ d.order` and below ten times
that, if its coefficient is not zero. -/
def order (d : Decimal) : Int := d.exponent + length d.coefficient - 1

/-! ### Written forms -/

/-- The digits with a point after the first of them, if a second one follows. -/
def mantissaText (digits : List Char) : List Char :=
  match digits with
  | first :: second :: more => first :: '.' :: second :: more
  | short => short

/-- One digit, the other digits after a point, and the exponent after `e`: `1.5e-10`. -/
def scientific (d : Decimal) : String :=
  String.ofList (mantissaText (digitsOf d.coefficient)) ++ "e" ++ toString d.order

/-- The digits around a point, without an exponent: `0.00015`, `1500`, `1.5`. -/
def plain (d : Decimal) : String :=
  let digits := digitsOf d.coefficient
  let point := d.exponent + digits.length
  if 0 ≤ d.exponent then
    String.ofList (digits ++ List.replicate d.exponent.toNat '0')
  else if 0 < point then
    String.ofList (digits.take point.toNat ++ '.' :: digits.drop point.toNat)
  else
    String.ofList ('0' :: '.' :: (List.replicate (-point).toNat '0' ++ digits))

end Decimal

end Reckoner
