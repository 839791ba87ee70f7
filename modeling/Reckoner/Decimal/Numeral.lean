import Reckoner.Decimal.Double

/-!
# Reading doubles from text

The text of a double is an optional sign and then digits with an optional point among, before or after
them and an optional exponent, or one of the words for infinity and NaN in any case of letters.
-/

namespace Reckoner

namespace Decimal

/-- An integer with an optional sign, and nothing after it. -/
def integerOfChars? (cs : List Char) : Option Int :=
  let (negative, digits) := match cs with
    | '-' :: digits => (true, digits)
    | '+' :: digits => (false, digits)
    | digits => (false, digits)
  if digits.isEmpty || !digits.all isDigit then none
  else
    let n : Int := ofDigits digits
    some (if negative then -n else n)

/-- The exponent that may follow the digits of a number. -/
def exponentOfChars? : List Char → Option Int
  | [] => some 0
  | c :: cs => if c = 'e' ∨ c = 'E' then integerOfChars? cs else none

/-- A number without a sign: digits, of which there is at least one, with an optional point, and an
optional exponent. -/
def ofChars? (cs : List Char) : Option Decimal :=
  let whole := cs.takeWhile isDigit
  let (fraction, rest) := match cs.dropWhile isDigit with
    | '.' :: more => (more.takeWhile isDigit, more.dropWhile isDigit)
    | more => ([], more)
  if whole.isEmpty && fraction.isEmpty then none
  else (exponentOfChars? rest).map fun e ↦ ⟨ofDigits (whole ++ fraction), e - fraction.length⟩

end Decimal

namespace Double

/-- Positive infinity. -/
def positiveInfinity : Float := 1 / 0

/-- The undefined number. -/
def undefined : Float := 0 / 0

/-- A double without a sign. -/
def ofUnsigned? (cs : List Char) : Option Float :=
  let word := cs.map Char.toLower
  if word = "inf".toList ∨ word = "infinity".toList then some positiveInfinity
  else if word = "nan".toList then some undefined
  else (Decimal.ofChars? cs).map Decimal.toFloat

/-- **The double that a text denotes**, rounded to nearest. -/
def ofText? (text : String) : Option Float :=
  match text.toList with
  | '-' :: cs => (ofUnsigned? cs).map (-·)
  | '+' :: cs => ofUnsigned? cs
  | cs => ofUnsigned? cs

end Double

end Reckoner
