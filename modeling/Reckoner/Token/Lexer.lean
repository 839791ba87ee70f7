import Reckoner.Token.Basic
import Reckoner.Text.Blank
import Reckoner.Text.Letters
import Reckoner.Text.Numerals

/-!
# From characters to tokens

Blank characters separate tokens and `#` ends the line. Every other token is the longest one that
starts at its first character, with two exceptions for numbers: a point belongs to a number only if a
digit follows it, and the letter `e` starts an exponent only if digits follow it, so that `2e` is the
number `2` and the name `e`.
-/

namespace Reckoner

/-! ### Numbers -/

/-- The digits after the decimal point with which the text begins, if it does. -/
def fractionDigits : List Char → List Char
  | '.' :: rest => rest.takeWhile Decimal.isDigit
  | _ => []

/-- The exponent with which the text begins and how many characters it takes: `e` or `E`, a sign or
none, and at least one digit. Without an exponent both are zero. -/
def exponentPart : List Char → Int × Nat
  | e :: sign :: rest =>
    if e = 'e' ∨ e = 'E' then
      let signed := sign = '+' ∨ sign = '-'
      let digits := (if signed then rest else sign :: rest).takeWhile Decimal.isDigit
      if digits.isEmpty then (0, 0)
      else
        let n : Int := Decimal.ofDigits digits
        (if sign = '-' then -n else n, digits.length + if signed then 2 else 1)
    else (0, 0)
  | _ => (0, 0)

/-- The number with which the text begins and how many characters it takes: digits, an optional
fraction and an optional exponent. -/
def numeral (cs : List Char) : Decimal × Nat :=
  let whole := cs.takeWhile Decimal.isDigit
  let fraction := fractionDigits (cs.drop whole.length)
  let taken := whole.length + if fraction.isEmpty then 0 else fraction.length + 1
  let (exponent, more) := exponentPart (cs.drop taken)
  (⟨Decimal.ofDigits (whole ++ fraction), exponent - fraction.length⟩, taken + more)

/-! ### Names and marks -/

/-- Whether a name can start with the character. -/
def isNameStart (c : Char) : Bool := Text.isAlphabetic c || c == '_'

/-- Whether a name can go on with the character. -/
def isNamePart (c : Char) : Bool := Text.isAlphabetic c || Text.isNumeric c || c == '_'

namespace Token

variable {K : Type}

/-- The token of a word: a name, but for the two words of conversion. -/
def ofWord (word : String) : Token K :=
  if word = "to" ∨ word = "in" then into else name word

/-- The mark that a character is, or the one of two characters that it begins, and how many characters
of the rest it takes. -/
def mark? (c : Char) (rest : List Char) : Option (Token K × Nat) :=
  let second := rest.head?
  match c with
  | '+' => some (plus, 0)
  | '-' => some (minus, 0)
  | '*' => some (if second = some '*' then (stars, 1) else (times, 0))
  | '/' => some (divide, 0)
  | '%' => some (modulo, 0)
  | '^' => some (caret, 0)
  | '<' => some (if second = some '=' then (lessEqual, 1) else (less, 0))
  | '>' => some (if second = some '=' then (greaterEqual, 1) else (greater, 0))
  | '=' => some (if second = some '=' then (equal, 1) else (assign, 0))
  | '!' => if second = some '=' then some (notEqual, 1) else none
  | '(' => some (leftParen, 0)
  | ')' => some (rightParen, 0)
  | ',' => some (comma, 0)
  | ';' => some (semicolon, 0)
  | _ => none

/-- The token that starts with the character `c`, which is not blank, and how many characters of the
rest belong to it. -/
def lexeme? [Scalar K] (c : Char) (rest : List Char) : Option (Token K × Nat) :=
  if Decimal.isDigit c || (c == '.' && rest.head?.any Decimal.isDigit) then
    let (value, taken) := numeral (c :: rest)
    some (number (Scalar.ofDecimal value), taken - 1)
  else if isNameStart c then
    let word := rest.takeWhile isNamePart
    some (ofWord (String.ofList (c :: word)), word.length)
  else
    mark? c rest

end Token

/-- The tokens of a text whose first character stands in the given column. -/
def Tokens.ofChars {K : Type} [Scalar K] (column : Nat) : List Char → Tokens K
  | [] => .done
  | c :: rest =>
    if Text.isBlank c then ofChars (column + 1) rest
    else if c = '#' then .done
    else
      match Token.lexeme? c rest with
      | none => .broken (.unexpectedCharacter c column)
      | some (t, taken) => .more t (ofChars (column + 1 + taken) (rest.drop taken))
termination_by cs => cs.length

/-- The tokens of a line. -/
def Tokens.ofText {K : Type} [Scalar K] (text : String) : Tokens K := ofChars 0 text.toList

end Reckoner
