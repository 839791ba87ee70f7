import Reckoner.Decimal.Basic
import Reckoner.Json.Basic
import Reckoner.Text.Reader

/-!
# Reading JSON

A text holds one value, with blanks anywhere between its parts. A pair of escapes for the two halves
of a character outside the first 65536 stands for that character; half of a pair is refused.
-/

namespace Reckoner.Json

namespace Reading

open Text (Reader)
open Text.Reader

/-- Spaces, tabs and line ends. -/
def blanks : Reader Unit := do
  let _ ← many fun c ↦ c = ' ' || c = '\n' || c = '\t' || c = '\r'

/-- The value of a hexadecimal digit. -/
def hexValue? (c : Char) : Option Nat :=
  if '0' ≤ c ∧ c ≤ '9' then some (c.toNat - '0'.toNat)
  else if 'a' ≤ c ∧ c ≤ 'f' then some (c.toNat - 'a'.toNat + 10)
  else if 'A' ≤ c ∧ c ≤ 'F' then some (c.toNat - 'A'.toNat + 10)
  else none

/-- Four hexadecimal digits after `\u`. -/
def codeUnit : Reader Nat := do
  row ['\\', 'u']
  let cs ← times 4 fun c ↦ (hexValue? c).isSome
  pure (cs.foldl (fun n c ↦ 16 * n + (hexValue? c).getD 0) 0)

/-- A character that is written by its code. -/
def codePoint : Reader Char := do
  let n ← codeUnit
  if n < 0xD800 ∨ 0xDFFF < n then pure (Char.ofNat n)
  else if n < 0xDC00 then do
    let low ← codeUnit
    if 0xDC00 ≤ low ∧ low ≤ 0xDFFF then
      pure (Char.ofNat (0x10000 + (n - 0xD800) * 0x400 + (low - 0xDC00)))
    else refuse
  else refuse

/-- A character that is written with a backslash and a letter. -/
def escaped : Reader Char := do
  exactly '\\'
  match ← character fun _ ↦ true with
  | '"' => pure '"'
  | '\\' => pure '\\'
  | '/' => pure '/'
  | 'b' => pure '\x08'
  | 'f' => pure '\x0c'
  | 'n' => pure '\n'
  | 'r' => pure '\r'
  | 't' => pure '\t'
  | _ => refuse

/-- A string. -/
def string : Reader String := do
  exactly '"'
  let cs ← repeated <|
    (character fun c ↦ ' ' ≤ c && c ≠ '"' && c ≠ '\\') <|> escaped <|> codePoint
  exactly '"'
  pure (String.ofList cs)

/-- The exponent of a number. -/
def exponent : Reader Int := do
  let _ ← character fun c ↦ c = 'e' || c = 'E'
  let sign ← optional (character fun c ↦ c = '+' || c = '-')
  let n : Int := Decimal.ofDigits (← many1 Decimal.isDigit)
  pure (if sign = some '-' then -n else n)

/-- A number. -/
def number : Reader Numeral := do
  let minus ← optional (exactly '-')
  let whole ← (do exactly '0'; pure ['0']) <|> many1 Decimal.isDigit
  let fraction ← optional (do exactly '.'; many1 Decimal.isDigit)
  let e ← optional exponent
  pure ⟨minus.isSome, whole, fraction.getD [], e.getD 0⟩

/-- A member of an object. -/
def member (value : Reader Json) : Reader (String × Json) := do
  blanks
  let name ← string
  blanks
  exactly ':'
  let v ← value
  pure (name, v)

/-- A value in which brackets are nested at most `depth` deep, with the blanks around it. -/
def value (depth : Nat) : Reader Json := do
  blanks
  let v ←
    (do row "null".toList; pure null) <|>
    (do row "true".toList; pure (boolean true)) <|>
    (do row "false".toList; pure (boolean false)) <|>
    Json.number <$> number <|>
    Json.string <$> string <|>
    match depth with
    | 0 => refuse
    | depth + 1 =>
      (do
        exactly '['
        blanks
        let items ← separated (value depth) (exactly ',')
        exactly ']'
        pure (array items)) <|>
      (do
        exactly '\x7b'
        blanks
        let members ← separated (member (value depth)) (exactly ',')
        exactly '\x7d'
        pure (object members))
  blanks
  pure v

end Reading

/-- **The value of a text.** No text nests brackets deeper than it has characters. -/
def ofText? (text : String) : Option Json :=
  (Reading.value text.toList.length).whole? text.toList

end Reckoner.Json
