import Reckoner.Json.Number

/-!
# Writing JSON

Values are written over several lines, with two spaces for each level. Strings are written as they
are, but for quotes, backslashes and control characters.
-/

namespace Reckoner.Json

/-- A hexadecimal digit. -/
def hexDigit (n : Nat) : Char := (Nat.toDigits 16 n).headD '0'

/-- A character inside a string. -/
def escape (c : Char) : List Char :=
  if c = '"' then ['\\', '"']
  else if c = '\\' then ['\\', '\\']
  else if c = '\x08' then ['\\', 'b']
  else if c = '\t' then ['\\', 't']
  else if c = '\n' then ['\\', 'n']
  else if c = '\x0c' then ['\\', 'f']
  else if c = '\r' then ['\\', 'r']
  else if c < ' ' then ['\\', 'u', '0', '0', hexDigit (c.toNat / 16), hexDigit (c.toNat % 16)]
  else [c]

/-- A string between quotes. -/
def quote (cs : List Char) : List Char := '"' :: cs.flatMap escape ++ ['"']

/-- A number. -/
def Numeral.chars (n : Numeral) : List Char :=
  let sign := if n.negative then ['-'] else []
  let fraction := if n.fraction.isEmpty then [] else '.' :: n.fraction
  let exponent :=
    if n.exponent = 0 then []
    else 'e' :: (if n.exponent < 0 then ['-'] else []) ++ Decimal.digitsOf n.exponent.natAbs
  sign ++ n.whole ++ fraction ++ exponent

/-- The start of a line at a level. -/
def newLine (level : Nat) : List Char := '\n' :: List.replicate (2 * level) ' '

mutual

/-- A value that stands at a level. -/
def chars (level : Nat) : Json → List Char
  | null => "null".toList
  | boolean b => (if b then "true" else "false").toList
  | number n => n.chars
  | string text => quote text.toList
  | array [] => ['[', ']']
  | array (item :: items) =>
    '[' :: newLine (level + 1) ++ chars (level + 1) item ++ itemChars (level + 1) items ++
      newLine level ++ [']']
  | object [] => ['\x7b', '\x7d']
  | object ((name, v) :: members) =>
    '\x7b' :: newLine (level + 1) ++ quote name.toList ++ [':', ' '] ++ chars (level + 1) v ++
      memberChars (level + 1) members ++ newLine level ++ ['\x7d']

/-- The items after the first one. -/
def itemChars (level : Nat) : List Json → List Char
  | [] => []
  | item :: items => ',' :: newLine level ++ chars level item ++ itemChars level items

/-- The members after the first one. -/
def memberChars (level : Nat) : List (String × Json) → List Char
  | [] => []
  | (name, v) :: members =>
    ',' :: newLine level ++ quote name.toList ++ [':', ' '] ++ chars level v ++
      memberChars level members

end

/-- **The text of a value.** -/
def text (v : Json) : String := String.ofList (chars 0 v)

end Reckoner.Json
