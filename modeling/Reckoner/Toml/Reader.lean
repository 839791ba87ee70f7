import Reckoner.Decimal.Numeral
import Reckoner.Text.Reader
import Reckoner.Toml.Basic

/-!
# Reading settings files

A settings file is a row of lines, each of which is blank, opens a table or gives a key a value; any of
them may end in a comment. Values in brackets and strings of several lines reach over line ends.
Brackets may be nested 79 deep, and a dotted key has at most 79 parts.
-/

namespace Reckoner.Toml

namespace Reading

open Text (Reader)
open Text.Reader

/-! ### Characters -/

/-- A space or a tab. -/
def isSpace (c : Char) : Bool := c = ' ' || c = '\t'

/-- A character that a comment may hold. -/
def isCommentChar (c : Char) : Bool := c = '\t' || (' ' ≤ c && c ≠ '\x7f')

/-- A character that stands for itself in a string between double quotes. -/
def isPlain (c : Char) : Bool := isCommentChar c && c ≠ '"' && c ≠ '\\'

/-- A character that a string between single quotes may hold. -/
def isLiteral (c : Char) : Bool := isCommentChar c && c ≠ '\''

/-- A character of a key without quotes. -/
def isBare (c : Char) : Bool := c.isAlphanum || c = '_' || c = '-'

/-- The value of a hexadecimal digit. -/
def hexValue? (c : Char) : Option Nat :=
  if '0' ≤ c ∧ c ≤ '9' then some (c.toNat - '0'.toNat)
  else if 'a' ≤ c ∧ c ≤ 'f' then some (c.toNat - 'a'.toNat + 10)
  else if 'A' ≤ c ∧ c ≤ 'F' then some (c.toNat - 'A'.toNat + 10)
  else none

/-- The number that digits to a base write. -/
def ofDigitsTo (base : Nat) (digits : List Char) : Nat :=
  digits.foldl (fun n c ↦ base * n + (hexValue? c).getD 0) 0

/-- The character with a given code point, if it is one. -/
def charOfNat? (n : Nat) : Option Char := if n.isValidChar then some (Char.ofNat n) else none

/-- Spaces and tabs. -/
def spaces : Reader Unit := do
  let _ ← many isSpace

/-- The end of a line, as it counts in strings. -/
def newline : Reader Char := do
  let _ ← optional (exactly '\r')
  exactly '\n'
  pure '\n'

/-- A comment, up to the end of its line. -/
def comment : Reader Unit := do
  exactly '#'
  let _ ← many isCommentChar

/-- Spaces, line ends and comments between the items of an array. -/
def blanks : Reader Unit := do
  spaces
  let _ ← repeated (do
    let _ ← optional comment
    let _ ← newline
    spaces)

/-! ### Strings -/

/-- A character that is written with a backslash. -/
def escaped : Reader Char := do
  exactly '\\'
  match ← character fun _ ↦ true with
  | 'b' => pure '\x08'
  | 't' => pure '\t'
  | 'n' => pure '\n'
  | 'f' => pure '\x0c'
  | 'r' => pure '\r'
  | '"' => pure '"'
  | '\\' => pure '\\'
  | 'u' => codePoint 4
  | 'U' => codePoint 8
  | _ => refuse
where
  /-- A code point of `n` hexadecimal digits. -/
  codePoint (n : Nat) : Reader Char := do
    lift (charOfNat? (ofDigitsTo 16 (← times n fun c ↦ (hexValue? c).isSome)))

/-- A line end that is taken back by a backslash before it, together with all blanks after it. -/
def takenBack : Reader Unit := do
  exactly '\\'
  spaces
  let _ ← newline
  let _ ← repeated (do let _ ← character isSpace <|> newline)

/-- A string in one line between double quotes. -/
def basicString : Reader (List Char) := do
  exactly '"'
  let cs ← repeated (character isPlain <|> escaped)
  exactly '"'
  pure cs

/-- A string in one line between single quotes. -/
def literalString : Reader (List Char) := do
  exactly '\''
  let cs ← many isLiteral
  exactly '\''
  pure cs

/-- One or two quotes of a long string, which do not end it because a further character `follows`. -/
def innerQuotes (quote : Char) (follows : Reader Unit) : Reader (List Char) :=
  (do row [quote, quote]; before follows; pure [quote, quote]) <|>
  (do exactly quote; before follows; pure [quote])
where
  /-- Refuses unless a reader would take what comes next. -/
  before (p : Reader Unit) : Reader Unit := fun cs ↦ (p cs).map fun _ ↦ ((), cs)

/-- A string of several lines between three quotes. A line end right at the start does not count, and
up to two further quotes may stand right at the end. -/
def longString (quote : Char) (piece : Reader (List Char)) : Reader (List Char) := do
  let fence := [quote, quote, quote]
  row fence
  let _ ← optional newline
  let inside := innerQuotes quote (do let _ ← character (· ≠ quote))
  let pieces ← repeated (piece <|> inside)
  let last ← optional (innerQuotes quote (row fence))
  row fence
  pure (pieces.flatten ++ last.getD [])

/-- A string of several lines between double quotes. -/
def longBasicString : Reader (List Char) :=
  longString '"' <|
    many1 isPlain <|> (do takenBack; pure []) <|> (do pure [← escaped]) <|> (do pure [← newline])

/-- A string of several lines between single quotes. -/
def longLiteralString : Reader (List Char) :=
  longString '\'' <| many1 isLiteral <|> (do pure [← newline])

/-- A string of any of the four kinds. -/
def string : Reader Toml := do
  let cs ← longBasicString <|> basicString <|> longLiteralString <|> literalString
  pure (.string (String.ofList cs))

/-! ### Keys -/

/-- One part of a key. -/
def simpleKey : Reader String := do
  let cs ← basicString <|> literalString <|> many1 isBare
  pure (String.ofList cs)

/-- A dotted key: the path to a table and the key in it. -/
def key : Reader (List String × String) := do
  let parts ← separated (do spaces; let k ← simpleKey; spaces; pure k) (exactly '.')
  match parts.getLast? with
  | some last => if parts.length < 80 then pure (parts.dropLast, last) else refuse
  | none => refuse

/-! ### Numbers -/

/-- Digits, with single underscores between them allowed. -/
def digits (isDigit : Char → Bool) : Reader (List Char) := do
  let first ← character isDigit
  let more ← repeated (do
    let _ ← optional (exactly '_')
    character isDigit)
  pure (first :: more)

/-- The sign of a number. -/
def sign : Reader (List Char) := do
  pure (← optional (character fun c ↦ c = '+' || c = '-')).toList

/-- A whole number in decimal, with an optional sign and without leading zeros. -/
def decimalInteger : Reader (List Char) := do
  let s ← sign
  let cs ← digits Decimal.isDigit
  if cs.head? = some '0' ∧ cs.length ≠ 1 then refuse else pure (s ++ cs)

/-- A whole number to a base, after a zero and a letter. -/
def integerTo (letter : Char) (base : Nat) : Reader Int := do
  row ['0', letter]
  let cs ← digits fun c ↦ (hexValue? c).any (· < base)
  pure (ofDigitsTo base cs)

/-- A whole number of at most 64 bits. -/
def integer : Reader Toml := do
  let n ← integerTo 'x' 16 <|> integerTo 'o' 8 <|> integerTo 'b' 2 <|> (do
    lift (Decimal.integerOfChars? (← decimalInteger)))
  if Int64.minValue.toInt ≤ n ∧ n ≤ Int64.maxValue.toInt then pure (.integer n) else refuse

/-- The exponent of a number. -/
def exponent : Reader (List Char) := do
  let e ← character fun c ↦ c = 'e' || c = 'E'
  let s ← sign
  pure (e :: s ++ (← digits Decimal.isDigit))

/-- The fraction of a number. -/
def fraction : Reader (List Char) := do
  exactly '.'
  pure ('.' :: (← digits Decimal.isDigit))

/-- A number with a fraction, an exponent or both, or one of the words for infinity and NaN. -/
def float : Reader Toml :=
  (do
    let whole ← decimalInteger
    let rest ← exponent <|> (do
      let f ← fraction
      pure (f ++ (← optional exponent).getD []))
    let x ← lift (Double.ofText? (String.ofList (whole ++ rest)))
    if x == Double.positiveInfinity then refuse else pure (.float x)) <|>
  (do
    let s ← sign
    let word ← (do row ['i', 'n', 'f']; pure ['i', 'n', 'f']) <|>
      (do row ['n', 'a', 'n']; pure ['n', 'a', 'n'])
    let x ← lift (Double.ofText? (String.ofList (s ++ word)))
    pure (.float x))

/-! ### Dates and times -/

/-- A number of exactly `width` digits within bounds. -/
def clockNumber (width low high : Nat) : Reader Nat := do
  let n := Decimal.ofDigits (← times width Decimal.isDigit)
  if low ≤ n ∧ n ≤ high then pure n else refuse

/-- How many days a month has. -/
def daysOf (year month : Nat) : Nat :=
  if month = 2 then if year % 4 = 0 ∧ (year % 100 ≠ 0 ∨ year % 400 = 0) then 29 else 28
  else if month = 4 ∨ month = 6 ∨ month = 9 ∨ month = 11 then 30
  else 31

/-- A day of the calendar. -/
def calendarDay : Reader Unit := do
  let year ← clockNumber 4 0 9999
  exactly '-'
  let month ← clockNumber 2 1 12
  exactly '-'
  let _ ← clockNumber 2 0 (daysOf year month)

/-- A time of the day with seconds. -/
def clockTime : Reader Unit := do
  let _ ← clockNumber 2 0 23
  exactly ':'
  let _ ← clockNumber 2 0 59
  exactly ':'
  let _ ← clockNumber 2 0 60
  let _ ← optional (do exactly '.'; many1 Decimal.isDigit)

/-- The distance of a time from universal time. -/
def offset : Reader Unit :=
  (do let _ ← character fun c ↦ c = 'Z' || c = 'z') <|>
  (do
    let _ ← character fun c ↦ c = '+' || c = '-'
    let _ ← clockNumber 2 0 23
    exactly ':'
    let _ ← clockNumber 2 0 59)

/-- A day, a day with a time, or a time. -/
def date : Reader Toml := do
  (do
    calendarDay
    let _ ← optional (do
      let _ ← character fun c ↦ c = 'T' || c = 't' || c = ' '
      clockTime
      optional offset)) <|> clockTime
  pure .date

/-! ### Values and lines -/

/-- One of the words for truth values. -/
def boolean : Reader Toml :=
  (do row ['t', 'r', 'u', 'e']; pure (.boolean true)) <|>
  (do row ['f', 'a', 'l', 's', 'e']; pure (.boolean false))

/-- An array of values. A comma may follow the last one. -/
def array (item : Reader Toml) : Reader Toml := do
  exactly '['
  let items ← separated (do blanks; let v ← item; blanks; pure v) (exactly ',')
  if items.isEmpty then pure () else let _ ← optional (exactly ',')
  blanks
  exactly ']'
  pure (.array items)

/-- A key and its value. -/
def pair (item : Reader Toml) : Reader (List String × String × Toml) := do
  let (path, k) ← key
  exactly '='
  spaces
  let v ← item
  spaces
  pure (path, k, v)

/-- A table in one line. -/
def table (item : Reader Toml) : Reader Toml := do
  exactly '\x7b'
  let pairs ← separated (pair item) (exactly ',')
  spaces
  exactly '\x7d'
  lift (inlineTable? pairs)

/-- A value in which brackets are nested at most `depth` deep. -/
def value : (depth : Nat) → Reader Toml
  | 0 => string <|> date <|> float <|> integer <|> boolean
  | depth + 1 =>
    string <|> date <|> float <|> integer <|> boolean <|> array (value depth) <|> table (value depth)

/-- A header, whose path stands between one or two pairs of brackets. -/
def header : Reader Directive :=
  (do
    row ['[', '[']
    let (path, k) ← key
    row [']', ']']
    pure (.tables path k)) <|>
  (do
    exactly '['
    let (path, k) ← key
    exactly ']'
    pure (.table path k))

/-- What a line says, if it says anything. -/
def line : Reader (Option Directive) := do
  spaces
  let directive ← optional (header <|> (do
    let (path, k, v) ← pair (value 79)
    pure (.value path k v)))
  spaces
  let _ ← optional comment
  pure directive

/-- All lines of a file, which may start with a byte order mark. -/
def document : Reader (List Directive) := do
  let _ ← optional (exactly '\ufeff')
  let lines ← separated line (do let _ ← newline)
  pure (lines.filterMap id)

end Reading

/-- **The entries of a settings file**, if it is written correctly. -/
def ofText? (text : String) : Option Entries := do
  ofDirectives? (← Reading.document.whole? text.toList)

end Reckoner.Toml
