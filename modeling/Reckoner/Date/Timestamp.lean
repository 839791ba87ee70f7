import Reckoner.Date.Basic
import Reckoner.Decimal.Basic
import Reckoner.Text.Blank
import Reckoner.Text.Reader

/-!
# Timestamps

A timestamp is an instant in whole nanoseconds since the start of 1970, in universal time. It is
written as day, time and offset: `2024-01-01T12:30:00.5Z`. In reading, blanks may stand before every
number and every mark, the offset may be any one of less than a day, and the second 60 is the one
after 59.
-/

namespace Reckoner

/-- An instant in whole nanoseconds since the start of 1970. -/
structure Timestamp where
  nanos : Int
deriving DecidableEq, Repr

namespace Timestamp

/-- Nanoseconds in a second. -/
def second : Int := 1000000000

/-- Nanoseconds in a day. -/
def day : Int := 86400 * second

/-- The first year in which there are dates. -/
def firstYear : Int := -262143

/-- The last year in which there are dates. -/
def lastYear : Int := 262142

namespace Reading

open Text (Reader)
open Text.Reader

/-- Any blanks. -/
def blanks : Reader Unit := do
  let _ ← many Text.isBlank

/-- A number of at most `width` digits, with any blanks before it. -/
def number (width : Nat) : Reader Nat := do
  blanks
  fun cs ↦
    let digits := (cs.takeWhile Decimal.isDigit).take width
    if digits.isEmpty then none else some (Decimal.ofDigits digits, cs.drop digits.length)

/-- A number within bounds. -/
def numberWithin (width low high : Nat) : Reader Nat := do
  let n ← number width
  if low ≤ n ∧ n ≤ high then pure n else refuse

/-- A year of at most four digits, or of any number of digits after a sign. -/
def year : Reader Int := do
  blanks
  (do exactly '-'; pure (-(Decimal.ofDigits (← many1 Decimal.isDigit) : Int))) <|>
  (do exactly '+'; pure (Decimal.ofDigits (← many1 Decimal.isDigit) : Int)) <|>
  (do pure ((← number 4) : Int))

/-- The number of a day, which is written as year, month and day with hyphens between them. Before a
hyphen there may be whatever `gap` takes. -/
def dayNumber (gap : Reader Unit) : Reader Int := do
  let y ← year
  gap
  exactly '-'
  let m ← numberWithin 2 1 12
  gap
  exactly '-'
  let d ← numberWithin 2 1 31
  if firstYear ≤ y ∧ y ≤ lastYear ∧ (d : Int) ≤ Date.daysInMonth y m then
    pure (Date.Day.number ⟨y, m, d⟩)
  else refuse

/-- The nanoseconds that a fraction of a second writes; digits after the ninth do not count. -/
def fraction : Reader Int := do
  exactly '.'
  let digits ← many1 Decimal.isDigit
  let kept := digits.take 9
  pure (Decimal.ofDigits (kept ++ List.replicate (9 - kept.length) '0'))

/-- The seconds by which a local time is ahead of universal time. -/
def offset : Reader Int :=
  (do let _ ← character fun c ↦ c = 'Z' || c = 'z'; pure 0) <|>
  (do
    let _ ← character fun c ↦ c = 'U' || c = 'u'
    let _ ← character fun c ↦ c = 'T' || c = 't'
    let _ ← character fun c ↦ c = 'C' || c = 'c'
    pure 0) <|>
  (do
    let sign ← character fun c ↦ c = '+' || c = '-' || c = '\u2212'
    let hours := Decimal.ofDigits (← times 2 Decimal.isDigit)
    let _ ← many fun c ↦ c = ':' || Text.isBlank c
    let minutes := Decimal.ofDigits (← times 2 Decimal.isDigit)
    let seconds : Int := hours * 3600 + minutes * 60
    if minutes ≤ 59 ∧ seconds < 86400 then pure (if sign = '+' then seconds else -seconds)
    else refuse)

/-- A timestamp. -/
def timestamp : Reader Timestamp := do
  let n ← dayNumber blanks
  let _ ← character fun c ↦ c = 'T' || c = 't' || c = ' '
  let hours ← numberWithin 2 0 23
  blanks
  exactly ':'
  let minutes ← numberWithin 2 0 59
  blanks
  exactly ':'
  let seconds ← numberWithin 2 0 60
  let nanos ← optional fraction
  blanks
  let ahead ← offset
  blanks
  let total := n * 86400 + hours * 3600 + minutes * 60 + seconds - ahead
  if firstMillis ≤ total * 1000 ∧ total * 1000 ≤ lastMillis then
    pure ⟨total * second + nanos.getD 0⟩
  else refuse

end Reading

/-- The timestamp of a text. -/
def ofText? (text : String) : Option Timestamp := Reading.timestamp.whole? text.toList

/-- The start of the day that a text writes as year, month and day. -/
def ofDayText? (text : String) : Option Timestamp :=
  ((Reading.dayNumber (pure ())).whole? text.toList).map fun n ↦ ⟨n * day⟩

/-- The fraction of a second with three, six or nine digits, as many as are needed. -/
def fractionText (nanos : Nat) : String :=
  if nanos = 0 then ""
  else if nanos % 1000000 = 0 then "." ++ Date.padded 3 (nanos / 1000000)
  else if nanos % 1000 = 0 then "." ++ Date.padded 6 (nanos / 1000)
  else "." ++ Date.padded 9 nanos

/-- **The text of a timestamp**, in universal time. -/
def text (t : Timestamp) : String :=
  let d := Date.Day.ofNumber (t.nanos / day)
  let ofDay := (t.nanos % day / second).toNat
  let fraction := fractionText (t.nanos % second).toNat
  let two := fun (n : Nat) ↦ Date.padded 2 n
  s!"{Date.yearText d.year}-{two d.month.toNat}-{two d.day.toNat}" ++
    s!"T{two (ofDay / 3600)}:{two (ofDay / 60 % 60)}:{two (ofDay % 60)}" ++ fraction ++ "Z"

end Timestamp

end Reckoner
