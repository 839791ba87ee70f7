/-!
# Dates

A date is an instant in whole milliseconds since the start of 1970, in universal time. Dates reach from
the start of the year -262143 to the end of the year 262142.

A day number is turned into year, month and day by counting in eras of 400 years, which all have the
same number of days. Within an era the year is taken to start in March, so that a leap day is the last
day of its year.
-/

namespace Reckoner

/-- The first instant that is a date. -/
def firstMillis : Int := -8334601228800000

/-- The last instant that is a date. -/
def lastMillis : Int := 8210266876799999

/-- An instant in whole milliseconds since the start of 1970. -/
structure Date where
  millis : Int
  inRange : firstMillis ≤ millis ∧ millis ≤ lastMillis
deriving DecidableEq, Repr

namespace Date

/-- The instant, if it is within the range of dates. -/
def ofMillis? (millis : Int) : Option Date :=
  if h : firstMillis ≤ millis ∧ millis ≤ lastMillis then some ⟨millis, h⟩ else none

/-- The number of milliseconds in a day. -/
def dayMillis : Int := 86400000

/-- The start of the day that contains the instant. -/
def midnight (d : Date) : Date :=
  ⟨d.millis - d.millis % dayMillis, by
    have := d.inRange
    simp only [firstMillis, lastMillis, dayMillis] at *
    omega⟩

/-! ### Calendar -/

/-- A day of the calendar. -/
structure Day where
  year : Int
  month : Int
  day : Int
deriving DecidableEq, Repr

/-- The calendar day with the given number, counted from the first day of 1970. -/
def Day.ofNumber (n : Int) : Day :=
  let shifted := n + 719468
  let era := shifted / 146097
  let dayOfEra := shifted % 146097
  let yearOfEra :=
    (dayOfEra - dayOfEra / 1460 + dayOfEra / 36524 - dayOfEra / 146096) / 365
  let dayOfYear := dayOfEra - (365 * yearOfEra + yearOfEra / 4 - yearOfEra / 100)
  let monthFromMarch := (5 * dayOfYear + 2) / 153
  let month := if monthFromMarch < 10 then monthFromMarch + 3 else monthFromMarch - 9
  { year := yearOfEra + era * 400 + if month ≤ 2 then 1 else 0
    month
    day := dayOfYear - (153 * monthFromMarch + 2) / 5 + 1 }

/-- The number of a calendar day, counted from the first day of 1970. -/
def Day.number (d : Day) : Int :=
  let year := if d.month ≤ 2 then d.year - 1 else d.year
  let era := year / 400
  let yearOfEra := year % 400
  let monthFromMarch := if d.month > 2 then d.month - 3 else d.month + 9
  let dayOfYear := (153 * monthFromMarch + 2) / 5 + d.day - 1
  let dayOfEra := yearOfEra * 365 + yearOfEra / 4 - yearOfEra / 100 + dayOfYear
  era * 146097 + dayOfEra - 719468

/-- Whether a year has a leap day. -/
def isLeapYear (year : Int) : Bool := year % 4 == 0 && (year % 100 != 0 || year % 400 == 0)

/-- How many days a month has. -/
def daysInMonth (year month : Int) : Int :=
  if month = 2 then if isLeapYear year then 29 else 28
  else if month = 4 ∨ month = 6 ∨ month = 9 ∨ month = 11 then 30
  else 31

/-- The calendar day of an instant. -/
def day (d : Date) : Day := Day.ofNumber (d.millis / dayMillis)

/-! ### Text -/

/-- A number with at least `width` digits. -/
def padded (width : Nat) (n : Nat) : String :=
  let digits := toString n
  String.ofList (List.replicate (width - digits.length) '0') ++ digits

/-- A year with at least four digits, and a sign if it is not between 0 and 9999. -/
def yearText (year : Int) : String :=
  let sign := if year < 0 then "-" else if year ≥ 10000 then "+" else ""
  sign ++ padded 4 year.natAbs

/-- Hours of a clock with twelve hours, minutes and seconds: `3:04:05 PM`. -/
def timeText (seconds : Nat) : String :=
  let hours := seconds / 3600
  let hour := if hours % 12 = 0 then 12 else hours % 12
  let half := if hours < 12 then "AM" else "PM"
  s!"{hour}:{padded 2 (seconds / 60 % 60)}:{padded 2 (seconds % 60)} {half}"

/-- Month, day and year, and unless it is exactly midnight, the time of the day. -/
def text (d : Date) : String :=
  let ofDay := (d.millis % dayMillis).toNat
  let day := s!"{d.day.month}/{d.day.day}/{yearText d.day.year}"
  if ofDay = 0 then day else s!"{day}, {timeText (ofDay / 1000)}"

end Date

end Reckoner
