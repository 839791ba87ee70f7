import Reckoner.Rules.Basic

/-!
# Rules for dates

A duration is a quantity of time. It can be added to a date in either order and subtracted from one,
and the difference of two dates is a duration in seconds. Durations count in whole milliseconds; the
rest is dropped toward zero.
-/

namespace Reckoner.Rules

variable {K : Type} [Scalar K]

/-- The milliseconds of a duration, not yet rounded. -/
def durationMillis (q : Quantity K) : Except EvalError K :=
  if q.dimension.isTime then .ok (q.base * 1000)
  else .error (.unitMismatch "Date" q.units.text)

/-- Moves a date by a number of milliseconds. -/
def shift (d : Date) (millis : K) : Except EvalError (Value K) :=
  match (Scalar.truncate? millis).bind fun n ↦ Date.ofMillis? (d.millis + n) with
  | some e => .ok (.date e)
  | none => .error .dateOutOfRange

/-- Adds a date and a duration in either order. -/
def addDuration : Handler K
  | _, .date d, .quantity q => do shift d (← durationMillis q)
  | _, .quantity q, .date d => do shift d (← durationMillis q)
  | op, left, right => .error (noRule op left right)

/-- Subtracts a duration from a date. -/
def subtractDuration : Handler K
  | _, .date d, .quantity q => do shift d (-(← durationMillis q))
  | op, left, right => .error (noRule op left right)

/-- The unit of the difference of two dates. -/
def seconds : NamedUnit K := ⟨"s", .base .time, 1⟩

/-- The duration from the second date to the first. -/
def subtractDates : Handler K
  | _, .date d, .date e =>
    .ok (.quantity (.ofValue (Scalar.ofInt (d.millis - e.millis) / 1000) (.single seconds)))
  | op, left, right => .error (noRule op left right)

/-- The rules for dates and durations. -/
def dateArithmetic : List (RuleKey × Handler K) :=
  [((.add, .date, .quantity), addDuration),
    ((.add, .quantity, .date), addDuration),
    ((.subtract, .date, .quantity), subtractDuration),
    ((.subtract, .date, .date), subtractDates)]

end Reckoner.Rules
