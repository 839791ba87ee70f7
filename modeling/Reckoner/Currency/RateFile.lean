import Reckoner.Currency.Registry
import Reckoner.Date.Timestamp
import Reckoner.Json.Printer
import Reckoner.Json.Reader

/-!
# The file of fetched rates

Rates that have been fetched are kept in a file, together with the time of fetching. A rate that is
not finite cannot be written as a number, and a file that has such a rate cannot be read.
-/

namespace Reckoner

namespace ExchangeRates

/-- A rate in the file. -/
def rateJson (x : Float) : Json :=
  match Json.Numeral.ofFloat? x with
  | some n => .number n
  | none => .null

/-- Rates in the file. -/
def toJson (data : ExchangeRates Float) : Json :=
  .object
    [("base", .string data.base),
      ("date", match data.date with
        | some date => .string date
        | none => .null),
      ("rates", .object (data.rates.entries.map fun (symbol, x) ↦ (symbol, rateJson x)))]

/-- The date of rates, which may be missing. -/
def dateOfJson? : Option Json → Option (Option String)
  | none => some none
  | some .null => some none
  | some (.string date) => some (some date)
  | some _ => none

/-- One rate of the file. -/
def rateOfJson? : String × Json → Option (String × Float)
  | (symbol, .number n) => n.toFloat?.map (symbol, ·)
  | _ => none

/-- Rates out of the file. -/
def ofJson? (v : Json) : Option (ExchangeRates Float) := do
  match ← v.record? ["base", "date", "rates"] with
  | [some (.string base), date, some (.object rates)] =>
    some ⟨base, ← dateOfJson? date, .ofList (← rates.mapM rateOfJson?)⟩
  | _ => none

end ExchangeRates

/-- Rates and the time at which they have been fetched. -/
structure FetchedRates where
  fetchedAt : Timestamp
  data : ExchangeRates Float

namespace FetchedRates

/-- The contents of the file. -/
def text (entry : FetchedRates) : String :=
  Json.text (.object
    [("fetched_at", .string entry.fetchedAt.text), ("data", entry.data.toJson)])

/-- What a file holds, if it can be read. -/
def ofText? (file : String) : Option FetchedRates := do
  match ← (← Json.ofText? file).record? ["fetched_at", "data"] with
  | [some (.string time), some data] =>
    some ⟨← Timestamp.ofText? time, ← ExchangeRates.ofJson? data⟩
  | _ => none

end FetchedRates

/-- The rates that a file holds, whatever else it says. -/
def ExchangeRates.ofFile? (file : String) : Option (ExchangeRates Float) := do
  ofJson? (← (← Json.ofText? file).member? "data")

end Reckoner
