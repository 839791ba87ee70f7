import Reckoner.Currency.RateFile
import Reckoner.Text.Blank

/-!
# Fetching rates

Rates are fetched from a source, and what has been fetched is kept in a file. Rates from the file that
are fresh are used without asking the source. When the source is asked and fails, rates from the file
are better than none, however old they are. That a file cannot be written is not a reason to refuse the
rates that have been fetched.

The age of rates counts from the day that they state themselves, and where they state none from the
time of fetching.
-/

namespace Reckoner

/-- Why there are no rates, or why rates are not kept. -/
inductive RateError where
  /-- The request failed. -/
  | request (reason : String)
  /-- Rates and text could not be turned into each other. -/
  | decode (reason : String)
  /-- The file of rates could not be written. -/
  | io (reason : String)
  /-- The rates name no base currency. -/
  | missingBase
deriving DecidableEq, Repr

/-- The message for the user. -/
def RateError.message : RateError → String
  | .request reason => s!"request failed: {reason}"
  | .decode reason => s!"invalid rate data: {reason}"
  | .io reason => s!"rate cache I/O failed: {reason}"
  | .missingBase => "rate data has no base currency"

/-- What a source answers when it is asked. -/
abbrev RateAnswer := Except RateError (ExchangeRates Float)

/-- Rates that name a base currency. -/
def ExchangeRates.validated (data : ExchangeRates Float) : RateAnswer :=
  if Text.trim data.base = "" then .error .missingBase else .ok data

/-- The answer of a source that is asked over the network, given the response to the request. -/
def RateAnswer.ofResponse (response : Except String (ExchangeRates Float)) : RateAnswer :=
  (response.mapError .request).bind ExchangeRates.validated

/-! ### Freshness -/

/-- The longest time span in whole milliseconds. -/
def longestSpan : Int := 9223372036854775807

/-- The time for which rates are fresh, in milliseconds. The number of days is taken as a signed
number of 64 bits; when a span of so many days is too long, the longest span takes its place. -/
def timeToLive (days : UInt64) : Int :=
  let millis := days.toInt64.toInt * 86400000
  if -longestSpan ≤ millis ∧ millis ≤ longestSpan then millis else longestSpan

namespace FetchedRates

/-- The time from which the age of rates counts. -/
def stamp (entry : FetchedRates) : Timestamp :=
  (entry.data.date.bind Timestamp.ofDayText?).getD entry.fetchedAt

/-- Whether rates are at most as old as the time to live. -/
def isFresh (entry : FetchedRates) (ttl : Int) (now : Timestamp) : Bool :=
  now.nanos - entry.stamp.nanos ≤ ttl * 1000000

end FetchedRates

/-! ### Keeping -/

/-- The surroundings of the file of rates. Each of them can fail, with a reason. -/
structure RateStore where
  /-- Makes the folder of the file. -/
  makeFolder : Except String Unit
  /-- Turns rates into text. -/
  encode : FetchedRates → Except String String
  /-- Writes a text over a file, of which something else may be left if that fails. -/
  write : (file : Option String) → (text : String) → Except String Unit × Option String

namespace RateStore

/-- Nothing fails. -/
def reliable : RateStore where
  makeFolder := .ok ()
  encode entry := .ok entry.text
  write _ text := (.ok (), some text)

/-- Keeps rates in the file: whether that works, and the file afterwards. -/
def keep (store : RateStore) (entry : FetchedRates) (file : Option String) :
    Except RateError Unit × Option String :=
  match store.makeFolder.mapError .io, (store.encode entry).mapError .decode with
  | .error e, _ => (.error e, file)
  | .ok (), .error e => (.error e, file)
  | .ok (), .ok text =>
    let (outcome, file) := store.write file text
    (outcome.mapError .io, file)

end RateStore

/-! ### Fetching -/

/-- What comes of fetching rates. -/
structure Fetch where
  answer : RateAnswer
  /-- Whether the source was asked. -/
  asked : Bool
  /-- The file afterwards, if there is one. -/
  file : Option String

/-- **Fetches rates**, given the surroundings of the file, what the source would answer, the time at
which the file is looked at, and the time at which it is written. An error that does not stand in the
way of an answer is passed over; it comes second. -/
def fetchRatesWith (store : RateStore) (ttl : Int) (source : RateAnswer) (now written : Timestamp)
    (file : Option String) : Fetch × Except RateError Unit :=
  let entry := file.bind FetchedRates.ofText?
  match entry.filter (·.isFresh ttl now) with
  | some fresh => (⟨.ok fresh.data, false, file⟩, .ok ())
  | none =>
    match source, entry with
    | .ok data, _ =>
      let (kept, file) := store.keep ⟨written, data⟩ file
      (⟨.ok data, true, file⟩, kept)
    | .error e, some stale => (⟨.ok stale.data, true, file⟩, .error e)
    | .error e, none => (⟨.error e, true, file⟩, .ok ())

/-- Fetches rates, where the file can be written. -/
def fetchRates (ttl : Int) (source : RateAnswer) (now written : Timestamp) (file : Option String) :
    Fetch :=
  (fetchRatesWith .reliable ttl source now written file).1

/-! ### Loading -/

namespace Registry

variable {K : Type} [Scalar K]

/-- Completes loading with what a source answered. -/
def finish (registry : Registry K) : Except RateError (ExchangeRates K) → Registry K
  | .ok data => (registry.register data).2
  | .error e => registry.fail e.message

/-- **Loads currencies from a source**, which is asked only if loading has not begun before; tells
whether it was. -/
def load (registry : Registry K) (source : Unit → Except RateError (ExchangeRates K)) :
    Bool × Registry K :=
  match registry.begin with
  | (true, begun) => (true, begun.finish (source ()))
  | (false, same) => (false, same)

end Registry

end Reckoner
