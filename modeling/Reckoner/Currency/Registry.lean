import Reckoner.Units.Table

/-!
# Currencies

Currencies are units whose factors come from exchange rates, which arrive while the calculator is
already running, at most once. The registry moves from `uninitialized` over `loading` to `ready` or
`failed` and then stays there. Only a registry that is ready knows any currency.
-/

namespace Reckoner

/-- Exchange rates relative to a base currency. -/
structure ExchangeRates (K : Type) where
  base : String
  /-- The day of the rates, as their source writes it. -/
  date : Option String
  /-- How many units of a currency one unit of the base currency buys. -/
  rates : Table String K
deriving Repr

/-- The stages of loading. -/
inductive LoadingStatus where
  | uninitialized
  | loading
  | ready
  | failed
deriving DecidableEq, Repr

/-- Whether loading has ended, well or not. -/
def LoadingStatus.isFinal : LoadingStatus → Bool
  | ready => true
  | failed => true
  | _ => false

/-- What is known about currencies. -/
structure Registry (K : Type) where
  /-- The stage of loading. -/
  status : LoadingStatus
  /-- The currencies that have been registered. -/
  units : Table String (NamedUnit K)
  /-- Why loading failed, if it did. -/
  failure? : Option String

namespace Registry

variable {K : Type}

/-- The registry before loading begins. -/
def uninitialized : Registry K := ⟨.uninitialized, .empty, none⟩

/-- Whether loading has ended, well or not. -/
def isFinal (registry : Registry K) : Bool := registry.status.isFinal

/-- The currency of a symbol. -/
def lookup (registry : Registry K) (symbol : String) : Option (NamedUnit K) :=
  if registry.status = .ready then registry.units.get? symbol else none

/-- Starts loading, and tells whether this was the first time. -/
def begin (registry : Registry K) : Bool × Registry K :=
  if registry.status = .uninitialized then (true, { registry with status := .loading })
  else (false, registry)

/-- Records that loading failed, unless it has succeeded before. -/
def fail (reason : String) (registry : Registry K) : Registry K :=
  if registry.status = .ready then registry
  else { registry with status := .failed, failure? := some reason }

variable [Scalar K]

/-- The currencies that some rates define. The base currency has the factor one and any other the
reciprocal of its rate. A symbol that names a built-in unit defines nothing, nor does a rate that is
not a positive finite number, nor a rate for the base currency itself. -/
def defined (data : ExchangeRates K) : Table String (NamedUnit K) :=
  let currency := Dimension.base .currency
  let isFree := fun symbol ↦ (Units.lookup (K := K) symbol).isNone
  let start := if isFree data.base then Table.empty.insert data.base ⟨data.base, currency, 1⟩
    else .empty
  data.rates.entries.foldl (fun units (symbol, rate) ↦
    if symbol = data.base || !Scalar.isFinite rate || Scalar.le rate 0 || !isFree symbol then units
    else units.insert symbol ⟨symbol, currency, 1 / rate⟩) start

/-- Completes loading with exchange rates and tells how many currencies they define. When loading has
ended already, nothing happens. -/
def register (data : ExchangeRates K) (registry : Registry K) : Nat × Registry K :=
  if registry.isFinal then (0, registry)
  else
    let units := defined data
    (units.size, ⟨.ready, units, none⟩)

end Registry

/-! ### Events -/

/-- What a loader reports. -/
inductive CurrencyEvent (K : Type) where
  | begin
  | complete (data : ExchangeRates K)
  | fail (reason : String)

/-- The registry after an event. -/
def Registry.after {K : Type} [Scalar K] (registry : Registry K) : CurrencyEvent K → Registry K
  | .begin => registry.begin.2
  | .complete data => (registry.register data).2
  | .fail reason => registry.fail reason

end Reckoner
