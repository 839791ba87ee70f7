import Mathlib.Data.Set.Card
import Reckoner.Proofs.DateShifts
import Reckoner.Proofs.DistinctKeys
import Reckoner.Proofs.ExactArithmetic
import Reckoner.Proofs.NamedUnits
import Reckoner.Proofs.NearEquality

/-!
# Currencies and their cross rates

Registering exchange rates defines the base currency and each currency with a usable rate, but none
whose symbol names a built-in unit already (`Registry.get?_defined`). Rates are looked at one after
the other. As their symbols are distinct, what is defined under a symbol depends on its own rate alone
(`Table.get?_foldl_insert_unless`).

A currency has the reciprocal of its rate as its factor, so a conversion between two of them divides
by the one rate and multiplies by the other. Over exact numbers that is all that happens.
-/

namespace Reckoner

/-! ### Tables made of tables -/

namespace Table

variable {α β γ : Type} [DecidableEq α] {t : Table α β} {entries : List (α × β)} {a : α}

/-- A table with distinct keys has as many keys as entries. -/
theorem Distinct.encard_eq (h : t.Distinct) : {a | (t.get? a).isSome}.encard = t.size := by
  have hkeys : {a | (t.get? a).isSome} = ((t.entries.map Prod.fst).toFinset : Set α) := by
    ext a
    rw [Finset.mem_coe, List.mem_toFinset, ← isSome_get?_iff]
    rfl
  rw [hkeys, Set.encard_coe_eq_coe_finsetCard, List.toFinset_card_of_nodup h, List.length_map, size]

variable (skip : α × β → Bool) (f : α × β → γ) {start : Table α γ}

/-- **Insertions of the entries of a table**, some of which are skipped: under each key there is what
its own entry put there, or else what has been there from the start. -/
theorem get?_foldl_insert_unless (h : (entries.map Prod.fst).Nodup) :
    (entries.foldl (fun t e ↦ if skip e then t else t.insert e.1 (f e)) start).get? a =
      ((lookup a entries).bind fun b ↦ if skip (a, b) then none else some (f (a, b))).or
        (start.get? a) := by
  induction entries generalizing start with
  | nil => rfl
  | cons e rest ih =>
    obtain ⟨a', b⟩ := e
    rw [List.map_cons, List.nodup_cons] at h
    rw [List.foldl_cons, ih h.2, lookup]
    by_cases heq : a' = a
    · subst heq
      rw [if_pos rfl, lookup_eq_none_iff.2 h.1, Option.bind_none, Option.none_or, Option.bind_some]
      split
      · rfl
      · exact get?_insert_self _ _ _
    · rw [if_neg heq]
      congr 1
      split
      · rfl
      · rw [get?_insert, if_neg (Ne.symm heq)]

theorem distinct_foldl_insert_unless (h : start.Distinct) :
    (entries.foldl (fun t e ↦ if skip e then t else t.insert e.1 (f e)) start).Distinct := by
  induction entries generalizing start with
  | nil => exact h
  | cons e rest ih =>
    rw [List.foldl_cons]
    refine ih ?_
    split
    · exact h
    · exact h.insert _ _

end Table

/-! ### Usable rates -/

/-- Whether a rate is finite and positive. -/
def Scalar.isUsableRate {K : Type} [Scalar K] (x : K) : Bool := isFinite x && !le x 0

theorem Double.isUsableRate_iff {x : Float} :
    Scalar.isUsableRate x = true ↔ x.isFinite = true ∧ 0 < x := by
  have hfinite : Scalar.isFinite x = true ↔ x.isFinite = true := by
    rw [Scalar.isFinite, Option.isSome_iff_ne_none, Ne, truncate?_eq_none_iff,
      Bool.not_eq_false]
  rw [Scalar.isUsableRate, Bool.and_eq_true, hfinite, Bool.not_eq_true']
  refine and_congr_right fun h ↦ ?_
  obtain ⟨v, hv⟩ := exists_hasValue h
  have hzero : (0 : Float) < x ↔ 0 < v := lt_iff hasValue_zero hv
  have hle : Scalar.le x 0 = true ↔ v ≤ 0 := decide_eq_true_iff.trans (le_iff hv hasValue_zero)
  rw [hzero, ← not_le, ← hle, Bool.not_eq_true]
  rfl

theorem Scalar.isUsableRate_iff {x : ℚ} : isUsableRate x = true ↔ 0 < x := by
  have hle : le x (ofDecimal ⟨0, 0⟩) = true ↔ x ≤ 0 := by
    rw [ofNat_eq, Nat.cast_zero]
    exact decide_eq_true_iff
  rw [← not_le, ← hle, Bool.not_eq_true, ← Bool.not_eq_true']
  rfl

/-! ### What rates define -/

section

variable {K : Type} [Scalar K] {usable : K → Prop} {data : ExchangeRates K} {symbol : String}

namespace ExchangeRates

/-- The rate of a currency. That of the base currency is one, whatever the rates list for it. -/
def rate? (data : ExchangeRates K) (symbol : String) : Option K :=
  if symbol = data.base then some 1 else data.rates.get? symbol

/-- **The symbols of the currencies** that some rates define: they name no built-in unit, and they are
the base or have a usable rate. -/
def Defines (usable : K → Prop) (data : ExchangeRates K) (symbol : String) : Prop :=
  Units.lookup (K := K) symbol = none ∧
    (symbol = data.base ∨ ∃ rate, data.rates.get? symbol = some rate ∧ usable rate)

/-- **The currency** that some rates define under a symbol. -/
def currency? (data : ExchangeRates K) (symbol : String) : Option (NamedUnit K) :=
  if (Units.lookup (K := K) symbol).isSome then none
  else if symbol = data.base then some ⟨symbol, .base .currency, 1⟩
  else ((data.rates.get? symbol).filter Scalar.isUsableRate).map fun rate ↦
    ⟨symbol, .base .currency, 1 / rate⟩

theorem isSome_currency?_iff (husable : ∀ x : K, Scalar.isUsableRate x = true ↔ usable x) :
    (data.currency? symbol).isSome ↔ data.Defines usable symbol := by
  rw [currency?, Defines]
  cases Units.lookup (K := K) symbol with
  | some u => exact iff_of_false nofun fun h ↦ nomatch h.1
  | none =>
    by_cases hbase : symbol = data.base
    · simp [hbase]
    · cases data.rates.get? symbol with
      | none => simp [hbase]
      | some rate => simp [hbase, ← husable, Option.isSome_filter]

end ExchangeRates

namespace Registry

/-- The base currency is there from the start, unless its symbol names a unit. -/
theorem get?_start (base symbol : String) (u : NamedUnit K) :
    (if (Units.lookup (K := K) base).isNone then Table.empty.insert base u else .empty).get? symbol =
      if symbol = base ∧ Units.lookup (K := K) symbol = none then some u else none := by
  by_cases hbase : symbol = base
  · subst hbase
    cases Units.lookup (K := K) symbol <;> simp
  · split <;> simp [Table.get?_insert, hbase]

/-- **What is registered**: under each symbol the currency that the rates define. -/
theorem get?_defined (hdistinct : data.rates.Distinct) (symbol : String) :
    (defined data).get? symbol = data.currency? symbol := by
  let skip : String × K → Bool := fun e ↦ e.1 = data.base || !Scalar.isFinite e.2 ||
    Scalar.le e.2 0 || !(Units.lookup (K := K) e.1).isNone
  let currency : String × K → NamedUnit K := fun e ↦ ⟨e.1, .base .currency, 1 / e.2⟩
  refine (Table.get?_foldl_insert_unless skip currency hdistinct).trans ?_
  rw [get?_start, ExchangeRates.currency?]
  change ((data.rates.get? symbol).bind _).or _ = _
  cases hunit : Units.lookup (K := K) symbol with
  | some u =>
    have hskip (rate : K) : skip (symbol, rate) = true := by simp [skip, hunit]
    simp [hskip]
  | none =>
    by_cases hbase : symbol = data.base
    · subst hbase
      have hskip (rate : K) : skip (data.base, rate) = true := by simp [skip]
      simp [hskip]
    · have hskip (rate : K) : skip (symbol, rate) = !Scalar.isUsableRate rate := by
        simp [skip, hbase, hunit, Scalar.isUsableRate]
      cases data.rates.get? symbol with
      | none => simp [hbase]
      | some rate => cases h : Scalar.isUsableRate rate <;> simp [hbase, hskip, h, currency]

theorem distinct_defined (data : ExchangeRates K) : (defined data).Distinct := by
  refine Table.distinct_foldl_insert_unless _ _ ?_
  split
  · exact Table.distinct_empty.insert _ _
  · exact Table.distinct_empty

theorem register_of_isFinal_eq_false {registry : Registry K} (h : registry.isFinal = false)
    (data : ExchangeRates K) :
    registry.register data = ((defined data).size, ⟨.ready, defined data, none⟩) := by
  rw [register, if_neg (Bool.eq_false_iff.1 h)]

theorem lookup_register {registry : Registry K} (h : registry.isFinal = false)
    (hdistinct : data.rates.Distinct) (symbol : String) :
    (registry.register data).2.lookup symbol = data.currency? symbol := by
  rw [register_of_isFinal_eq_false h, lookup, if_pos rfl, get?_defined hdistinct]

/-- **What registering rates does** to a registry: the symbols that it answers afterwards are those of
the currencies that the rates define, the number of these is returned, and the names of built-in units
keep their meaning. -/
structure Registers (usable : K → Prop) (data : ExchangeRates K) (registry : Registry K) : Prop where
  isSome_lookup : ∀ symbol,
    ((registry.register data).2.lookup symbol).isSome ↔ data.Defines usable symbol
  count : {symbol | data.Defines usable symbol}.encard = (registry.register data).1
  unit?_eq : ∀ (engine : Engine K) name, (Units.lookup (K := K) name).isSome →
    (⟨engine, (registry.register data).2⟩ : Context K).unit? name =
      (⟨engine, registry⟩ : Context K).unit? name

theorem registers_of_isFinal_eq_false (husable : ∀ x : K, Scalar.isUsableRate x = true ↔ usable x)
    {registry : Registry K} (h : registry.isFinal = false) (hdistinct : data.rates.Distinct) :
    registry.Registers usable data := by
  have hsome (symbol : String) :
      ((registry.register data).2.lookup symbol).isSome ↔ data.Defines usable symbol := by
    rw [lookup_register h hdistinct, ExchangeRates.isSome_currency?_iff husable]
  refine ⟨hsome, ?_, fun engine name hname ↦ ?_⟩
  · rw [register_of_isFinal_eq_false h]
    have hsymbols : {symbol | data.Defines usable symbol} =
        {symbol | ((defined data).get? symbol).isSome} := by
      ext symbol
      rw [Set.mem_ofPred_eq, Set.mem_ofPred_eq, get?_defined hdistinct,
        ExchangeRates.isSome_currency?_iff husable]
    rw [hsymbols, (distinct_defined data).encard_eq]
  · obtain ⟨u, hu⟩ := Option.isSome_iff_exists.1 hname
    rw [Context.unit?, Context.unit?, hu, Option.some_or, Option.some_or]

end Registry

end

/-! ### Cross rates -/

section

variable {data : ExchangeRates ℚ} {symbol symbol' : String} {u u' : NamedUnit ℚ}

/-- Over exact numbers the factor of a currency is the reciprocal of its rate, which is positive. -/
theorem ExchangeRates.exists_rate_of_currency? (h : data.currency? symbol = some u) :
    u.dimension = .base .currency ∧
      ∃ rate, data.rate? symbol = some rate ∧ 0 < rate ∧ u.factor = 1 / rate := by
  have hone : (Scalar.ofDecimal ⟨1, 0⟩ : ℚ) = 1 := Scalar.ofNat_eq 1
  rw [currency?] at h
  split at h
  · contradiction
  · split at h
    · rename_i hbase
      obtain rfl := Option.some.inj h
      refine ⟨rfl, 1, ?_, one_pos, ?_⟩
      · rw [rate?, if_pos hbase]
        exact congrArg some hone
      · rw [div_one]
        exact hone
    · rename_i hbase
      obtain ⟨rate, hrate, rfl⟩ := Option.map_eq_some_iff.1 h
      obtain ⟨hget, husable⟩ := Option.filter_eq_some_iff.1 hrate
      refine ⟨rfl, rate, ?_, Scalar.isUsableRate_iff.1 husable, ?_⟩
      · rw [rate?, if_neg hbase, hget]
      · exact congrArg (· / rate) hone

/-- **All cross rates follow**: a conversion between two currencies that a registry knows divides by the
rate of the first and multiplies by that of the second. -/
def Registry.Crosses (data : ExchangeRates ℚ) (registry : Registry ℚ) : Prop :=
  ∀ symbol symbol' u u', registry.lookup symbol = some u → registry.lookup symbol' = some u' →
    ∃ rate rate', data.rate? symbol = some rate ∧ data.rate? symbol' = some rate' ∧
      ∀ value, ∃ q, (Quantity.ofValue value (.single u)).convert (.single u') = .ok q ∧
        q.value = value * rate' / rate

theorem Units.factor_single_eq (u : NamedUnit ℚ) : (single u).factor = u.factor := by
  rw [factor_eq_prod, single, factorProduct_cons, factorProduct_nil, zpow_one, mul_one]

theorem Registry.crosses_of_isFinal_eq_false {registry : Registry ℚ} (h : registry.isFinal = false)
    (hdistinct : data.rates.Distinct) : (registry.register data).2.Crosses data := by
  intro symbol symbol' u u' hu hu'
  rw [lookup_register h hdistinct] at hu hu'
  obtain ⟨hdimension, rate, hrate, hpos, hfactor⟩ := ExchangeRates.exists_rate_of_currency? hu
  obtain ⟨hdimension', rate', hrate', hpos', hfactor'⟩ := ExchangeRates.exists_rate_of_currency? hu'
  refine ⟨rate, rate', hrate, hrate', fun value ↦ ⟨⟨value * (1 / rate), .single u'⟩, ?_, ?_⟩⟩
  · have hsame : u.dimension = u'.dimension := hdimension.trans hdimension'.symm
    rw [Quantity.ofValue, Units.factor_single_eq, hfactor]
    exact if_pos hsame
  · rw [Quantity.value, Units.factor_single_eq, hfactor']
    field_simp

end

/-- **Registering rates defines the usable currencies and their cross rates**, as long as loading has
not ended. Over doubles a rate is usable if it is finite and positive. Over exact numbers conversions
between currencies use nothing but the rates, where the rate of the base currency is one. -/
theorem Registry.register_defines_currencies :
    (∀ (data : ExchangeRates Float) (registry : Registry Float), data.rates.Distinct →
      registry.isFinal = false →
        registry.Registers (fun rate ↦ rate.isFinite = true ∧ 0 < rate) data) ∧
    ∀ (data : ExchangeRates ℚ) (registry : Registry ℚ), data.rates.Distinct →
      registry.isFinal = false →
        registry.Registers (0 < ·) data ∧ (registry.register data).2.Crosses data :=
  ⟨fun _ _ hdistinct h ↦
      registers_of_isFinal_eq_false (fun _ ↦ Double.isUsableRate_iff) h hdistinct,
    fun _ _ hdistinct h ↦
      ⟨registers_of_isFinal_eq_false (fun _ ↦ Scalar.isUsableRate_iff) h hdistinct,
        crosses_of_isFinal_eq_false h hdistinct⟩⟩

/-- Rates against the euro. One lists the euro again, one is zero and one is for kilometres, so three
currencies are defined, and pounds are converted to dollars by the rates of these two. -/
theorem Registry.register_defines_currencies_euro :
    let data : ExchangeRates Float := ⟨"EUR", none,
      .ofList [("EUR", 2), ("GBP", 0.8), ("JPY", 0), ("USD", 1.25), ("km", 3)]⟩
    let exact : ExchangeRates ℚ := ⟨"EUR", none,
      .ofList [("EUR", 2), ("GBP", 4 / 5), ("JPY", 0), ("USD", 5 / 4), ("km", 3)]⟩
    data.rates.Distinct ∧ (uninitialized : Registry Float).isFinal = false ∧
      {symbol | data.Defines (fun rate ↦ rate.isFinite = true ∧ 0 < rate) symbol}.encard = 3 ∧
      exact.rates.Distinct ∧ (uninitialized : Registry ℚ).isFinal = false ∧
      ∃ pound dollar, (uninitialized.register exact).2.lookup "GBP" = some pound ∧
        (uninitialized.register exact).2.lookup "USD" = some dollar ∧
        ∀ value, ∃ q, (Quantity.ofValue value (.single pound)).convert (.single dollar) = .ok q ∧
          q.value = value * (5 / 4) / (4 / 5) := by
  intro data exact
  have hdata : data.rates.Distinct := Table.distinct_ofList _
  have hexact : exact.rates.Distinct := Table.distinct_ofList _
  have hregisters := register_defines_currencies.1 data uninitialized hdata rfl
  have hcrosses := (register_defines_currencies.2 exact uninitialized hexact rfl).2
  have hcount : ((uninitialized : Registry Float).register data).1 = 3 := by decide +kernel
  have hpound : ((uninitialized.register exact).2.lookup "GBP").isSome = true := by decide +kernel
  have hdollar : ((uninitialized.register exact).2.lookup "USD").isSome = true := by decide +kernel
  obtain ⟨pound, hpound⟩ := Option.isSome_iff_exists.1 hpound
  obtain ⟨dollar, hdollar⟩ := Option.isSome_iff_exists.1 hdollar
  obtain ⟨rate, rate', hrate, hrate', hconvert⟩ := hcrosses _ _ _ _ hpound hdollar
  have hrates : exact.rate? "GBP" = some (4 / 5) ∧ exact.rate? "USD" = some (5 / 4) := by
    decide +kernel
  obtain rfl := Option.some.inj (hrates.1.symm.trans hrate)
  obtain rfl := Option.some.inj (hrates.2.symm.trans hrate')
  refine ⟨hdata, rfl, ?_, hexact, rfl, pound, dollar, hpound, hdollar, hconvert⟩
  rw [hregisters.count, hcount]
  rfl

end Reckoner
