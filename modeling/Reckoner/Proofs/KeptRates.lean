import Reckoner.Proofs.LatestRates

/-!
# Which rates survive a source that fails

The rates of one fetch are there for the next one, when the source fails, exactly if each of them is
read back from the file (`kept_rates_served_iff`). A rate that is not finite is written as `null`, since
there is no numeral for it, and this is not read as a rate. So one such rate costs all the others: the
file as a whole cannot be read, and the failure of the source is the answer
(`exists_kept_rates_lost`), although the registry would only have passed this one rate over.
-/

namespace Reckoner

theorem Json.Numeral.ofFloat?_eq_none_iff {x : Float} : ofFloat? x = none ↔ x.isFinite = false := by
  rw [← Bool.not_eq_true, Double.isFinite_iff, ofFloat?]
  cases Double.ofFloat x with
  | nan =>
    refine iff_of_true rfl ?_
    rintro ⟨_, _, _, h⟩
    contradiction
  | infinite negative =>
    refine iff_of_true rfl ?_
    rintro ⟨_, _, _, h⟩
    contradiction
  | finite negative m e => exact iff_of_false (Option.some_ne_none _) fun h ↦ h ⟨_, _, _, rfl⟩

/-! ### Rates that are not read back -/

namespace ExchangeRates

theorem rateOfJson?_eq_some_iff {x : Float} {symbol : String} {e : String × Float} :
    rateOfJson? (symbol, rateJson x) = some e ↔
      e.1 = symbol ∧ (Json.Numeral.ofFloat? x).bind Json.Numeral.toFloat? = some e.2 := by
  obtain ⟨symbol', y⟩ := e
  rw [rateJson]
  cases Json.Numeral.ofFloat? x with
  | none => exact iff_of_false (Option.some_ne_none _).symm fun h ↦ Option.some_ne_none _ h.2.symm
  | some n =>
    show n.toFloat?.map (symbol, ·) = _ ↔ _
    rw [Option.map_eq_some_iff, Option.bind_some]
    constructor
    · rintro ⟨z, hz, heq⟩
      obtain ⟨rfl, rfl⟩ := Prod.mk.inj heq
      exact ⟨rfl, hz⟩
    · rintro ⟨rfl, hy⟩
      exact ⟨y, hy, rfl⟩

/-- What is read has the symbols of what was written. -/
theorem keys_of_mapM {entries read : List (String × Float)}
    (h : (entries.map fun e ↦ (e.1, rateJson e.2)).mapM rateOfJson? = some read) :
    read.map Prod.fst = entries.map Prod.fst := by
  induction entries generalizing read with
  | nil =>
    obtain rfl := Option.some.inj h
    rfl
  | cons e rest ih =>
    rw [List.map_cons, List.mapM_cons] at h
    obtain ⟨e', he', h⟩ := Option.bind_eq_some_iff.1 h
    obtain ⟨rest', hrest', h⟩ := Option.bind_eq_some_iff.1 h
    obtain rfl := Option.some.inj h
    rw [List.map_cons, List.map_cons, ih hrest', (rateOfJson?_eq_some_iff.1 he').1]

theorem mapM_rateOfJson?_iff {entries : List (String × Float)} :
    (entries.map fun e ↦ (e.1, rateJson e.2)).mapM rateOfJson? = some entries ↔
      ∀ e ∈ entries, Double.IsReadBack e.2 := by
  refine ⟨fun h ↦ ?_, mapM_rateOfJson?⟩
  induction entries with
  | nil => exact List.forall_mem_nil _
  | cons e rest ih =>
    rw [List.map_cons, List.mapM_cons] at h
    obtain ⟨e', he', h⟩ := Option.bind_eq_some_iff.1 h
    obtain ⟨rest', hrest', h⟩ := Option.bind_eq_some_iff.1 h
    obtain ⟨rfl, rfl⟩ := List.cons.inj (Option.some.inj h)
    exact List.forall_mem_cons.2 ⟨(rateOfJson?_eq_some_iff.1 he').2, ih hrest'⟩

/-- One rate that is not finite is enough for none to be read. -/
theorem mapM_rateOfJson?_eq_none {entries : List (String × Float)}
    (h : ∃ e ∈ entries, e.2.isFinite = false) :
    (entries.map fun e ↦ (e.1, rateJson e.2)).mapM rateOfJson? = none := by
  obtain ⟨e, he, hfinite⟩ := h
  induction entries with
  | nil => contradiction
  | cons e' rest ih =>
    rw [List.map_cons, List.mapM_cons]
    rcases List.mem_cons.1 he with rfl | he
    · have hnone : rateOfJson? (e.1, rateJson e.2) = none := by
        rw [rateJson, Json.Numeral.ofFloat?_eq_none_iff.2 hfinite]
        rfl
      rw [hnone]
      rfl
    · rw [ih he]
      cases rateOfJson? (e'.1, rateJson e'.2) <;> rfl

variable {data : ExchangeRates Float}

theorem ofJson?_toJson_eq_some_iff (h : data.rates.Distinct) :
    ofJson? data.toJson = some data ↔ ∀ e ∈ data.rates.entries, Double.IsReadBack e.2 := by
  rw [← mapM_rateOfJson?_iff, ofJson?_toJson_eq, Option.map_eq_some_iff]
  constructor
  · rintro ⟨read, hread, heq⟩
    have hdistinct : (⟨read⟩ : Table String Float).Distinct := by
      rwa [Table.Distinct, keys_of_mapM hread]
    have hrates : data.rates = ⟨read⟩ :=
      (congrArg ExchangeRates.rates heq).symm.trans hdistinct.ofList_entries
    rw [hread, hrates]
  · exact fun hread ↦ ⟨_, hread, congrArg _ h.ofList_entries⟩

theorem ofJson?_toJson_eq_none (h : ∃ e ∈ data.rates.entries, e.2.isFinite = false) :
    ofJson? data.toJson = none := by
  rw [ofJson?_toJson_eq, mapM_rateOfJson?_eq_none h, Option.map_none]

end ExchangeRates

/-! ### Two fetches -/

/-- When the source fails, the answer is what the file holds. -/
theorem answer_fetchRates_error (ttl : Int) (e : RateError) (now written : Timestamp)
    (file : Option String) :
    (fetchRates ttl (.error e) now written file).answer = (ratesIn? file).elim (.error e) .ok := by
  obtain ⟨_, hcase⟩ := fetchCase_fetchRates ttl ⟨.error e, now, written⟩ file
  generalize fetchRates ttl _ _ _ file = fetch at hcase ⊢
  cases hcase with
  | fresh entry hentry => rw [ratesIn?_of_some hentry, Option.elim_some]
  | obtained data _ hsource => contradiction
  | stale entry e' hentry => rw [ratesIn?_of_some hentry, Option.elim_some]
  | failed e' hnone _ hsource =>
    obtain rfl := Except.error.inj hsource
    rw [ratesIn?, hnone, Option.map_none, Option.elim_none]

/-- What the source gives is written to the file. -/
theorem file_fetchRates_ok {ttl : Int} {data : ExchangeRates Float} {now written : Timestamp}
    {file : Option String} (h : (fetchRates ttl (.ok data) now written file).asked = true) :
    (fetchRates ttl (.ok data) now written file).file = some (FetchedRates.text ⟨written, data⟩) := by
  obtain ⟨_, hcase⟩ := fetchCase_fetchRates ttl ⟨.ok data, now, written⟩ file
  generalize fetchRates ttl _ _ _ file = fetch at hcase h ⊢
  cases hcase with
  | fresh => contradiction
  | obtained data' _ hsource =>
    obtain rfl := Except.ok.inj hsource
    rfl
  | stale _ _ _ _ hsource => contradiction
  | failed _ _ _ hsource => contradiction

theorem ratesIn?_text {written : Timestamp} (h : written.InRange) (data : ExchangeRates Float) :
    ratesIn? (some (FetchedRates.text ⟨written, data⟩)) = ExchangeRates.ofJson? data.toJson := by
  rw [ratesIn?, Option.bind_some, FetchedRates.ofText?_text_eq h, Option.map_map]
  exact Option.map_id'

/-- **Which rates survive.** Rates that the source gives in one fetch are the answer of the next one, in
which the source fails, exactly if each of them is read back; if one is not finite, there is no answer.
The time to live does not matter. -/
theorem kept_rates_served_iff {data : ExchangeRates Float} (hdata : data.rates.Distinct) {ttl : Int}
    {now written : Timestamp} {file : Option String} (hwritten : written.InRange)
    (hasked : (fetchRates ttl (.ok data) now written file).asked = true) (ttl' : Int) (e : RateError)
    (now' written' : Timestamp) :
    let kept := (fetchRates ttl (.ok data) now written file).file
    let later := fetchRates ttl' (.error e) now' written' kept
    (later.answer = .ok data ↔ ∀ rate ∈ data.rates.entries, Double.IsReadBack rate.2) ∧
      ((∃ rate ∈ data.rates.entries, rate.2.isFinite = false) → later.answer = .error e) := by
  intro kept later
  have hanswer : later.answer = (ExchangeRates.ofJson? data.toJson).elim (.error e) .ok := by
    rw [← ratesIn?_text hwritten, ← file_fetchRates_ok hasked]
    exact answer_fetchRates_error ttl' e now' written' kept
  rw [hanswer]
  refine ⟨?_, fun h ↦ ?_⟩
  · rw [← ExchangeRates.ofJson?_toJson_eq_some_iff hdata]
    cases ExchangeRates.ofJson? data.toJson with
    | none => exact iff_of_false nofun nofun
    | some read => rw [Option.elim_some, Except.ok.injEq, Option.some.injEq]
  · rw [ExchangeRates.ofJson?_toJson_eq_none h, Option.elim_none]

/-- A rate of a short decimal survives. -/
theorem kept_rates_served_iff_euro :
    let data : ExchangeRates Float := ⟨"EUR", some "2024-01-01", ⟨[("USD", 1.1)]⟩⟩
    let first := fetchRates (timeToLive 7) (.ok data) ⟨0⟩ ⟨0⟩ none
    data.rates.Distinct ∧ Timestamp.InRange ⟨0⟩ ∧ first.asked = true ∧
      (fetchRates (timeToLive 7) (.error .missingBase) ⟨1⟩ ⟨1⟩ first.file).answer = .ok data := by
  intro data first
  have hdata : data.rates.Distinct := List.nodup_singleton _
  have hrange : Timestamp.InRange ⟨0⟩ := by decide
  refine ⟨hdata, hrange, rfl, ?_⟩
  exact (kept_rates_served_iff hdata hrange rfl _ _ _ _).1.2
    (List.forall_mem_singleton.2 (by decide +kernel))

/-- Rates of which one is infinite are fetched and kept, and lost as soon as the source fails. -/
theorem exists_kept_rates_lost :
    let data : ExchangeRates Float := ⟨"EUR", some "2999-01-01", ⟨[("USD", 1 / 0)]⟩⟩
    let first := fetchRates (timeToLive 7) (.ok data) ⟨0⟩ ⟨0⟩ none
    (first.answer = .ok data ∧ first.asked = true ∧ first.file.isSome = true) ∧
      (fetchRates (timeToLive 7) (.error .missingBase) ⟨1⟩ ⟨1⟩ first.file).answer =
        .error .missingBase := by
  intro data first
  refine ⟨⟨rfl, rfl, rfl⟩, ?_⟩
  have hrange : Timestamp.InRange ⟨0⟩ := by decide
  have hinfinite : ∃ rate ∈ data.rates.entries, rate.2.isFinite = false :=
    ⟨_, List.mem_singleton_self _, by decide +kernel⟩
  rw [answer_fetchRates_error, file_fetchRates_ok rfl, ratesIn?_text hrange,
    ExchangeRates.ofJson?_toJson_eq_none hinfinite, Option.elim_none]

end Reckoner
