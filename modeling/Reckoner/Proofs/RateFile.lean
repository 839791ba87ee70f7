import Mathlib
import Reckoner.Currency.RateCache
import Reckoner.Proofs.CrossRates
import Reckoner.Proofs.JsonNumbers
import Reckoner.Proofs.TimestampText

/-!
# The file of rates is read back

What is written for rates is read as these rates (`FetchedRates.ofText?_text`). What that takes is that
the symbols are distinct, as the keys of a table are, that the time of fetching is one of those that are
dates, and that each rate is read back from its numeral. The doubles of short decimals are
(`Double.isReadBack_toFloat`), but not all others, so this is asked of the rates.
-/

namespace Reckoner

/-! ### Tables -/

namespace Table

variable {α β : Type} [DecidableEq α]

theorem insertEntry_of_notMem {a : α} {entries : List (α × β)} (b : β) (h : a ∉ entries.map Prod.fst) :
    insertEntry a b entries = entries ++ [(a, b)] := by
  induction entries with
  | nil => rfl
  | cons e rest ih =>
    rw [List.map_cons, List.mem_cons, not_or] at h
    rw [insertEntry, if_neg (Ne.symm h.1), ih h.2, List.cons_append]

theorem foldl_insert_eq (entries : List (α × β)) {pairs : List (α × β)}
    (h : ((entries ++ pairs).map Prod.fst).Nodup) :
    pairs.foldl (fun t (a, b) ↦ t.insert a b) (⟨entries⟩ : Table α β) = ⟨entries ++ pairs⟩ := by
  induction pairs generalizing entries with
  | nil => rw [List.append_nil, List.foldl_nil]
  | cons e rest ih =>
    have hnew : e.1 ∉ entries.map Prod.fst := by
      rw [List.map_append, List.map_cons] at h
      exact fun hmem ↦ (List.nodup_append.1 h).2.2 _ hmem _ List.mem_cons_self rfl
    have hinsert : (⟨entries⟩ : Table α β).insert e.1 e.2 = ⟨entries ++ [e]⟩ :=
      congrArg Table.mk (insertEntry_of_notMem e.2 hnew)
    rw [List.append_cons] at h ⊢
    exact (congrArg (List.foldl _ · rest) hinsert).trans (ih _ h)

/-- Pairs with distinct keys are the entries of their table. -/
theorem Distinct.ofList_entries {t : Table α β} (h : t.Distinct) : ofList t.entries = t :=
  foldl_insert_eq [] h

end Table

/-! ### Rates -/

namespace ExchangeRates

/-- Rates that are read back: each under a symbol of its own, and from its numeral. -/
structure IsReadBack (data : ExchangeRates Float) : Prop where
  distinct : data.rates.Distinct
  rates : ∀ e ∈ data.rates.entries, Double.IsReadBack e.2

variable {data : ExchangeRates Float}

theorem rateOfJson?_rateJson {x : Float} (h : Double.IsReadBack x) (symbol : String) :
    rateOfJson? (symbol, rateJson x) = some (symbol, x) := by
  rw [Double.IsReadBack] at h
  rw [rateJson]
  cases hn : Json.Numeral.ofFloat? x with
  | none => rw [hn] at h; contradiction
  | some n =>
    rw [hn, Option.bind_some] at h
    show n.toFloat?.map (symbol, ·) = _
    rw [h, Option.map_some]

theorem mapM_rateOfJson? {entries : List (String × Float)} (h : ∀ e ∈ entries, Double.IsReadBack e.2) :
    (entries.map fun e ↦ (e.1, rateJson e.2)).mapM rateOfJson? = some entries := by
  induction entries with
  | nil => rfl
  | cons e rest ih =>
    obtain ⟨he, hrest⟩ := List.forall_mem_cons.1 h
    rw [List.map_cons, List.mapM_cons, rateOfJson?_rateJson he, ih hrest]
    rfl

theorem toJson_eq (data : ExchangeRates Float) : data.toJson =
    .object [("base", .string data.base), ("date", data.date.elim .null .string),
      ("rates", .object (data.rates.entries.map fun e ↦ (e.1, rateJson e.2)))] := by
  rw [toJson]
  cases data.date <;> rfl

/-- Rates are read back if each of them is. -/
theorem ofJson?_toJson_eq (data : ExchangeRates Float) :
    ofJson? data.toJson =
      ((data.rates.entries.map fun e ↦ (e.1, rateJson e.2)).mapM rateOfJson?).map
        fun entries ↦ ⟨data.base, data.date, .ofList entries⟩ := by
  have hdate (date : Option String) : dateOfJson? (some (date.elim .null .string)) = some date := by
    cases date <;> rfl
  have hrecord : data.toJson.record? ["base", "date", "rates"] = some [some (.string data.base),
      some (data.date.elim .null .string),
      some (.object (data.rates.entries.map fun e ↦ (e.1, rateJson e.2)))] := by
    rw [toJson_eq]
    rfl
  rw [ofJson?, hrecord]
  show (dateOfJson? _).bind (fun date ↦ (List.mapM rateOfJson? _).bind fun entries ↦
    some (⟨data.base, date, .ofList entries⟩ : ExchangeRates Float)) = _
  rw [hdate, Option.bind_some, Option.map_eq_bind]
  rfl

theorem ofJson?_toJson (h : data.IsReadBack) : ofJson? data.toJson = some data := by
  rw [ofJson?_toJson_eq, mapM_rateOfJson? h.rates, Option.map_some, h.distinct.ofList_entries]

theorem wellFormed_of_mem_rateJson (x : Float) : ∀ n ∈ (rateJson x).numerals, n.WellFormed := by
  rw [rateJson]
  cases hn : Json.Numeral.ofFloat? x with
  | none => exact List.forall_mem_nil _
  | some n => exact List.forall_mem_singleton.2 (Json.Numeral.wellFormed_of_ofFloat? hn)

/-- Whatever the rates, their numbers are written as numbers can be read. -/
theorem wellFormed_of_mem_toJson (data : ExchangeRates Float) :
    ∀ n ∈ data.toJson.numerals, n.WellFormed := by
  have hrates (entries : List (String × Float)) : ∀ n ∈ Json.memberNumerals
      (entries.map fun e ↦ (e.1, rateJson e.2)), n.WellFormed := by
    induction entries with
    | nil => exact List.forall_mem_nil _
    | cons e rest ih => exact List.forall_mem_append.2 ⟨wellFormed_of_mem_rateJson e.2, ih⟩
  have hdate : ∀ n ∈ (data.date.elim Json.null Json.string).numerals, n.WellFormed := by
    cases data.date <;> exact List.forall_mem_nil _
  rw [toJson_eq]
  refine List.forall_mem_append.2 ⟨List.forall_mem_nil _, List.forall_mem_append.2 ⟨hdate, ?_⟩⟩
  exact List.forall_mem_append.2 ⟨hrates data.rates.entries, List.forall_mem_nil _⟩

end ExchangeRates

/-- Whether a file can be read depends on its rates alone. -/
theorem FetchedRates.ofText?_text_eq {entry : FetchedRates} (htime : entry.fetchedAt.InRange) :
    ofText? entry.text =
      (ExchangeRates.ofJson? entry.data.toJson).map fun data ↦ ⟨entry.fetchedAt, data⟩ := by
  let v : Json := .object [("fetched_at", .string entry.fetchedAt.text), ("data", entry.data.toJson)]
  have hread : Json.ofText? entry.text = some v := by
    refine Json.ofText?_text (List.forall_mem_append.2 ⟨List.forall_mem_nil _, ?_⟩)
    exact List.forall_mem_append.2 ⟨entry.data.wellFormed_of_mem_toJson, List.forall_mem_nil _⟩
  have hrecord : v.record? ["fetched_at", "data"] =
      some [some (.string entry.fetchedAt.text), some entry.data.toJson] := rfl
  rw [ofText?, hread, Option.map_eq_bind]
  simp only [Option.bind_eq_bind, Option.bind_some, hrecord, Timestamp.ofText?_text htime]
  rfl

/-- **What is written for rates is read as these rates.** -/
theorem FetchedRates.ofText?_text {entry : FetchedRates} (htime : entry.fetchedAt.InRange)
    (hdata : entry.data.IsReadBack) : ofText? entry.text = some entry := by
  rw [ofText?_text_eq htime, ExchangeRates.ofJson?_toJson hdata, Option.map_some]

end Reckoner
