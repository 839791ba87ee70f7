import Reckoner.Proofs.LatestRates

/-!
# How long rates stay fresh

Rates are fresh for a number of days, and more days should never make them stale. That is so for all
numbers of days up to a bound that is far beyond any that is meant (`longer_keeps_fresh_iff`): the time
to live grows with the days up to the longest span, and from there on it is that span.

The bound is there since the days are taken as a signed number. The largest numbers of 64 bits then
are negative numbers close to zero, whose spans are not too long, so their time to live is negative
(`timeToLive_eq`). Under it, rates that have just been fetched are stale (`exists_longer_stale`).
-/

namespace Reckoner

/-! ### The time to live -/

/-- The least number of days that is taken as a negative one whose span is not too long. -/
def firstNegativeDays : UInt64 := 18446743966957560449

theorem firstNegativeDays_le_iff {days : UInt64} :
    firstNegativeDays ≤ days ↔ 18446743966957560449 ≤ days.toNat :=
  UInt64.le_iff_toNat_le

/-- **The time to live by the number of days**: so many days, as far as that is not too long; at the end
of the range as many days as are missing there, negated; and in between the longest span. -/
theorem timeToLive_eq (days : UInt64) :
    timeToLive days =
      if days.toNat ≤ 106751991167 then (days.toNat : Int) * 86400000
      else if firstNegativeDays ≤ days then (days.toNat - 2 ^ 64 : Int) * 86400000
      else longestSpan := by
  have hsigned : days.toInt64.toInt =
      if 2 * days.toNat < 2 ^ 64 then (days.toNat : Int) else days.toNat - 2 ^ 64 :=
    BitVec.toInt_eq_toNat_cond days.toBitVec
  have hdays := days.toNat_lt
  simp only [timeToLive, hsigned, firstNegativeDays_le_iff, longestSpan]
  split_ifs <;> omega

/-- The time to live is negative exactly from the bound on. -/
theorem timeToLive_neg_iff {days : UInt64} : timeToLive days < 0 ↔ firstNegativeDays ≤ days := by
  have hdays := days.toNat_lt
  simp only [timeToLive_eq, firstNegativeDays_le_iff, longestSpan]
  split_ifs <;> omega

/-- More days mean no shorter time to live on either side of the bound. -/
theorem timeToLive_mono {days more : UInt64} (h : days ≤ more)
    (hsign : firstNegativeDays ≤ more → firstNegativeDays ≤ days) :
    timeToLive days ≤ timeToLive more := by
  have hle : days.toNat ≤ more.toNat := UInt64.le_iff_toNat_le.1 h
  have hmore := more.toNat_lt
  rw [firstNegativeDays_le_iff, firstNegativeDays_le_iff] at hsign
  simp only [timeToLive_eq, firstNegativeDays_le_iff, longestSpan]
  split_ifs <;> omega

/-! ### Fresh rates -/

namespace FetchedRates

variable {entry : FetchedRates} {ttl ttl' : Int} {now : Timestamp}

theorem isFresh_iff : entry.isFresh ttl now = true ↔ now.nanos - entry.stamp.nanos ≤ ttl * 1000000 :=
  decide_eq_true_iff

/-- Rates stay fresh if their time to live is not shortened. -/
theorem isFresh_mono (h : ttl ≤ ttl') (hfresh : entry.isFresh ttl now = true) :
    entry.isFresh ttl' now = true := by
  rw [isFresh_iff] at hfresh ⊢
  exact hfresh.trans (Int.mul_le_mul_of_nonneg_right h (by decide))

/-- Rates without a day of their own that are fetched just now. -/
def justNow : FetchedRates := ⟨⟨0⟩, ⟨"EUR", none, ⟨[]⟩⟩⟩

theorem isFresh_justNow : justNow.isFresh ttl ⟨0⟩ = true ↔ 0 ≤ ttl := by
  rw [isFresh_iff]
  show (0 - 0 : Int) ≤ ttl * 1000000 ↔ 0 ≤ ttl
  omega

end FetchedRates

/-! ### Fetches -/

variable {ttl ttl' : Int} {o : Occasion} {file : Option String}

/-- What a file holds is served without asking the source as long as it is fresh. -/
theorem fetchRates_of_holdsFresh (h : HoldsFresh ttl o.now file) :
    ∃ entry, file.bind FetchedRates.ofText? = some entry ∧
      fetchRates ttl o.source o.now o.written file = ⟨.ok entry.data, false, file⟩ := by
  obtain ⟨_, hcase⟩ := fetchCase_fetchRates ttl o file
  generalize fetchRates ttl o.source o.now o.written file = fetch at hcase
  cases hcase with
  | fresh entry hentry _ => exact ⟨entry, hentry, rfl⟩
  | obtained _ hstale => exact absurd h hstale
  | stale _ _ _ hstale => exact absurd h hstale
  | failed _ _ hstale => exact absurd h hstale

theorem asked_eq_false_iff :
    (fetchRates ttl o.source o.now o.written file).asked = false ↔ HoldsFresh ttl o.now file := by
  rw [← Bool.not_eq_true, asked_fetchRates_iff, not_not]

theorem holdsFresh_iff {entry : FetchedRates} {now : Timestamp}
    (hread : file.bind FetchedRates.ofText? = some entry) :
    HoldsFresh ttl now file ↔ entry.isFresh ttl now = true := by
  constructor
  · rintro ⟨entry', hentry', hfresh⟩
    obtain rfl := Option.some.inj (hread.symm.trans hentry')
    exact hfresh
  · exact fun hfresh ↦ ⟨entry, hread, hfresh⟩

theorem HoldsFresh.mono {now : Timestamp} (h : ttl ≤ ttl') (hfresh : HoldsFresh ttl now file) :
    HoldsFresh ttl' now file := by
  obtain ⟨entry, hentry, hfresh⟩ := hfresh
  exact ⟨entry, hentry, FetchedRates.isFresh_mono h hfresh⟩

theorem holdsFresh_justNow :
    HoldsFresh ttl ⟨0⟩ (some FetchedRates.justNow.text) ↔ 0 ≤ ttl := by
  have hread : (some FetchedRates.justNow.text).bind FetchedRates.ofText? = some .justNow := by
    rw [Option.bind_some]
    exact FetchedRates.ofText?_text (by decide) ⟨List.nodup_nil, List.forall_mem_nil _⟩
  rw [holdsFresh_iff hread, FetchedRates.isFresh_justNow]

/-- A fetch that does not ask the source comes out the same if the time to live is not shortened. -/
theorem fetchRates_mono (h : ttl ≤ ttl')
    (hasked : (fetchRates ttl o.source o.now o.written file).asked = false) :
    fetchRates ttl' o.source o.now o.written file = fetchRates ttl o.source o.now o.written file := by
  have hfresh := asked_eq_false_iff.1 hasked
  obtain ⟨entry, hentry, hfetch⟩ := fetchRates_of_holdsFresh hfresh
  obtain ⟨entry', hentry', hfetch'⟩ := fetchRates_of_holdsFresh (o := o) (hfresh.mono h)
  obtain rfl := Option.some.inj (hentry.symm.trans hentry')
  rw [hfetch, hfetch']

/-! ### More days -/

/-- **More days never make rates stale**, unless they are so many that they are taken as negative: this
is so for the rates themselves, whatever they are and whenever they are looked at, and for fetches that
are served from the file. -/
theorem longer_keeps_fresh_iff {days more : UInt64} (h : days ≤ more) :
    ((∀ (entry : FetchedRates) (now : Timestamp), entry.isFresh (timeToLive days) now = true →
        entry.isFresh (timeToLive more) now = true) ↔
      (firstNegativeDays ≤ more → firstNegativeDays ≤ days)) ∧
    ((∀ (o : Occasion) (file : Option String),
        (fetchRates (timeToLive days) o.source o.now o.written file).asked = false →
        fetchRates (timeToLive more) o.source o.now o.written file =
          fetchRates (timeToLive days) o.source o.now o.written file) ↔
      (firstNegativeDays ≤ more → firstNegativeDays ≤ days)) := by
  have hnonneg (d : UInt64) : 0 ≤ timeToLive d ↔ ¬firstNegativeDays ≤ d := by
    rw [← not_lt, timeToLive_neg_iff]
  refine ⟨⟨fun hfresh hmore ↦ ?_, fun hsign entry now ↦ ?_⟩,
    ⟨fun hfetch hmore ↦ ?_, fun hsign o file ↦ ?_⟩⟩
  · -- Rates that are fetched just now are fresh exactly under a time that is not negative.
    by_contra hdays
    have hnow := hfresh .justNow ⟨0⟩
    rw [FetchedRates.isFresh_justNow, FetchedRates.isFresh_justNow, hnonneg, hnonneg] at hnow
    exact hnow hdays hmore
  · exact FetchedRates.isFresh_mono (timeToLive_mono h hsign)
  · by_contra hdays
    have hserved (d : UInt64) : (fetchRates (timeToLive d) (.error .missingBase) ⟨0⟩ ⟨0⟩
        (some FetchedRates.justNow.text)).asked = false ↔ ¬firstNegativeDays ≤ d := by
      rw [← hnonneg, ← holdsFresh_justNow]
      exact asked_eq_false_iff (o := ⟨.error .missingBase, ⟨0⟩, ⟨0⟩⟩)
    have hless := (hserved days).2 hdays
    have hmore' := hfetch ⟨.error .missingBase, ⟨0⟩, ⟨0⟩⟩ _ hless
    exact (hserved more).1 ((congrArg Fetch.asked hmore').trans hless) hmore
  · exact fetchRates_mono (timeToLive_mono h hsign)

/-- Rates that are fresh for a week are fresh for as many days as no signed number of 64 bits can be. -/
theorem longer_keeps_fresh_iff_week :
    (7 : UInt64) ≤ 9223372036854775808 ∧
      ∀ (entry : FetchedRates) (now : Timestamp), entry.isFresh (timeToLive 7) now = true →
        entry.isFresh (timeToLive 9223372036854775808) now = true := by
  have hweek : (7 : UInt64) ≤ 9223372036854775808 := by decide
  exact ⟨hweek, (longer_keeps_fresh_iff hweek).1.2 fun hmore ↦ absurd hmore (by decide)⟩

/-- Rates of the year 2999 that are fresh for a week at the start of the year 2026, and stale for some
number of days that is larger. -/
theorem exists_longer_stale :
    let entry : FetchedRates := ⟨⟨1704067200000000000⟩, ⟨"EUR", some "2999-01-01", ⟨[("USD", 1.5)]⟩⟩⟩
    let o : Occasion :=
      ⟨.ok ⟨"CHF", some "2020-02-02", ⟨[]⟩⟩, ⟨1767225600000000000⟩, ⟨1767225600000000000⟩⟩
    (7 : UInt64) ≤ 18446744073709151616 ∧
      entry.isFresh (timeToLive 7) o.now = true ∧
      entry.isFresh (timeToLive 18446744073709151616) o.now = false ∧
      (fetchRates (timeToLive 7) o.source o.now o.written (some entry.text)).asked = false ∧
      (fetchRates (timeToLive 18446744073709151616) o.source o.now o.written
        (some entry.text)).asked = true := by
  intro entry o
  have hday : Timestamp.ofDayText? "2999-01-01" = some ⟨32472144000000000000⟩ := by cbv
  have hstamp : entry.stamp = ⟨32472144000000000000⟩ := by
    rw [FetchedRates.stamp, Option.bind_some, hday, Option.getD_some]
  have hread : (some entry.text).bind FetchedRates.ofText? = some entry := by
    rw [Option.bind_some]
    exact FetchedRates.ofText?_text (by decide)
      ⟨List.nodup_singleton _, List.forall_mem_singleton.2 (by decide +kernel)⟩
  have hfresh : entry.isFresh (timeToLive 7) o.now = true := by
    rw [FetchedRates.isFresh_iff, hstamp, timeToLive_eq]
    decide
  have hstale : entry.isFresh (timeToLive 18446744073709151616) o.now = false := by
    rw [← Bool.not_eq_true, FetchedRates.isFresh_iff, hstamp, timeToLive_eq]
    decide
  refine ⟨by decide, hfresh, hstale, asked_eq_false_iff.2 ((holdsFresh_iff hread).2 hfresh), ?_⟩
  rw [asked_fetchRates_iff, holdsFresh_iff hread, Bool.not_eq_true]
  exact hstale

end Reckoner
