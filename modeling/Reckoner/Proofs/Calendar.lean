import Mathlib
import Reckoner.Date.Timestamp

/-!
# The calendar

The calendar day of a number has this number (`Day.number_ofNumber`), and it is a day that its month has
(`Day.isValid_ofNumber`).

Leap days make the years of an era unequally long. In years from March to February they come last, so the
place of a day in such a year, and the year, tell everything (`MarchDay`): the month and the day follow
from the place, and the number of the day from both. How a year and a place are found from a number is
checked once, on the centuries and blocks of four years of an era (`Places`).
-/

namespace Reckoner.Date

/-! ### Eras -/

/-- The place of a day in its era: centuries, blocks of four years, years, and days. Only a year that is
the last one of its block has a day more, and not the last one of a century unless it ends the era. -/
structure Places (dayOfEra c k m t : ℤ) : Prop where
  sum_eq : dayOfEra = 36524 * c + 1461 * k + 365 * m + t
  centuries : 0 ≤ c ∧ c ≤ 3
  blocks : 0 ≤ k ∧ k ≤ 24
  years : 0 ≤ m ∧ m ≤ 3
  days : 0 ≤ t ∧ (t ≤ 364 ∨ t = 365 ∧ m = 3 ∧ (k = 24 → c = 3))

theorem exists_places {dayOfEra : ℤ} (h0 : 0 ≤ dayOfEra) (h1 : dayOfEra < 146097) :
    ∃ c k m t, Places dayOfEra c k m t := by
  obtain ⟨c, r, hr, hc, hc', hr0, hr1⟩ : ∃ c r : ℤ, dayOfEra = 36524 * c + r ∧ 0 ≤ c ∧ c ≤ 3 ∧ 0 ≤ r ∧
      (r < 36524 ∨ r = 36524 ∧ c = 3) :=
    ⟨min (dayOfEra / 36524) 3, dayOfEra - 36524 * min (dayOfEra / 36524) 3, by omega, by omega, by omega,
      by omega, by omega⟩
  obtain ⟨m, t, ht, hm, hm', ht0, ht1⟩ : ∃ m t : ℤ, r % 1461 = 365 * m + t ∧ 0 ≤ m ∧ m ≤ 3 ∧ 0 ≤ t ∧
      (t ≤ 364 ∨ t = 365 ∧ m = 3) :=
    ⟨min (r % 1461 / 365) 3, r % 1461 - 365 * min (r % 1461 / 365) 3, by omega, by omega, by omega,
      by omega, by omega⟩
  exact ⟨c, r / 1461, m, t, by omega, ⟨hc, hc'⟩, by omega, ⟨hm, hm'⟩, by omega⟩

variable {n c k m t : ℤ}

theorem Places.yearOfEra_eq (h : Places n c k m t) :
    (n - n / 1460 + n / 36524 - n / 146096) / 365 = 100 * c + 4 * k + m := by
  obtain ⟨hn, ⟨hc, hc'⟩, ⟨hk, hk'⟩, ⟨hm, hm'⟩, ht, ht'⟩ := h
  have hcentury : 1461 * k + 365 * m + t < 36524 ∨ 1461 * k + 365 * m + t = 36524 ∧ c = 3 := by omega
  have hcenturies : n / 36524 - n / 146096 = c := by
    rcases hcentury with hlt | ⟨heq, rfl⟩ <;> omega
  have hblocks : n / 1460 = 25 * c + k ∧ t ≤ 364 ∨ n / 1460 = 25 * c + k + 1 ∧ 1 ≤ t := by omega
  omega

theorem Places.dayOfYear_eq (h : Places n c k m t) :
    n - (365 * (100 * c + 4 * k + m) + (100 * c + 4 * k + m) / 4 - (100 * c + 4 * k + m) / 100) = t := by
  obtain ⟨hn, ⟨hc, hc'⟩, ⟨hk, hk'⟩, ⟨hm, hm'⟩, ht, ht'⟩ := h
  have hfour : (100 * c + 4 * k + m) / 4 = 25 * c + k := by omega
  have hhundred : (100 * c + 4 * k + m) / 100 = c := by omega
  omega

/-! ### Years from March to February -/

/-- A day, by its year from March to February and its place in that year. -/
structure MarchDay (n year t : ℤ) : Prop where
  number_eq : n + 719468 =
    year / 400 * 146097 + (year % 400 * 365 + year % 400 / 4 - year % 400 / 100 + t)
  nonneg : 0 ≤ t
  le : t ≤ 364 ∨ t = 365 ∧ isLeapYear (year + 1) = true

/-- The calendar day of a place in a year from March to February. -/
def ofMarch (year t : ℤ) : Day :=
  let monthFromMarch := (5 * t + 2) / 153
  { year := if monthFromMarch < 10 then year else year + 1
    month := if monthFromMarch < 10 then monthFromMarch + 3 else monthFromMarch - 9
    day := t - (153 * monthFromMarch + 2) / 5 + 1 }

theorem exists_marchDay (n : ℤ) : ∃ year t, MarchDay n year t ∧ Day.ofNumber n = ofMarch year t := by
  obtain ⟨c, k, m, t, h⟩ := exists_places (Int.emod_nonneg (n + 719468) (by decide))
    (Int.emod_lt_of_pos (n + 719468) (by decide))
  have hyear : (100 * c + 4 * k + m + (n + 719468) / 146097 * 400) / 400 = (n + 719468) / 146097 ∧
      (100 * c + 4 * k + m + (n + 719468) / 146097 * 400) % 400 = 100 * c + 4 * k + m := by
    have hc := h.centuries
    have hk := h.blocks
    have hm := h.years
    omega
  refine ⟨100 * c + 4 * k + m + (n + 719468) / 146097 * 400, t, ⟨?_, h.days.1, ?_⟩, ?_⟩
  · have hday := h.dayOfYear_eq
    rw [hyear.1, hyear.2]
    omega
  · refine h.days.2.imp_right ?_
    rintro ⟨rfl, rfl, hcentury⟩
    refine ⟨rfl, ?_⟩
    have hc := h.centuries
    have hk := h.blocks
    simp only [isLeapYear, Bool.and_eq_true, Bool.or_eq_true, beq_iff_eq, bne_iff_ne]
    omega
  · have ht := h.days
    simp only [Day.ofNumber, h.yearOfEra_eq, h.dayOfYear_eq, ofMarch]
    have hmonth : (if (5 * t + 2) / 153 < 10 then (5 * t + 2) / 153 + 3 else (5 * t + 2) / 153 - 9) ≤ 2 ↔
        ¬(5 * t + 2) / 153 < 10 := by
      split <;> omega
    simp only [hmonth, ite_not]
    refine Day.mk.injEq .. ▸ ⟨?_, rfl, rfl⟩
    split <;> omega

variable {year : ℤ}

/-- From March on it is the same year, and in January and February the next one. -/
theorem MarchDay.ofMarch_cases (h : MarchDay n year t) :
    (∃ p, 0 ≤ p ∧ p ≤ 9 ∧ p = (5 * t + 2) / 153 ∧
      ofMarch year t = ⟨year, p + 3, t - (153 * p + 2) / 5 + 1⟩) ∨
    ∃ p, (p = 10 ∨ p = 11) ∧ p = (5 * t + 2) / 153 ∧
      ofMarch year t = ⟨year + 1, p - 9, t - (153 * p + 2) / 5 + 1⟩ := by
  have ht := h.nonneg
  have ht' := h.le
  rw [ofMarch]
  by_cases hmonth : (5 * t + 2) / 153 < 10
  · refine .inl ⟨(5 * t + 2) / 153, by omega, by omega, rfl, ?_⟩
    simp only [if_pos hmonth]
  · refine .inr ⟨(5 * t + 2) / 153, by omega, rfl, ?_⟩
    simp only [if_neg hmonth]

theorem MarchDay.number_ofMarch (h : MarchDay n year t) : (ofMarch year t).number = n := by
  have hn := h.number_eq
  rcases h.ofMarch_cases with ⟨p, hp0, hp1, hp, hday⟩ | ⟨p, hp0, hp, hday⟩
  · have hlate : ¬p + 3 ≤ 2 := by omega
    simp only [hday, Day.number, if_neg hlate, if_pos (not_le.1 hlate), add_sub_cancel_right]
    omega
  · have hearly : p - 9 ≤ 2 := by omega
    simp only [hday, Day.number, if_pos hearly, if_neg (not_lt.2 hearly), add_sub_cancel_right,
      sub_add_cancel]
    omega

/-! ### Days -/

/-- **The number of the day with a number is this number.** -/
theorem Day.number_ofNumber (n : ℤ) : (Day.ofNumber n).number = n := by
  obtain ⟨year, t, h, hday⟩ := exists_marchDay n
  rw [hday, h.number_ofMarch]

/-- A day of the calendar: its month has it. -/
def Day.IsValid (d : Day) : Prop :=
  (1 ≤ d.month ∧ d.month ≤ 12) ∧ 1 ≤ d.day ∧ d.day ≤ daysInMonth d.year d.month

theorem MarchDay.isValid (h : MarchDay n year t) : (ofMarch year t).IsValid := by
  have ht := h.nonneg
  have ht' := h.le
  rcases h.ofMarch_cases with ⟨p, hp0, hp1, hp, hday⟩ | ⟨p, rfl | rfl, hp, hday⟩ <;>
    rw [hday, Day.IsValid] <;> dsimp only
  · refine ⟨⟨by omega, by omega⟩, by omega, ?_⟩
    rw [daysInMonth]
    split_ifs <;> omega
  · refine ⟨⟨by omega, by omega⟩, by omega, ?_⟩
    rw [daysInMonth]
    split_ifs <;> omega
  · refine ⟨⟨by omega, by omega⟩, by omega, ?_⟩
    rw [daysInMonth, if_pos (by omega)]
    rcases ht' with hle | ⟨rfl, hleap⟩
    · split <;> omega
    · rw [if_pos hleap]
      omega

theorem Day.isValid_ofNumber (n : ℤ) : (Day.ofNumber n).IsValid := by
  obtain ⟨year, t, h, hday⟩ := exists_marchDay n
  rw [hday]
  exact h.isValid

/-- The days of all dates are in years that have dates. -/
theorem Day.year_ofNumber_bounds (hfirst : firstMillis ≤ n * dayMillis) (hlast : n * dayMillis ≤ lastMillis) :
    Timestamp.firstYear ≤ (Day.ofNumber n).year ∧ (Day.ofNumber n).year ≤ Timestamp.lastYear := by
  obtain ⟨year, t, h, hday⟩ := exists_marchDay n
  have hn := h.number_eq
  have ht := h.nonneg
  have ht' := h.le
  have hera : year / 400 ≤ -657 ∨ year / 400 = -656 ∨ -656 < year / 400 ∧ year / 400 < 655 ∨
      year / 400 = 655 ∨ 656 ≤ year / 400 := by omega
  rw [firstMillis, dayMillis] at hfirst
  rw [lastMillis, dayMillis] at hlast
  rw [hday, Timestamp.firstYear, Timestamp.lastYear]
  rcases h.ofMarch_cases with ⟨p, hp0, hp1, hp, hday⟩ | ⟨p, hp0, hp, hday⟩ <;> rw [hday] <;> dsimp only
  · rcases hera with h | h | h | h | h <;> omega
  · rcases hera with h | h | h | h | h <;> omega

end Reckoner.Date
