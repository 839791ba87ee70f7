import Mathlib
import Reckoner.Proofs.Calendar
import Reckoner.Proofs.PrintedText
import Reckoner.Proofs.TextReaders

/-!
# Reading what is written as a timestamp

What is written for an instant is read as this instant (`Timestamp.ofText?_text`), if it is one of those
that are dates.
-/

namespace Reckoner

open Text (Reader)
open Text.Reader

/-! ### Padded numbers -/

namespace Date

variable {width n : ℕ}

theorem toList_padded (width n : ℕ) : (padded width n).toList =
    List.replicate (width - Decimal.length n) '0' ++ Decimal.digitsOf n := by
  have hdigits : (toString n).toList = Decimal.digitsOf n := Nat.toList_repr
  have hlength : (toString n).length = Decimal.length n := by
    rw [← String.length_toList, hdigits, Decimal.length]
  rw [padded, String.toList_append, String.toList_ofList, hdigits, hlength]

theorem isDigit_of_mem_padded {c : Char} (h : c ∈ (padded width n).toList) :
    Decimal.isDigit c = true := by
  rw [toList_padded] at h
  rcases List.mem_append.1 h with h | h
  · obtain rfl := List.eq_of_mem_replicate h
    rfl
  · exact Decimal.isDigit_of_mem_digitsOf h

theorem ofDigits_padded (width n : ℕ) : Decimal.ofDigits (padded width n).toList = n := by
  rw [toList_padded, Decimal.ofDigits_zeros_append, Decimal.ofDigits_digitsOf]

theorem padded_ne_nil (width n : ℕ) : (padded width n).toList ≠ [] := by
  rw [toList_padded]
  exact List.append_ne_nil_of_right_ne_nil _ Nat.toDigits_ne_nil

/-- A number that is short enough has as many digits as asked for. -/
theorem length_padded (hpos : 0 < width) (h : n < 10 ^ width) : (padded width n).toList.length = width := by
  have hle : Decimal.length n ≤ width := (Nat.length_toDigits_le_iff (by decide) hpos).2 h
  have hlength : (Decimal.digitsOf n).length = Decimal.length n := rfl
  rw [toList_padded, List.length_append, List.length_replicate, hlength]
  exact Nat.sub_add_cancel hle

end Date

/-! ### Parts of a timestamp -/

namespace Timestamp

namespace Reading

variable {cs rest : List Char} {width n : ℕ}

theorem blanks_of_head (h : ∀ c ∈ cs.head?, Text.isBlank c = false) : blanks cs = some ((), cs) :=
  bind_eq (many_of_head h) _

/-- A number that is padded to the width is read whatever follows. -/
theorem number_padded (hpos : 0 < width) (h : n < 10 ^ width) :
    number width ((Date.padded width n).toList ++ rest) = some (n, rest) := by
  have hdigits : ∀ c ∈ (Date.padded width n).toList, Decimal.isDigit c = true :=
    fun c hc ↦ Date.isDigit_of_mem_padded hc
  have hlength := Date.length_padded hpos h
  have hvalue := Date.ofDigits_padded width n
  generalize (Date.padded width n).toList = digits at hdigits hlength hvalue
  obtain ⟨c, cs, rfl⟩ := List.exists_cons_of_ne_nil (List.length_pos_iff.1 (hlength ▸ hpos))
  have hblank : blanks (c :: cs ++ rest) = some ((), c :: cs ++ rest) := by
    refine blanks_of_head ?_
    rintro _ ⟨⟩
    exact (Decimal.not_isBlank_of_isDigit (hdigits c List.mem_cons_self)).1
  have htake : ((c :: cs ++ rest).takeWhile Decimal.isDigit).take width = c :: cs := by
    rw [List.takeWhile_append_of_pos hdigits, ← hlength, List.take_left]
  refine (bind_eq hblank _).trans ?_
  simp only [htake, List.isEmpty_cons, Bool.false_eq_true, if_false, hvalue, List.drop_left]

theorem numberWithin_padded {low high : ℕ} (hpos : 0 < width) (h : n < 10 ^ width) (hlow : low ≤ n)
    (hhigh : n ≤ high) :
    numberWithin width low high ((Date.padded width n).toList ++ rest) = some (n, rest) := by
  rw [numberWithin, bind_eq (number_padded hpos h), if_pos ⟨hlow, hhigh⟩]
  rfl

theorem toList_yearText (year : ℤ) : (Date.yearText year).toList =
    (if year < 0 then ['-'] else if year ≥ 10000 then ['+'] else []) ++
      (Date.padded 4 year.natAbs).toList := by
  rw [Date.yearText, String.toList_append]
  congr 1
  split
  · rfl
  split <;> rfl

/-- A year is read as it is written, in front of a hyphen. -/
theorem year_yearText (y : ℤ) (hrest : ∀ c ∈ rest.head?, Decimal.isDigit c = false) :
    year ((Date.yearText y).toList ++ rest) = some (y, rest) := by
  have hdigits : ∀ c ∈ (Date.padded 4 y.natAbs).toList, Decimal.isDigit c = true :=
    fun c hc ↦ Date.isDigit_of_mem_padded hc
  have hmany := many1_append (Date.padded_ne_nil 4 y.natAbs) hdigits hrest
  have hvalue := Date.ofDigits_padded 4 y.natAbs
  rw [toList_yearText]
  have hhead := Decimal.isDigit_of_head (Date.padded_ne_nil 4 y.natAbs) hdigits rest
  have hnumber (h : y.natAbs < 10 ^ 4) :
      number 4 ((Date.padded 4 y.natAbs).toList ++ rest) = some (y.natAbs, rest) :=
    number_padded (by decide) h
  generalize (Date.padded 4 y.natAbs).toList = digits at hmany hvalue hhead hnumber
  rw [List.append_assoc]
  by_cases hneg : y < 0
  · have hblank : blanks ('-' :: (digits ++ rest)) = some ((), '-' :: (digits ++ rest)) :=
      blanks_of_head (by rintro _ ⟨⟩; rfl)
    rw [if_pos hneg, List.singleton_append, year, bind_eq hblank]
    refine orElse_eq_left ?_ _
    rw [bind_eq exactly_cons, bind_eq hmany, hvalue]
    exact congrArg (fun k ↦ some (k, rest)) (by omega)
  rw [if_neg hneg]
  by_cases hlarge : y ≥ 10000
  · have hblank : blanks ('+' :: (digits ++ rest)) = some ((), '+' :: (digits ++ rest)) :=
      blanks_of_head (by rintro _ ⟨⟩; rfl)
    have hminus : exactly '-' ('+' :: (digits ++ rest)) = none :=
      exactly_eq_none (by rintro _ ⟨⟩; decide)
    rw [if_pos hlarge, List.singleton_append, year, bind_eq hblank]
    refine (orElse_eq_right (bind_eq_none hminus _) _).trans (orElse_eq_left ?_ _)
    rw [bind_eq exactly_cons, bind_eq hmany, hvalue]
    exact congrArg (fun k ↦ some (k, rest)) (by omega)
  · have hblank : blanks (digits ++ rest) = some ((), digits ++ rest) :=
      blanks_of_head fun c hc ↦ (Decimal.not_isBlank_of_isDigit (hhead c hc)).1
    have hmark {d : Char} (hd : Decimal.isDigit d = false) : exactly d (digits ++ rest) = none :=
      exactly_eq_none fun c hc ↦ Decimal.ne_of_isDigit (hhead c hc) hd
    rw [if_neg hlarge, List.nil_append, year, bind_eq hblank]
    refine (orElse_eq_right (bind_eq_none (hmark rfl) _) _).trans ?_
    refine (orElse_eq_right (bind_eq_none (hmark rfl) _) _).trans ?_
    rw [bind_eq (hnumber (by omega))]
    exact congrArg (fun k ↦ some (k, rest)) (by omega)

/-- The characters of a day: year, month and day with hyphens between them. -/
def dayChars (d : Date.Day) : List Char :=
  (Date.yearText d.year).toList ++ '-' :: ((Date.padded 2 d.month.toNat).toList ++
    '-' :: (Date.padded 2 d.day.toNat).toList)

theorem dayNumber_dayChars {d : Date.Day} (h : d.IsValid)
    (hyear : firstYear ≤ d.year ∧ d.year ≤ lastYear) {gap : Reader Unit}
    (hgap : ∀ cs, gap ('-' :: cs) = some ((), '-' :: cs)) :
    dayNumber gap (dayChars d ++ rest) = some (d.number, rest) := by
  obtain ⟨⟨hmonth, hmonth'⟩, hday, hle⟩ := h
  have hlast : Date.daysInMonth d.year d.month ≤ 31 := by
    rw [Date.daysInMonth]
    split_ifs <;> decide
  have hchars : dayChars d ++ rest = (Date.yearText d.year).toList ++ ('-' ::
      ((Date.padded 2 d.month.toNat).toList ++ ('-' ::
        ((Date.padded 2 d.day.toNat).toList ++ rest)))) := by
    simp only [dayChars, List.append_assoc, List.cons_append]
  have hy : year ((Date.yearText d.year).toList ++ ('-' :: ((Date.padded 2 d.month.toNat).toList ++
      ('-' :: ((Date.padded 2 d.day.toNat).toList ++ rest))))) = some (d.year, _) :=
    year_yearText d.year (by rintro _ ⟨⟩; rfl)
  have hm : numberWithin 2 1 12 ((Date.padded 2 d.month.toNat).toList ++
      ('-' :: ((Date.padded 2 d.day.toNat).toList ++ rest))) = some (d.month.toNat, _) :=
    numberWithin_padded (by decide) (by omega) (by omega) (by omega)
  have hd : numberWithin 2 1 31 ((Date.padded 2 d.day.toNat).toList ++ rest) =
      some (d.day.toNat, rest) :=
    numberWithin_padded (by decide) (by omega) (by omega) (by omega)
  have hcasts : (d.month.toNat : ℤ) = d.month ∧ (d.day.toNat : ℤ) = d.day := by omega
  rw [hchars, dayNumber, bind_eq hy, bind_eq (hgap _), bind_eq exactly_cons, bind_eq hm,
    bind_eq (hgap _), bind_eq exactly_cons, bind_eq hd, hcasts.1, hcasts.2, if_pos ⟨hyear.1, hyear.2, hle⟩]
  rfl

/-- Digits of a fraction are read as nanoseconds. -/
theorem fraction_padded (width q : ℕ) (hpos : 0 < width) (hwidth : width ≤ 9) (h : q < 10 ^ width)
    (hrest : ∀ c ∈ rest.head?, Decimal.isDigit c = false) :
    fraction ('.' :: ((Date.padded width q).toList ++ rest)) =
      some (((q * 10 ^ (9 - width) : ℕ) : ℤ), rest) := by
  have hdigits := many1_append (Date.padded_ne_nil width q)
    (fun c hc ↦ Date.isDigit_of_mem_padded hc) hrest
  have hlength := Date.length_padded hpos h
  have htake : (Date.padded width q).toList.take 9 = (Date.padded width q).toList :=
    List.take_of_length_le (hlength.trans_le hwidth)
  rw [fraction, bind_eq exactly_cons, bind_eq hdigits]
  simp only [htake, hlength, Decimal.ofDigits_append_zeros, Date.ofDigits_padded]
  rfl

theorem fraction_fractionText {nanos : ℕ} (h : nanos < 10 ^ 9) (rest : List Char)
    (hrest : ∀ c ∈ rest.head?, Decimal.isDigit c = false ∧ c ≠ '.') :
    ∃ read, optional fraction ((fractionText nanos).toList ++ rest) = some (read, rest) ∧
      read.getD 0 = nanos := by
  have hstop : ∀ c ∈ rest.head?, Decimal.isDigit c = false := fun c hc ↦ (hrest c hc).1
  have hchars (text : String) : ("." ++ text).toList ++ rest = '.' :: (text.toList ++ rest) := by
    rw [String.toList_append]
    rfl
  rw [fractionText]
  split
  · rename_i hzero
    refine ⟨none, optional_eq_none (bind_eq_none (exactly_eq_none fun c hc ↦ (hrest c hc).2) _), ?_⟩
    rw [hzero]
    rfl
  split
  · have hread := fraction_padded 3 (nanos / 1000000) (by decide) (by decide) (by omega) hstop
    rw [hchars]
    exact ⟨_, optional_eq_some hread, by rw [Option.getD_some]; omega⟩
  split
  · have hread := fraction_padded 6 (nanos / 1000) (by decide) (by decide) (by omega) hstop
    rw [hchars]
    exact ⟨_, optional_eq_some hread, by rw [Option.getD_some]; omega⟩
  · have hread := fraction_padded 9 nanos (by decide) (by decide) h hstop
    rw [hchars]
    exact ⟨_, optional_eq_some hread, by rw [Option.getD_some]; omega⟩

end Reading

/-! ### Whole timestamps -/

/-- An instant whose second is one of those that are dates. -/
def InRange (t : Timestamp) : Prop :=
  firstMillis ≤ t.nanos / second * 1000 ∧ t.nanos / second * 1000 ≤ lastMillis

instance (t : Timestamp) : Decidable t.InRange :=
  inferInstanceAs (Decidable (_ ∧ _))

theorem toList_text (t : Timestamp) :
    let ofDay := (t.nanos % day / second).toNat
    t.text.toList = Reading.dayChars (Date.Day.ofNumber (t.nanos / day)) ++
      'T' :: ((Date.padded 2 (ofDay / 3600)).toList ++
        ':' :: ((Date.padded 2 (ofDay / 60 % 60)).toList ++ ':' :: ((Date.padded 2 (ofDay % 60)).toList ++
          ((fractionText (t.nanos % second).toNat).toList ++ ['Z'])))) := by
  intro ofDay
  have hstring (s : String) : toString s = s := rfl
  have hhyphen : "-".toList = ['-'] := rfl
  have hcolon : ":".toList = [':'] := rfl
  have htime : "T".toList = ['T'] := rfl
  have hzone : "Z".toList = ['Z'] := rfl
  simp only [text, hstring, String.toList_append, hhyphen, hcolon, htime, hzone, Reading.dayChars,
    List.append_assoc, List.cons_append, List.nil_append, ofDay]

/-- **Reading undoes writing.** -/
theorem ofText?_text {t : Timestamp} (h : t.InRange) : ofText? t.text = some t := by
  obtain ⟨hfirst, hlast⟩ := h
  obtain ⟨ofDay, hofDay⟩ : ∃ ofDay, ofDay = (t.nanos % day / second).toNat := ⟨_, rfl⟩
  obtain ⟨nanos, hnanos⟩ : ∃ nanos, nanos = (t.nanos % second).toNat := ⟨_, rfl⟩
  have hsplit : t.nanos / day * 86400 + (ofDay / 3600 : ℕ) * 3600 + (ofDay / 60 % 60 : ℕ) * 60 +
      (ofDay % 60 : ℕ) - 0 = t.nanos / second ∧ t.nanos / second * second + nanos = t.nanos := by
    simp only [day, second] at hofDay hnanos ⊢
    omega
  have hlt : ofDay < 86400 ∧ nanos < 10 ^ 9 := by
    simp only [day, second] at hofDay hnanos
    omega
  have hyear := Date.Day.year_ofNumber_bounds (n := t.nanos / day)
    (by simp only [firstMillis, day, second, Date.dayMillis] at hfirst ⊢; omega)
    (by simp only [lastMillis, day, second, Date.dayMillis] at hlast ⊢; omega)
  have hday {rest : List Char} : Reading.dayNumber Reading.blanks
      (Reading.dayChars (Date.Day.ofNumber (t.nanos / day)) ++ rest) = some (_, rest) :=
    Reading.dayNumber_dayChars (Date.Day.isValid_ofNumber (t.nanos / day)) hyear
      fun cs ↦ Reading.blanks_of_head (by rintro c ⟨⟩; rfl)
  have htwo {low high n : ℕ} (hn : n < 100) (hlow : low ≤ n) (hhigh : n ≤ high) {rest : List Char} :
      Reading.numberWithin 2 low high ((Date.padded 2 n).toList ++ rest) = some (n, rest) :=
    Reading.numberWithin_padded (by decide) hn hlow hhigh
  have hcolon {rest : List Char} : Reading.blanks (':' :: rest) = some ((), ':' :: rest) :=
    Reading.blanks_of_head (by rintro c ⟨⟩; rfl)
  have hzone : Reading.blanks ['Z'] = some ((), ['Z']) :=
    Reading.blanks_of_head (by rintro c ⟨⟩; rfl)
  have hoffset : Reading.offset ['Z'] = some (0, []) := rfl
  have hend : Reading.blanks [] = some ((), []) := rfl
  have htime {rest : List Char} : character (fun c ↦ c = 'T' || c = 't' || c = ' ') ('T' :: rest) =
      some ('T', rest) := character_cons rfl
  obtain ⟨read, hread, hvalue⟩ := Reading.fraction_fractionText hlt.2 ['Z']
    (by rintro c ⟨⟩; decide)
  have htext := t.toList_text
  rw [← hofDay, ← hnanos] at htext
  refine whole?_eq_some ?_
  rw [htext, Reading.timestamp, bind_eq hday, bind_eq htime, bind_eq (htwo (by omega) (by omega) (by omega)),
    bind_eq hcolon, bind_eq exactly_cons, bind_eq (htwo (by omega) (by omega) (by omega)),
    bind_eq hcolon, bind_eq exactly_cons, bind_eq (htwo (by omega) (by omega) (by omega)),
    bind_eq hread, bind_eq hzone, bind_eq hoffset, bind_eq hend, Date.Day.number_ofNumber, hvalue]
  simp only [hsplit.1, if_pos (And.intro hfirst hlast), hsplit.2]
  rfl

end Timestamp

end Reckoner
