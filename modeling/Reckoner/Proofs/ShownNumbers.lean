import Reckoner.Notebook.Basic
import Reckoner.Value.Format
import Reckoner.Proofs.DecodedDoubles
import Reckoner.Proofs.PrintedText
import Reckoner.Proofs.WellFormedValues

/-!
# Which numbers are shown

An undefined number becomes an error value as soon as it is a result, and is shown as
`Error: not a number`. But what is looked at is the magnitude in base units, and what is shown is the
magnitude divided by the factor of the units. The powers of units may make the factor so large that it
is infinite, or so small that it is zero, and the quotient may be undefined then. This is the only way
in which a `NaN` is shown (`Notebook.undefined_shown_iff`), and there are lines that are shown so.

Of the texts it is enough to know whether the letter `N` occurs in them: no numeral and no date
contains it.
-/

namespace Reckoner

/-! ### Texts without a letter -/

/-- A character does not occur in a text. -/
def Lacks (c : Char) (text : String) : Prop := c ∉ text.toList

instance (c : Char) (text : String) : Decidable (Lacks c text) :=
  inferInstanceAs (Decidable (c ∉ text.toList))

theorem Lacks.append {c : Char} {s t : String} (hs : Lacks c s) (ht : Lacks c t) :
    Lacks c (s ++ t) := by
  rw [Lacks, String.toList_append, List.mem_append, not_or]
  exact ⟨hs, ht⟩

theorem lacks_ofList {c : Char} {cs : List Char} (h : c ∉ cs) : Lacks c (String.ofList cs) := by
  rwa [Lacks, String.toList_ofList]

/-! ### Numerals -/

namespace Decimal

variable {c : Char}

theorem notMem_digitsOf (hc : isDigit c = false) (n : Nat) : c ∉ digitsOf n :=
  fun h ↦ Bool.eq_false_iff.1 hc (isDigit_of_mem_digitsOf h)

theorem lacks_nat (hc : isDigit c = false) (n : Nat) : Lacks c (toString n) := by
  have hdigits : (toString n).toList = digitsOf n := Nat.toList_repr
  rw [Lacks, hdigits]
  exact notMem_digitsOf hc n

theorem lacks_int (n : Int) : Lacks 'N' (toString n) := by
  cases n with
  | ofNat n => exact lacks_nat rfl n
  | negSucc n =>
    have htext : toString (Int.negSucc n) = "-" ++ toString (n + 1) := rfl
    have hsign : Lacks 'N' "-" := by decide
    rw [htext]
    exact hsign.append (lacks_nat rfl _)

theorem mem_mantissaText {digits : List Char} (h : c ∈ mantissaText digits) :
    c = '.' ∨ c ∈ digits := by
  unfold mantissaText at h
  split at h
  · simp only [List.mem_cons] at h ⊢
    tauto
  · exact .inr h

theorem lacks_plain (hc : isDigit c = false) (hpoint : c ≠ '.') (d : Decimal) : Lacks c d.plain := by
  obtain ⟨whole, fraction, hwritten, hplain⟩ := exists_plain_eq d
  have hdigit : ¬isDigit c = true := Bool.eq_false_iff.1 hc
  rw [hplain]
  refine lacks_ofList fun h ↦ ?_
  rw [List.mem_append, fractionPart] at h
  rcases h with h | h
  · exact hdigit (hwritten.whole_digits _ h)
  · split at h
    · exact absurd h List.not_mem_nil
    · rcases List.mem_cons.1 h with h | h
      · exact hpoint h
      · exact hdigit (hwritten.fraction_digits _ h)

end Decimal

theorem mem_groupDigits {c : Char} {digits : List Char} (h : c ∈ groupDigits digits) :
    c = ',' ∨ c ∈ digits := by
  induction digits with
  | nil => exact .inr h
  | cons d ds ih =>
    rw [groupDigits] at h
    rw [List.mem_cons]
    split at h
    · rcases List.mem_cons.1 h with h | h
      · exact .inr (.inl h)
      · rcases List.mem_cons.1 h with h | h
        · exact .inl h
        · exact (ih h).imp_right .inr
    · rcases List.mem_cons.1 h with h | h
      · exact .inr (.inl h)
      · exact (ih h).imp_right .inr

theorem lacks_groupThousands {c : Char} {text : String} (hc : c ≠ ',') (h : Lacks c text) :
    Lacks c (groupThousands text) := by
  rw [groupThousands]
  split
  · exact h
  · refine lacks_ofList fun hmem ↦ ?_
    rcases List.mem_append.1 hmem with hwhole | hrest
    · rcases mem_groupDigits hwhole with hcomma | hdigit
      · exact hc hcomma
      · exact h ((List.takeWhile_sublist _).mem hdigit)
    · exact h (List.mem_of_mem_drop hrest)

/-! ### Dates -/

namespace Date

theorem lacks_padded (width n : Nat) : Lacks 'N' (padded width n) := by
  rw [padded]
  refine (lacks_ofList fun h ↦ ?_).append (Decimal.lacks_nat rfl n)
  exact absurd (List.eq_of_mem_replicate h) (by decide)

theorem lacks_yearText (year : Int) : Lacks 'N' (yearText year) := by
  have hsign : Lacks 'N' (if year < 0 then "-" else if year ≥ 10000 then "+" else "") := by
    split
    · decide
    split <;> decide
  exact hsign.append (lacks_padded 4 year.natAbs)

theorem lacks_timeText (seconds : Nat) : Lacks 'N' (timeText seconds) := by
  have hhalf : Lacks 'N' (if seconds / 3600 < 12 then "AM" else "PM") := by
    split <;> decide
  have hcolon : Lacks 'N' ":" := by decide
  have hblank : Lacks 'N' " " := by decide
  exact (((((Decimal.lacks_nat rfl _).append hcolon).append (lacks_padded _ _)).append hcolon).append
    (lacks_padded _ _)).append hblank |>.append hhalf

theorem lacks_text (d : Date) : Lacks 'N' d.text := by
  have hslash : Lacks 'N' "/" := by decide
  have hday : Lacks 'N' s!"{d.day.month}/{d.day.day}/{yearText d.day.year}" :=
    ((((Decimal.lacks_int _).append hslash).append (Decimal.lacks_int _)).append hslash).append
      (lacks_yearText _)
  have hcomma : Lacks 'N' ", " := by decide
  rw [text]
  split
  · exact hday
  · exact (hday.append hcomma).append (lacks_timeText _)

end Date

/-! ### Numbers -/

namespace Format

theorem lacks_exponential {c : Char} (hc : Decimal.isDigit c = false) (hmark : c ∉ ['.', 'e', '-', '+'])
    (d : Decimal) : Lacks c (exponential d) := by
  simp only [List.mem_cons, List.not_mem_nil, or_false, not_or] at hmark
  obtain ⟨hpoint, he, hminus, hplus⟩ := hmark
  have hdigits : c ∉ Decimal.mantissaText (Decimal.digitsOf d.coefficient) := by
    intro h
    rcases Decimal.mem_mantissaText h with h | h
    · exact hpoint h
    · exact Decimal.notMem_digitsOf hc _ h
  have hsign : Lacks c (if d.order < 0 then "-" else "+") := by
    split
    · exact mt List.mem_singleton.1 hminus
    · exact mt List.mem_singleton.1 hplus
  have he : Lacks c "e" := mt List.mem_singleton.1 he
  exact (((lacks_ofList hdigits).append he).append hsign).append (Decimal.lacks_nat hc _)

variable {format : Format} {x : Float}

theorem number_of_isNaN (h : x.isNaN = true) : format.number x = "NaN" := by
  rw [number, Double.ofFloat_eq_nan.2 h]

/-- The text of a number that is defined is another one. -/
theorem lacks_number (h : x.isNaN = false) : Lacks 'N' (format.number x) := by
  rw [number]
  cases hx : Double.ofFloat x with
  | nan => exact absurd (Double.ofFloat_eq_nan.1 hx) (Bool.eq_false_iff.1 h)
  | infinite negative =>
    dsimp only
    cases negative <;> decide
  | finite negative mantissa exponent =>
    have hsign : Lacks 'N' (if negative then "-" else "") := by
      cases negative <;> decide
    dsimp only
    by_cases hzero : mantissa = 0
    · rw [if_pos hzero]
      decide
    · rw [if_neg hzero]
      generalize Decimal.shortest mantissa exponent = d
      by_cases horder : d.order < format.lowerExponent ∨ format.upperExponent ≤ d.order
      · rw [if_pos horder]
        exact hsign.append (lacks_exponential rfl (by decide) d)
      · rw [if_neg horder]
        exact lacks_groupThousands (by decide) (hsign.append (Decimal.lacks_plain rfl (by decide) d))

end Format

/-! ### Values -/

/-- What stands in a text in front of its first blank. -/
def numericPart (text : String) : List Char := text.toList.takeWhile (· ≠ ' ')

theorem notMem_numericPart {text : String} (h : Lacks 'N' text) : 'N' ∉ numericPart text :=
  fun hmem ↦ h ((List.takeWhile_sublist _).mem hmem)

/-- In front of a blank only the text before it counts. -/
theorem numericPart_append (s t : String) : numericPart (s ++ " " ++ t) = numericPart s := by
  rw [numericPart, numericPart, String.toList_append, String.toList_append, List.append_assoc]
  have hblank : " ".toList = [' '] := rfl
  rw [hblank, List.singleton_append]
  induction s.toList with
  | nil => rfl
  | cons c cs ih =>
    rw [List.cons_append, List.takeWhile_cons, List.takeWhile_cons, ih]

theorem Format.numericPart_quantity (format : Format) (q : Quantity Float) :
    numericPart (format.quantity q) = numericPart (format.number q.value) := by
  rw [quantity]
  split
  · rfl
  · exact numericPart_append _ _

/-- A value is shown as an undefined number. -/
def Value.ShowsNaN (format : Format) (v : Value Float) : Prop :=
  numericPart (format.value v) = "NaN".toList

instance (format : Format) (v : Value Float) : Decidable (v.ShowsNaN format) :=
  inferInstanceAs (Decidable (numericPart (format.value v) = "NaN".toList))

namespace Value

variable {format : Format}

theorem not_showsNaN {v : Value Float} (h : 'N' ∉ numericPart (format.value v)) :
    ¬v.ShowsNaN format := by
  intro hnan
  rw [hnan] at h
  exact h List.mem_cons_self

theorem showsNaN_number {x : Float} : (number x).ShowsNaN format ↔ x.isNaN = true := by
  constructor
  · intro h
    by_contra hx
    refine not_showsNaN (notMem_numericPart ?_) h
    exact Format.lacks_number (Bool.eq_false_iff.2 hx)
  · intro h
    rw [ShowsNaN, Format.value, Format.number_of_isNaN h]
    rfl

/-- A quantity is shown as undefined exactly if its magnitude divided by the factor of its units is. -/
theorem showsNaN_quantity {q : Quantity Float} :
    (quantity q).ShowsNaN format ↔ Double.IsUndefinedQuotient q.base q.units.factor := by
  rw [← Double.isNaN_div_iff, ShowsNaN, Format.value, Format.numericPart_quantity]
  exact showsNaN_number

theorem not_showsNaN_date (d : Date) : ¬(date d).ShowsNaN format :=
  not_showsNaN (notMem_numericPart d.lacks_text)

theorem not_showsNaN_notANumber : ¬(notANumber : Value Float).ShowsNaN format := by
  refine not_showsNaN ?_
  change 'N' ∉ numericPart "Error: not a number"
  decide

end Value

/-! ### Results -/

/-- A quantity without a value in its units: their factor is undefined, or it is zero and so is the
magnitude, or both are infinite. -/
def Quantity.LacksValue (q : Quantity Float) : Prop :=
  q.units.factor.isNaN = true ∨ (q.base == 0 ∧ q.units.factor == 0) ∨
    (q.base.isInf = true ∧ q.units.factor.isInf = true)

theorem Quantity.WellFormed.isUndefinedQuotient_iff {q : Quantity Float} (h : q.WellFormed) :
    Double.IsUndefinedQuotient q.base q.units.factor ↔ q.LacksValue := by
  have hbase : ¬q.base.isNaN = true := Bool.eq_false_iff.1 h.defined
  rw [Double.IsUndefinedQuotient, or_iff_right hbase, LacksValue]

/-- A well-formed value is shown as undefined exactly if it is a quantity without a value. -/
theorem Value.WellFormed.showsNaN_iff {format : Format} {v : Value Float} (h : v.WellFormed)
    (hv : v.isDisplayable = true) :
    v.ShowsNaN format ↔ ∃ q, v = .quantity q ∧ q.LacksValue := by
  cases v with
  | number x => exact iff_of_false (mt showsNaN_number.1 (Bool.eq_false_iff.1 h)) nofun
  | date d => exact iff_of_false (not_showsNaN_date d) nofun
  | quantity q =>
    rw [showsNaN_quantity, h.isUndefinedQuotient_iff]
    constructor
    · exact fun hq ↦ ⟨q, rfl, hq⟩
    · rintro ⟨_, ⟨⟩, hq⟩
      exact hq
  | function => contradiction
  | undefined => contradiction
  | error message =>
    obtain rfl : message = "not a number" := h
    exact iff_of_false not_showsNaN_notANumber nofun

namespace Notebook

theorem isDisplayable_of_mem_results {engine : Engine Float} {registry : Nat → Registry Float}
    {index : Nat} {reader : LineReader Float} {scope : Scope Float} {lines : List String}
    {e : Nat × Value Float}
    (he : e ∈ (evaluateFrom engine registry index reader scope lines).results) :
    e.2.isDisplayable = true := by
  induction lines generalizing index reader scope with
  | nil => exact absurd he List.not_mem_nil
  | cons text rest ih =>
    rw [evaluateFrom_cons] at he
    rcases List.mem_append.1 he with he | he
    · obtain ⟨v, hv, rfl⟩ := Option.map_eq_some_iff.1 (Option.mem_toList.1 he)
      exact (Option.filter_eq_some_iff.1 hv).2
    · exact ih he

/-- **When an undefined number is shown.** Of the results of a document no number is undefined, and
errors are shown as `Error: not a number` only. What is shown begins with `NaN` exactly for the
quantities whose units have an undefined factor, or a factor that is zero or infinite like the
magnitude itself; just these have an undefined value in their units. Any events of loading may have
come before each line. -/
theorem undefined_shown_iff (limits : Limits) (events : Nat → List (CurrencyEvent Float))
    (reader : LineReader Float) (now : Date) (lines : List String) (format : Format) :
    ∀ e ∈ (evaluateFrom (.standard limits)
        (fun index ↦ Registry.uninitialized.afterAll (events index)) 0 reader (Scope.atInstant now)
        lines).results,
      (e.2.ShowsNaN format ↔ ∃ q, e.2 = .quantity q ∧ q.LacksValue) ∧
      (∀ q, e.2 = .quantity q → (q.value.isNaN = true ↔ q.LacksValue)) ∧
      (∀ x, e.2 = .number x → x.isNaN = false) ∧
      ∀ message, e.2 = .error message → format.value e.2 = "Error: not a number" := by
  rintro ⟨index, v⟩ he
  have hwellFormed := ((sound_evaluateFrom limits events reader now lines).1 _ he).wellFormed
  refine ⟨hwellFormed.showsNaN_iff (isDisplayable_of_mem_results he), ?_, ?_, ?_⟩
  · rintro q rfl
    exact Double.isNaN_div_iff.trans hwellFormed.isUndefinedQuotient_iff
  · rintro x rfl
    exact hwellFormed
  · rintro message rfl
    obtain rfl : message = "not a number" := hwellFormed
    rfl

/-- The eighteenth power of an attometre is shown as undefined, so it has no value in its units. -/
theorem undefined_shown_iff_power :
    let after := evaluateFrom (.standard {}) (fun _ ↦ Registry.uninitialized.afterAll []) 0
      (.new 1024 128) (Scope.atInstant ⟨0, by decide⟩) ["am^18"]
    ∃ e ∈ after.results, e.2.ShowsNaN {} ∧ ∃ q, e.2 = .quantity q ∧ q.LacksValue := by
  intro after
  have hshown : ∃ e ∈ after.results, e.2.ShowsNaN {} := by decide +kernel
  obtain ⟨e, he, hnan⟩ := hshown
  have hiff := undefined_shown_iff {} (fun _ ↦ []) (.new 1024 128) ⟨0, by decide⟩ ["am^18"] {} e he
  exact ⟨e, he, hnan, hiff.1.1 hnan⟩

/-- Its factor is too small for a double, so it is zero, and so is the magnitude. -/
theorem exists_undefined_shown :
    let notebook := (Notebook.new {}).evaluate (.standard {}) .uninitialized ⟨0, by decide⟩ ["am^18"]
    ∃ e ∈ notebook.results, e.2.ShowsNaN {} ∧ Format.value {} e.2 = "NaN am^18" := by
  decide +kernel

end Notebook

end Reckoner
