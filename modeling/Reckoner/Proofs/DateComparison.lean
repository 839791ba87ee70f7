import Mathlib
import Reckoner.Proofs.NamedUnits
import Reckoner.Proofs.NearEquality
import Reckoner.Proofs.StandardRules

/-!
# Comparing dates

Dates are compared by the rule that compares doubles, on their milliseconds since the start of 1970.
The tolerance of that rule is relative, and milliseconds of present dates are larger than `10 ^ 12`, so
dates that are a millisecond apart count as equal. How far apart they may be grows with the distance
from 1970, up to eight seconds at the ends of the range (`Date.standard_comparisons`).

The difference of two dates knows no tolerance: it is zero for equal dates only.
-/

namespace Reckoner

/-- What a comparison says about two integers. -/
def Operator.compares (op : Operator) (a b : Int) : Bool :=
  match op with
  | .equal => decide (a = b)
  | .notEqual => decide (a ≠ b)
  | .less => decide (a < b)
  | .lessEqual => decide (a ≤ b)
  | .greater => decide (b < a)
  | .greaterEqual => decide (b ≤ a)
  | _ => false

theorem Operator.compares_self (op : Operator) (a : Int) : op.compares a a = op.compares 0 0 := by
  cases op <;> simp [compares]

namespace Date

/-- Two dates are close if their distance is at most the `10 ^ 12`th part of the distance of one of
them from the start of 1970. -/
def IsClose (d e : Date) : Prop :=
  |d.millis - e.millis| * 10 ^ 12 ≤ max |d.millis| |e.millis|

instance (d e : Date) : Decidable (d.IsClose e) :=
  inferInstanceAs (Decidable (|d.millis - e.millis| * 10 ^ 12 ≤ max |d.millis| |e.millis|))

variable {d e : Date}

theorem abs_millis_le (d : Date) : |d.millis| ≤ 8334601228800000 := by
  have hrange := d.inRange
  rw [firstMillis, lastMillis] at hrange
  rw [abs_le]
  omega

theorem ext_iff_millis : d = e ↔ d.millis = e.millis := by
  cases d
  cases e
  rw [mk.injEq]

theorem isClose_self (d : Date) : d.IsClose d := by
  rw [IsClose, sub_self, abs_zero, zero_mul]
  exact (abs_nonneg _).trans (le_max_left _ _)

/-- Close dates are less than nine seconds apart. -/
theorem IsClose.abs_sub_le (h : d.IsClose e) : |d.millis - e.millis| ≤ 8334 := by
  have hmax := max_le d.abs_millis_le e.abs_millis_le
  rw [IsClose] at h
  omega

/-- Near 1970 only equal dates are close. -/
theorem IsClose.eq (h : d.IsClose e) (hd : |d.millis| < 10 ^ 12) (he : |e.millis| < 10 ^ 12) :
    d = e := by
  have hmax := max_lt hd he
  have hzero : |d.millis - e.millis| = 0 := by
    have hnonneg := abs_nonneg (d.millis - e.millis)
    rw [IsClose] at h
    omega
  exact ext_iff_millis.2 (sub_eq_zero.1 (abs_eq_zero.1 hzero))

end Date

/-! ### The rule for comparisons -/

namespace Rules

open Double

variable {op : Operator} {d e : Date}

/-- The milliseconds of a date are a double. -/
theorem hasValue_millis (d : Date) : HasValue (Scalar.ofInt d.millis) d.millis :=
  hasValue_intCast (d.abs_millis_le.trans_lt (by norm_num))

theorem lt_millis_iff (d e : Date) :
    Scalar.lt (Scalar.ofInt d.millis : Float) (Scalar.ofInt e.millis) = true ↔
      d.millis < e.millis := by
  have hlt := lt_iff (hasValue_millis d) (hasValue_millis e)
  exact decide_eq_true_iff.trans (hlt.trans Int.cast_lt)

theorem nearlyEqual_millis_iff (d e : Date) :
    Scalar.nearlyEqual (Scalar.ofInt d.millis : Float) (Scalar.ofInt e.millis) = true ↔
      d.IsClose e :=
  nearlyEqual_ofInt_iff (d.abs_millis_le.trans (by norm_num)) (e.abs_millis_le.trans (by norm_num))

/-- Close dates are compared like one and the same date. -/
theorem holds_millis_of_isClose (hop : op ∈ comparisons) (h : d.IsClose e) :
    holds op (Scalar.ofInt d.millis : Float) (Scalar.ofInt e.millis) = op.compares 0 0 := by
  have hsame := (nearlyEqual_millis_iff d e).2 h
  simp only [comparisons, List.mem_cons, List.not_mem_nil, or_false] at hop
  rcases hop with rfl | rfl | rfl | rfl | rfl | rfl <;> simp [holds, hsame, Operator.compares]

/-- Other dates are compared like their milliseconds. -/
theorem holds_millis_of_not_isClose (hop : op ∈ comparisons) (h : ¬d.IsClose e) :
    holds op (Scalar.ofInt d.millis : Float) (Scalar.ofInt e.millis) =
      op.compares d.millis e.millis := by
  have hsame := Bool.eq_false_iff.2 (mt (nearlyEqual_millis_iff d e).1 h)
  have hne : d.millis ≠ e.millis := by
    intro heq
    obtain rfl := Date.ext_iff_millis.2 heq
    exact h d.isClose_self
  have hlt := Bool.eq_iff_iff.2 ((lt_millis_iff d e).trans decide_eq_true_iff.symm)
  have hgt := Bool.eq_iff_iff.2 ((lt_millis_iff e d).trans decide_eq_true_iff.symm)
  simp only [comparisons, List.mem_cons, List.not_mem_nil, or_false] at hop
  rcases hop with rfl | rfl | rfl | rfl | rfl | rfl <;>
    simp only [holds, hsame, hlt, hgt, Operator.compares, Bool.not_false, Bool.and_true,
      Bool.or_false, Bool.false_eq, Bool.true_eq, decide_eq_false_iff_not, decide_eq_true_iff,
      decide_eq_decide] <;> omega

theorem apply_standard_date (limits : Limits) (hop : op ∈ comparisons) :
    (Engine.standard limits).rules.apply op (.date d) (.date e) =
      .ok (truth (holds op (Scalar.ofInt d.millis : Float) (Scalar.ofInt e.millis))) := by
  rw [Engine.standard_eq, Engine.rules_standardOver]
  exact apply_standard (a := .date d) (b := .date e)
    (mem_arithmeticRules_of_comparison (f := compareDates) hop (by simp [Value.kind]))

theorem apply_date_of_isClose (limits : Limits) (h : d.IsClose e) (hop : op ∈ comparisons) :
    (Engine.standard limits).rules.apply op (.date d) (.date e) = .ok (truth (op.compares 0 0)) := by
  rw [apply_standard_date limits hop, holds_millis_of_isClose hop h]

theorem apply_date_of_not_isClose (limits : Limits) (h : ¬d.IsClose e) (hop : op ∈ comparisons) :
    (Engine.standard limits).rules.apply op (.date d) (.date e) =
      .ok (truth (op.compares d.millis e.millis)) := by
  rw [apply_standard_date limits hop, holds_millis_of_not_isClose hop h]

/-! ### The rule for differences -/

theorem apply_subtract_date (limits : Limits) (d e : Date) :
    (Engine.standard limits).rules.apply .subtract (.date d) (.date e) =
      .ok (.quantity (.ofValue (Scalar.ofInt (d.millis - e.millis) / Scalar.ofDecimal ⟨1000, 0⟩)
        (.single seconds))) := by
  have hmem : ((.subtract, .date, .date), subtractDates (K := Float)) ∈ dateArithmetic := by
    simp [dateArithmetic]
  rw [Engine.standard_eq, Engine.rules_standardOver]
  exact apply_dateArithmetic (a := .date d) (b := .date e) hmem

theorem hasValue_factor_seconds : HasValue (Units.single (seconds (K := Float))).factor 1 := by
  have hone : HasValue (Scalar.ofDecimal ⟨1, 0⟩) 1 := hasValue_one
  have hexact : nearestDouble (1 * 1) = 1 := by
    rw [mul_one]
    exact hone.nearestDouble_eq
  have hmul {x : Float} (hx : HasValue x 1) : HasValue (Scalar.ofDecimal ⟨1, 0⟩ * x) 1 := by
    have hproduct := hasValue_mul hone hx (by
      rw [hexact, abs_one]
      exact one_lt_pow₀ one_lt_two (by decide))
    rwa [hexact] at hproduct
  rw [Units.factor_single]
  exact hmul (hmul hone)

theorem abs_div_thousand (v : ℚ) : |v / 1000| = |v| / 1000 := by
  rw [abs_div, abs_of_pos (by norm_num : (0 : ℚ) < 1000)]

theorem hasValue_thousand : HasValue (Scalar.ofDecimal ⟨1000, 0⟩) 1000 :=
  hasValue_intCast (n := 1000) (by decide)

theorem abs_seconds_le {n : ℤ} (hn : |(n : ℚ)| ≤ 2 ^ 60) :
    |nearestDouble n / 1000| ≤ 2 ^ (60 : ℤ) := by
  rw [abs_div_thousand]
  exact (div_le_self (abs_nonneg _) (by norm_num)).trans
    (abs_nearestDouble_le (by decide) (by exact_mod_cast hn))

/-- A number of milliseconds in seconds. -/
theorem hasValue_base_seconds {n : ℤ} (hn : |(n : ℚ)| ≤ 2 ^ 60) :
    HasValue (Quantity.ofValue (Scalar.ofInt n / Scalar.ofDecimal ⟨1000, 0⟩ : Float)
      (.single seconds)).base (nearestDouble (nearestDouble n / 1000)) := by
  have hquotient : |nearestDouble n / 1000| ≤ 2 ^ 60 := by exact_mod_cast abs_seconds_le hn
  have hvalue := hasValue_div (hasValue_ofInt (abs_nearestDouble_lt (by decide) hn))
    hasValue_thousand (by norm_num) (abs_nearestDouble_lt (by decide) hquotient)
  have hproduct := hasValue_mul hvalue hasValue_factor_seconds (by
    rw [mul_one, hvalue.nearestDouble_eq]
    exact abs_nearestDouble_lt (by decide) hquotient)
  rw [mul_one, hvalue.nearestDouble_eq] at hproduct
  exact hproduct

/-- The difference of two dates, in seconds, is zero for equal dates only. -/
theorem base_seconds_eq_zero_iff {n : ℤ} (hn : |(n : ℚ)| ≤ 2 ^ 60) :
    ((Quantity.ofValue (Scalar.ofInt n / Scalar.ofDecimal ⟨1000, 0⟩ : Float)
      (.single seconds)).base == 0) = true ↔ n = 0 := by
  refine (beq_iff (hasValue_base_seconds hn) hasValue_zero).trans ⟨fun hzero ↦ ?_, ?_⟩
  · by_contra hne
    have hone : (2 : ℚ) ^ (0 : ℤ) ≤ |(n : ℚ)| := by
      rw [zpow_zero]
      exact_mod_cast Int.one_le_abs hne
    have hlower := le_abs_nearestDouble (by decide) hone
    have hpositive : (2 : ℚ) ^ (-10 : ℤ) ≤ |nearestDouble n / 1000| := by
      rw [abs_div_thousand, le_div_iff₀ (by norm_num)]
      exact le_trans (by norm_num) hlower
    have hcontra := le_abs_nearestDouble (by decide) hpositive
    rw [hzero, abs_zero] at hcontra
    exact absurd hcontra (not_le.2 (two_zpow_pos _))
  · rintro rfl
    rw [Int.cast_zero, nearestDouble_zero, zero_div, nearestDouble_zero]

theorem truth_injective {b c : Bool} (h : (truth b : Value Float) = truth c) : b = c := by
  have hnumber := Value.number.inj h
  have hne : (Scalar.ofDecimal ⟨1, 0⟩ : Float) ≠ Scalar.ofDecimal ⟨0, 0⟩ := by
    intro heq
    have hone : HasValue (Scalar.ofDecimal ⟨1, 0⟩) 1 := hasValue_one
    rw [heq] at hone
    exact absurd (hone.value_eq.symm.trans hasValue_zero.value_eq) one_ne_zero
  cases b <;> cases c
  · rfl
  · exact absurd hnumber.symm hne
  · exact absurd hnumber hne
  · rfl

end Rules

open Rules in
/-- **How dates are compared.** Close dates are compared like one and the same date, and others like
their milliseconds; so all comparisons of two dates are exact if and only if the dates are equal or
not close. Close dates are less than nine seconds apart, and they are equal if both are within
`10 ^ 12` milliseconds of the start of 1970. The difference of two dates is zero for equal dates only. -/
theorem Date.standard_comparisons (limits : Limits) (d e : Date) :
    let apply := (Engine.standard limits).rules.apply
    (d.IsClose e →
      ∀ op ∈ comparisons, apply op (.date d) (.date e) = .ok (truth (op.compares 0 0))) ∧
    (¬d.IsClose e → ∀ op ∈ comparisons,
      apply op (.date d) (.date e) = .ok (truth (op.compares d.millis e.millis))) ∧
    ((∀ op ∈ comparisons,
      apply op (.date d) (.date e) = .ok (truth (op.compares d.millis e.millis))) ↔
        d = e ∨ ¬d.IsClose e) ∧
    (d.IsClose e → |d.millis - e.millis| ≤ 8334) ∧
    (|d.millis| < 10 ^ 12 → |e.millis| < 10 ^ 12 → d.IsClose e → d = e) ∧
    ∃ q : Quantity Float, apply .subtract (.date d) (.date e) = .ok (.quantity q) ∧
      q.units = .single seconds ∧ ((q.base == 0) = true ↔ d = e) := by
  refine ⟨fun h _ ↦ apply_date_of_isClose limits h, fun h _ ↦ apply_date_of_not_isClose limits h,
    ⟨fun hexact ↦ ?_, ?_⟩, IsClose.abs_sub_le, fun hd he h ↦ h.eq hd he,
    _, apply_subtract_date limits d e, rfl, ?_⟩
  · refine or_iff_not_imp_right.2 fun h ↦ ext_iff_millis.2 ?_
    have hequal := hexact .equal (by decide)
    rw [apply_date_of_isClose limits (not_not.1 h) (by decide)] at hequal
    have hsame := truth_injective (Except.ok.inj hequal)
    exact decide_eq_true_iff.1 hsame.symm
  · rintro (rfl | h)
    · intro op hop
      rw [apply_date_of_isClose limits d.isClose_self hop, op.compares_self d.millis]
    · exact fun _ ↦ apply_date_of_not_isClose limits h
  · have hbound : |((d.millis - e.millis : ℤ) : ℚ)| ≤ 2 ^ 60 := by
      have htriangle := abs_sub d.millis e.millis
      have hd := d.abs_millis_le
      have he := e.abs_millis_le
      exact_mod_cast (by omega : |d.millis - e.millis| ≤ 2 ^ 60)
    exact (base_seconds_eq_zero_iff hbound).trans (sub_eq_zero.trans ext_iff_millis.symm)

open Rules in
/-- A millisecond at the start of the year 2024 is too little for a comparison. -/
theorem Date.exists_later_counted_same :
    let d : Date := ⟨1704067200000, by decide⟩
    let e : Date := ⟨1704067200001, by decide⟩
    let apply := (Engine.standard {}).rules.apply
    d.millis < e.millis ∧ apply .equal (.date d) (.date e) = .ok (truth true) ∧
      apply .less (.date d) (.date e) = .ok (truth false) := by
  have hclose : Date.IsClose ⟨1704067200000, by decide⟩ ⟨1704067200001, by decide⟩ := by decide
  exact ⟨by decide, apply_date_of_isClose {} hclose (by decide),
    apply_date_of_isClose {} hclose (by decide)⟩

end Reckoner
