import Mathlib
import Reckoner.Proofs.InfiniteDoubles

/-!
# Equality up to rounding

Two doubles count as equal if they are, or if their difference is within a tolerance that is
relative to the larger of them. The difference, the tolerance and their comparison are calculated
with doubles themselves. `Double.nearlyEqual_iff` says what this comes to in terms of the values,
however large they are. If one of the doubles is infinite, then the difference and the tolerance are,
and the doubles count as equal (`Double.nearlyEqual_of_isInf`).

For whole numbers that are not too large no rounding is left: they count as equal exactly if their
difference is at most the `10 ^ 12`th part of the larger one (`Double.nearlyEqual_ofInt_iff`).
-/

open Float.Model (UnpackedFloat)

namespace Reckoner.Double

/-! ### Magnitudes -/

section

variable {x y : Float} {v w : ℚ}

theorem hasValue_magnitude (hx : HasValue x v) : HasValue (Scalar.magnitude x) |v| := by
  have hneg : Scalar.lt x (Scalar.ofDecimal ⟨0, 0⟩) = true ↔ v < 0 :=
    decide_eq_true_iff.trans (lt_iff hx hasValue_zero)
  change HasValue (if Scalar.lt x (Scalar.ofDecimal ⟨0, 0⟩) = true then -x else x) |v|
  by_cases h : v < 0
  · rw [if_pos (hneg.2 h), abs_of_neg h]
    exact hasValue_neg hx
  · rw [if_neg (mt hneg.1 h), abs_of_nonneg (not_lt.1 h)]
    exact hx

theorem isInfinity_magnitude {s : UnpackedFloat.Sign} (hx : IsInfinity x s) :
    IsInfinity (Scalar.magnitude x) .positive := by
  have hneg : Scalar.lt x (Scalar.ofDecimal ⟨0, 0⟩) = true ↔
      UnpackedFloat.lt (.infinity s) (.zero .positive) = true := by
    rw [← hx]
    exact decide_eq_true_iff.trans decide_eq_true_iff
  change IsInfinity (if Scalar.lt x (Scalar.ofDecimal ⟨0, 0⟩) = true then -x else x) .positive
  cases s with
  | negative =>
    rw [if_pos (hneg.2 rfl)]
    exact hx.neg
  | positive =>
    rw [if_neg (mt hneg.1 Bool.false_ne_true)]
    exact hx

/-- The larger of two doubles. -/
theorem hasValue_max (hx : HasValue x v) (hy : HasValue y w) :
    HasValue (if Scalar.le x y then y else x) (max v w) := by
  have hle : Scalar.le x y = true ↔ v ≤ w := decide_eq_true_iff.trans (le_iff hx hy)
  by_cases h : v ≤ w
  · rw [if_pos (hle.2 h), max_eq_right h]
    exact hy
  · rw [if_neg (mt hle.1 h), max_eq_left (not_le.1 h).le]
    exact hx

/-! ### The tolerance -/

/-- The double that is nearest to `10 ^ -12`. -/
def toleranceValue : ℚ := 4951760157141521 / 2 ^ 92

theorem hasValue_tolerance : HasValue Scalar.tolerance toleranceValue := by
  have hunpack : (Scalar.tolerance : Float).toModel.unpack =
      .finite .positive 4951760157141521 (-92) (by decide) := rfl
  rw [HasValue, hunpack]
  refine ⟨rfl, ⟨by decide, by decide, .inl (by decide)⟩, ?_⟩
  show ((4951760157141521 : ℤ) : ℚ) * 2 ^ (-92 : ℤ) = toleranceValue
  norm_num [toleranceValue]

theorem toleranceValue_pos : 0 < toleranceValue := by
  norm_num [toleranceValue]

/-- The tolerance is a little less than `10 ^ -12`, -/
theorem toleranceValue_lt : toleranceValue * 10 ^ 12 < 1 := by
  norm_num [toleranceValue]

/-- but by less than what rounding makes up for. -/
theorem lt_toleranceValue : 1 - 1 / 2 ^ 54 < toleranceValue * 10 ^ 12 := by
  norm_num [toleranceValue]

/-- The tolerance for a double is not too large. -/
theorem abs_nearestDouble_tolerance_lt {u : ℚ} (h : 0 ≤ u) (h' : u < 2 ^ 1024) :
    |nearestDouble (toleranceValue * u)| < 2 ^ 1024 := by
  refine abs_nearestDouble_lt (k := 1000) (by decide) ?_
  have hsmall : toleranceValue ≤ (2 ^ 24)⁻¹ := by norm_num [toleranceValue]
  rw [abs_of_nonneg (mul_nonneg toleranceValue_pos.le h)]
  calc toleranceValue * u ≤ (2 ^ 24)⁻¹ * 2 ^ 1024 :=
        mul_le_mul hsmall h'.le h (by positivity)
    _ = 2 ^ 1000 := by rw [inv_mul_eq_iff_eq_mul₀ (by positivity), ← pow_add]

/-- **Values that count as equal**: they are, or their difference is within the tolerance, both as
they are rounded. -/
def Near (v w : ℚ) : Prop :=
  v = w ∨ nearestDouble |v - w| ≤ nearestDouble (toleranceValue * max |v| |w|)

theorem near_self (v : ℚ) : Near v v :=
  .inl rfl

theorem near_comm : Near v w ↔ Near w v := by
  rw [Near, Near, eq_comm, abs_sub_comm, max_comm]

/-- **What equality up to rounding comes to.** -/
theorem nearlyEqual_iff (hx : HasValue x v) (hy : HasValue y w) :
    Scalar.nearlyEqual x y = true ↔ Near v w := by
  have hproduct : |nearestDouble (toleranceValue * max |v| |w|)| < 2 ^ 1024 :=
    abs_nearestDouble_tolerance_lt ((abs_nonneg v).trans (le_max_left _ _))
      (max_lt hx.abs_lt hy.abs_lt)
  have hmagnitude := hasValue_max (hasValue_magnitude hx) (hasValue_magnitude hy)
  have hright := hasValue_mul hasValue_tolerance hmagnitude hproduct
  rw [Scalar.nearlyEqual, Bool.or_eq_true, beq_iff hx hy]
  refine or_congr_right (decide_eq_true_iff.trans ?_)
  rcases lt_or_ge |nearestDouble (v - w)| (2 ^ 1024) with hdifference | hlarge
  · have hleft := hasValue_magnitude (hasValue_sub hx hy hdifference)
    rw [abs_nearestDouble] at hleft
    exact le_iff hleft hright
  · -- A difference that is too large is infinite, and the tolerance is not.
    obtain ⟨s, hinfinity⟩ := exists_isInfinity_sub hx hy hlarge
    refine iff_of_false ((isInfinity_magnitude hinfinity).not_le hright) (not_le.2 ?_)
    rw [← abs_nearestDouble]
    exact ((le_abs_self _).trans_lt hproduct).trans_le hlarge

/-! ### Infinities -/

theorem isInfinity_max_of_left (hx : IsInfinity x .positive)
    (hy : (∃ w, HasValue y w) ∨ IsInfinity y .positive) :
    IsInfinity (if Scalar.le x y then y else x) .positive := by
  split
  · rename_i hle
    rcases hy with ⟨w, hw⟩ | hy
    · exact absurd (of_decide_eq_true hle) (hx.not_le hw)
    · exact hy
  · exact hx

theorem isInfinity_max_of_right (hx : HasValue x v) (hy : IsInfinity y .positive) :
    IsInfinity (if Scalar.le x y then y else x) .positive := by
  have hle : Scalar.le x y = true := decide_eq_true (hx.le_infinity hy)
  rw [if_pos hle]
  exact hy

/-- Doubles count as equal if both the difference and the larger magnitude are infinite. -/
theorem nearlyEqual_of_isInfinity {s : UnpackedFloat.Sign} (hsub : IsInfinity (x - y) s)
    (hmax : IsInfinity (if Scalar.le (Scalar.magnitude x) (Scalar.magnitude y) then
      Scalar.magnitude y else Scalar.magnitude x) .positive) : Scalar.nearlyEqual x y = true := by
  have htolerance := IsInfinity.mul_of_pos hasValue_tolerance toleranceValue_pos hmax
  rw [Scalar.nearlyEqual, Bool.or_eq_true]
  exact .inr (decide_eq_true ((isInfinity_magnitude hsub).le htolerance))

/-- **An infinity counts as equal to every number**, because the tolerance is infinite as well. -/
theorem nearlyEqual_of_isInf (hx : x.isNaN = false) (hy : y.isNaN = false)
    (h : x.isInf = true ∨ y.isInf = true) : Scalar.nearlyEqual x y = true := by
  obtain ⟨v, hv⟩ | ⟨s, hs⟩ := exists_hasValue_or_isInfinity hx <;>
    obtain ⟨w, hw⟩ | ⟨t, ht⟩ := exists_hasValue_or_isInfinity hy
  · rw [hv.isInf, hw.isInf] at h
    rcases h with h | h <;> contradiction
  · exact nearlyEqual_of_isInfinity (hv.sub_isInfinity ht)
      (isInfinity_max_of_right (hasValue_magnitude hv) (isInfinity_magnitude ht))
  · exact nearlyEqual_of_isInfinity (hs.sub_hasValue hw)
      (isInfinity_max_of_left (isInfinity_magnitude hs) (.inl ⟨_, hasValue_magnitude hw⟩))
  · rcases eq_or_ne s t with rfl | hne
    · rw [Scalar.nearlyEqual, Bool.or_eq_true]
      exact .inl (hs.beq ht)
    · exact nearlyEqual_of_isInfinity (hs.sub_of_ne ht hne)
        (isInfinity_max_of_left (isInfinity_magnitude hs) (.inr (isInfinity_magnitude ht)))

end

/-! ### Whole numbers -/

section

variable {d m : ℤ}

theorem tolerance_mul_lt (hm : 0 < m) (hbound : m ≤ 8400 * 10 ^ 12) :
    toleranceValue * m < 8400 := by
  have hcast : (m : ℚ) ≤ 8400 * 10 ^ 12 := by exact_mod_cast hbound
  have hpos : (0 : ℚ) < m := by exact_mod_cast hm
  calc toleranceValue * m ≤ toleranceValue * (8400 * 10 ^ 12) :=
        mul_le_mul_of_nonneg_left hcast toleranceValue_pos.le
    _ = 8400 * (toleranceValue * 10 ^ 12) := by ring
    _ < 8400 := by linarith [toleranceValue_lt]

/-- The tolerance is rounded on a grid that contains the integers, and not on the finest one. -/
theorem grid_tolerance_mul (hm : 0 < m) (hbound : m ≤ 8400 * 10 ^ 12) :
    -1074 < gridExponent (toleranceValue * m) ∧ gridExponent (toleranceValue * m) ≤ 0 := by
  have hone : (1 : ℚ) ≤ m := by exact_mod_cast hm
  have hsmall : (2 : ℚ) ^ (-40 : ℤ) ≤ toleranceValue := by norm_num [toleranceValue]
  have hv : 0 < toleranceValue * m := mul_pos toleranceValue_pos (by linarith)
  have hlower : (2 : ℚ) ^ (-40 : ℤ) ≤ toleranceValue * m :=
    hsmall.trans (le_mul_of_one_le_right toleranceValue_pos.le hone)
  have hupper : toleranceValue * m < (2 : ℚ) ^ (14 : ℤ) :=
    (tolerance_mul_lt hm hbound).trans (by norm_num)
  have hlog := (Int.zpow_le_iff_le_log one_lt_two hv).1 hlower
  have hlog' := (Int.lt_zpow_iff_log_lt one_lt_two hv).1 hupper
  rw [gridExponent, abs_of_pos hv]
  omega

theorem exists_eq_mul_zpow {t : ℤ} (d : ℤ) (ht : t ≤ 0) : ∃ k : ℤ, (d : ℚ) = k * 2 ^ t := by
  obtain ⟨j, hj⟩ := Int.eq_ofNat_of_zero_le (neg_nonneg.2 ht)
  obtain rfl : t = -j := by omega
  refine ⟨d * 2 ^ j, ?_⟩
  rw [zpow_neg, zpow_natCast]
  push_cast
  field_simp

/-- A difference within the tolerance is within it after rounding. -/
theorem le_nearestDouble_tolerance (hd : 0 < d) (hm : 0 < m) (hbound : m ≤ 8400 * 10 ^ 12)
    (h : d * 10 ^ 12 ≤ m) : d ≤ nearestDouble (toleranceValue * m) := by
  obtain ⟨k, hk⟩ := exists_eq_mul_zpow d (grid_tolerance_mul hm hbound).2
  have hpos : (0 : ℚ) < d := by exact_mod_cast hd
  have hcast : (d : ℚ) * 10 ^ 12 ≤ m := by exact_mod_cast h
  rw [hk]
  refine le_nearestDouble (mul_pos toleranceValue_pos (by exact_mod_cast hm)) ?_
  rw [← hk]
  calc (d : ℚ) * (1 - 1 / 2 ^ 54) < d * (toleranceValue * 10 ^ 12) :=
        mul_lt_mul_of_pos_left lt_toleranceValue hpos
    _ = toleranceValue * (d * 10 ^ 12) := by ring
    _ ≤ toleranceValue * m := mul_le_mul_of_nonneg_left hcast toleranceValue_pos.le

/-- A difference beyond the tolerance is at least one unit beyond it, and stays so. -/
theorem nearestDouble_tolerance_lt (hm : 0 < m) (hsmall : d ≤ 8400) (h : m < d * 10 ^ 12) :
    nearestDouble (toleranceValue * m) < d := by
  have hbound : m ≤ 8400 * 10 ^ 12 := by omega
  obtain ⟨hfine, hgrid⟩ := grid_tolerance_mul hm hbound
  obtain ⟨k, hk⟩ := exists_eq_mul_zpow d hgrid
  have hnext : (m : ℚ) ≤ d * 10 ^ 12 - 1 := by exact_mod_cast Int.le_sub_one_of_lt h
  have hcast : (d : ℚ) ≤ 8400 := by exact_mod_cast hsmall
  have hpos : (0 : ℚ) < d := by exact_mod_cast (by omega : 0 < d)
  have hgap : (8400 : ℚ) / 2 ^ 53 < toleranceValue := by norm_num [toleranceValue]
  rw [hk]
  refine nearestDouble_lt (mul_pos toleranceValue_pos (by exact_mod_cast hm)) hfine.ne' ?_
  rw [← hk]
  calc toleranceValue * m ≤ toleranceValue * (d * 10 ^ 12 - 1) :=
        mul_le_mul_of_nonneg_left hnext toleranceValue_pos.le
    _ = d * (toleranceValue * 10 ^ 12) - toleranceValue := by ring
    _ ≤ d - toleranceValue := by
        have hle := mul_le_of_le_one_right hpos.le toleranceValue_lt.le
        linarith
    _ < d * (1 - 1 / 2 ^ 53) := by linarith

/-- **How the tolerance is rounded does not matter** for whole numbers. -/
theorem nearestDouble_le_tolerance_iff (hd : 0 < d) (hm : 0 < m) (hbound : m ≤ 8400 * 10 ^ 12) :
    nearestDouble d ≤ nearestDouble (toleranceValue * m) ↔ d * 10 ^ 12 ≤ m := by
  have hexact {n : ℤ} (hn : 0 < n) (hsmall : n ≤ 8401) : nearestDouble n = n :=
    nearestDouble_intCast (abs_lt.2 (by omega))
  constructor
  · intro hle
    by_contra hfar
    rcases le_or_gt d 8400 with hsmall | hlarge
    · rw [hexact hd (by omega)] at hle
      exact absurd hle (nearestDouble_tolerance_lt hm hsmall (not_le.1 hfar)).not_ge
    · have hlower : nearestDouble ((8400 : ℤ) : ℚ) = (8400 : ℤ) := hexact (by decide) (by decide)
      have hupper : nearestDouble ((8401 : ℤ) : ℚ) = (8401 : ℤ) := hexact (by decide) (by decide)
      have hbelow : nearestDouble (toleranceValue * m) ≤ (8400 : ℤ) := by
        rw [← hlower]
        refine nearestDouble_mono (mul_pos toleranceValue_pos (by exact_mod_cast hm)) ?_
        exact_mod_cast (tolerance_mul_lt hm hbound).le
      have habove : (8401 : ℤ) ≤ nearestDouble d := by
        rw [← hupper]
        exact nearestDouble_mono (by norm_num) (by exact_mod_cast hlarge)
      have hgap : ((8400 : ℤ) : ℚ) < (8401 : ℤ) := by norm_num
      linarith
  · intro hnear
    rw [hexact hd (by omega)]
    exact le_nearestDouble_tolerance hd hm hbound hnear

/-- **Whole numbers count as equal exactly if they differ by at most the `10 ^ 12`th part** of the
larger one. -/
theorem nearlyEqual_ofInt_iff {a b : ℤ} (ha : |a| ≤ 8400 * 10 ^ 12) (hb : |b| ≤ 8400 * 10 ^ 12) :
    Scalar.nearlyEqual (Scalar.ofInt a : Float) (Scalar.ofInt b) = true ↔
      |a - b| * 10 ^ 12 ≤ max |a| |b| := by
  have hsmall {n : ℤ} (hn : |n| ≤ 8400 * 10 ^ 12) : |n| < 2 ^ 53 := hn.trans_lt (by norm_num)
  rw [nearlyEqual_iff (hasValue_intCast (hsmall ha)) (hasValue_intCast (hsmall hb))]
  rcases eq_or_ne a b with rfl | hne
  · refine iff_of_true (.inl rfl) ?_
    rw [sub_self, abs_zero, zero_mul]
    exact (abs_nonneg a).trans (le_max_left _ _)
  · have hd : 0 < |a - b| := abs_pos.2 (sub_ne_zero.2 hne)
    have hm : 0 < max |a| |b| := by
      have htriangle := abs_sub a b
      have hle := le_max_left |a| |b|
      have hle' := le_max_right |a| |b|
      omega
    have hdifference : |(a : ℚ) - b| = (|a - b| : ℤ) := by push_cast; rfl
    have hmagnitude : max |(a : ℚ)| |(b : ℚ)| = (max |a| |b| : ℤ) := by push_cast; rfl
    rw [Near, or_iff_right (by exact_mod_cast hne), hdifference, hmagnitude]
    exact nearestDouble_le_tolerance_iff hd hm (max_le ha hb)

end

end Reckoner.Double
