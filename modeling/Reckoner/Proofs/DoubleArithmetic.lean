import Mathlib
import Reckoner.Proofs.RoundedDoubles

/-!
# Arithmetic of doubles

Products, quotients and differences of doubles are the doubles nearest to the exact results, as long as
these are not too large (`hasValue_mul`, `hasValue_div`, `hasValue_sub`), and doubles are ordered like
their values (`lt_iff`, `le_iff`, `beq_iff`). The double of a decimal is the one nearest to it
(`hasValue_toFloat`), and so is that of an integer (`hasValue_ofInt`), which is the integer itself if it
has at most 53 bits.

Each operation is followed on unpacked operands first, where nothing is too large. A product has all
digits of the exact result; a difference is calculated at the smaller of the two exponents; a quotient
is calculated with a remainder, which tells on which side of the middle the exact result lies.
-/

open Float.Model (Format UnpackedFloat)
open Float.Model.UnpackedFloat (Accuracy)

namespace Reckoner.Double

/-- An exact mantissa stands for itself. -/
theorem stands_exact (m : ℕ) : Stands (.ofMantissaAndAccuracy m .exact) m :=
  rfl

theorem le_gridExponent {m : ℕ} {e : ℤ} (hm : m ≠ 0) (h : 2 ^ 52 ≤ m ∨ e ≤ -1074) :
    e ≤ gridExponent (m * 2 ^ e) := by
  rw [gridExponent, log_mul_zpow hm le_rfl (lt_add_one _)]
  rcases h with h | h
  · have hlog : 52 ≤ m.log2 := (Nat.le_log2 hm).2 h
    omega
  · exact h.trans (le_max_right _ _)

section Unpacked

variable {a b : UnpackedFloat} {v w : ℚ}

/-- A finite unpacked double is a zero or has a mantissa. -/
theorem Represents.cases (h : Represents a v) :
    (∃ s, a = .zero s ∧ v = 0) ∨
      ∃ s m e hm, a = .finite s m e hm ∧ v = s.apply 1 * m * 2 ^ e := by
  obtain ⟨hfinite, -, rfl⟩ := h
  cases a with
  | notANumber => contradiction
  | infinity => contradiction
  | zero s => exact .inl ⟨s, rfl, rfl⟩
  | finite s m e hm => exact .inr ⟨s, m, e, hm, rfl, by rw [unpackedValue, apply_natCast]⟩

/-- Products of mantissas are at least as fine as the grid. -/
theorem Canonical.le_gridExponent_mul {s t : UnpackedFloat.Sign} {m n : ℕ} {e f : ℤ} {hm : 0 < m}
    {hn : 0 < n} (ha : Canonical (.finite s m e hm)) (hb : Canonical (.finite t n f hn)) :
    e + f ≤ gridExponent ((m * n : ℕ) * 2 ^ (e + f)) := by
  refine le_gridExponent (Nat.mul_pos hm hn).ne' ?_
  obtain ⟨-, -, hlarge | rfl⟩ := ha
  · exact .inl (hlarge.trans (Nat.le_mul_of_pos_right m hn))
  obtain ⟨-, -, hlarge | rfl⟩ := hb
  · exact .inl (hlarge.trans (Nat.le_mul_of_pos_left n hm))
  · exact .inr (by norm_num)

theorem represents_mul (ha : Represents a v) (hb : Represents b w) :
    Represents (UnpackedFloat.mul Format.binary64 a b) (nearestDouble (v * w)) := by
  rcases ha.cases with ⟨s, rfl, rfl⟩ | ⟨s, m, e, hm, rfl, rfl⟩
  · rw [zero_mul, nearestDouble_zero]
    rcases hb.cases with ⟨t, rfl, -⟩ | ⟨t, n, f, hn, rfl, -⟩ <;> exact represents_zero _
  rcases hb.cases with ⟨t, rfl, rfl⟩ | ⟨t, n, f, hn, rfl, rfl⟩
  · rw [mul_zero, nearestDouble_zero]
    exact represents_zero _
  · have hproduct : (s.apply 1 * m * 2 ^ e * (t.apply 1 * n * 2 ^ f) : ℚ) =
        (s * t).apply 1 * ((m * n : ℕ) * 2 ^ (e + f)) := by
      rw [apply_mul, zpow_add₀ two_ne_zero]
      push_cast
      ring
    have hpos : (0 : ℚ) < (m * n : ℕ) := by exact_mod_cast Nat.mul_pos hm hn
    rw [hproduct]
    exact represents_roundWithAccuracy (s * t) (stands_exact (m * n)) hpos
      (ha.canonical.le_gridExponent_mul hb.canonical)

/-- The accuracy of a quotient of whole numbers tells where the remainder leaves it. -/
theorem stands_accuracyOfFraction (m : ℕ) {n : ℕ} (hn : 0 < n) :
    Stands (.ofMantissaAndAccuracy (m / n) (UnpackedFloat.accuracyOfFraction (m % n) n)) (m / n) := by
  have hpos : (0 : ℚ) < n := by exact_mod_cast hn
  have hlt : ((m % n : ℕ) : ℚ) / n < 1 := by
    rw [div_lt_one hpos]
    exact_mod_cast Nat.mod_lt m hn
  have hsplit : (m : ℚ) / n = (m / n : ℕ) + (m % n : ℕ) / n := by
    rw [eq_comm, add_div_eq_mul_add_div _ _ hpos.ne']
    congr 1
    exact_mod_cast Nat.div_add_mod' m n
  rw [hsplit]
  generalize m / n = q
  generalize m % n = r at hlt ⊢
  rw [UnpackedFloat.accuracyOfFraction]
  rcases Nat.eq_zero_or_pos r with rfl | hr
  · rw [if_pos rfl, Nat.cast_zero, zero_div, add_zero]
    exact stands_exact q
  · have hfraction : (0 : ℚ) < r / n := div_pos (by exact_mod_cast hr) hpos
    rw [if_neg hr.ne']
    rcases lt_trichotomy (2 * r) n with h | h | h
    · have hhalf : (r : ℚ) / n < 1 / 2 := by
        rw [div_lt_div_iff₀ hpos two_pos]
        exact_mod_cast (by omega : r * 2 < 1 * n)
      rw [Nat.compare_eq_lt.2 h]
      exact ⟨lt_add_of_pos_right _ hfraction, (add_lt_add_iff_left _).2 hhalf⟩
    · have hhalf : (r : ℚ) / n = 1 / 2 := by
        rw [div_eq_div_iff hpos.ne' two_ne_zero]
        exact_mod_cast (by omega : r * 2 = 1 * n)
      rw [Nat.compare_eq_eq.2 h, hhalf]
      rfl
    · have hhalf : 1 / 2 < (r : ℚ) / n := by
        rw [div_lt_div_iff₀ two_pos hpos]
        exact_mod_cast (by omega : 1 * n < r * 2)
      rw [Nat.compare_eq_gt.2 h]
      exact ⟨(add_lt_add_iff_left _).2 hhalf, (add_lt_add_iff_left _).2 hlt⟩

/-- A quotient is calculated no coarser than it is rounded. -/
theorem targetExponent_le_gridExponent {m n : ℕ} (e f : ℤ) (hm : 0 < m) (hn : 0 < n) :
    Format.binary64.targetExponent (Float.Model.totalExponent m e - Float.Model.totalExponent n f) ≤
      gridExponent (m * 2 ^ e / (n * 2 ^ f)) := by
  have hmin : Format.binary64.minExponent = -1074 := by decide
  have hbits : (Format.binary64.mantissaBits : ℤ) = 53 := by decide
  have hlower : (2 : ℚ) ^ (m.log2 + e - (n.log2 + 1 + f) : ℤ) ≤ m * 2 ^ e / (n * 2 ^ f) := by
    rw [zpow_sub₀ two_ne_zero, zpow_add₀ two_ne_zero, zpow_add₀ two_ne_zero (n.log2 + 1 : ℤ)]
    have hnumerator : (2 : ℚ) ^ (m.log2 : ℤ) ≤ m := by
      rw [zpow_natCast]
      exact_mod_cast Nat.log2_self_le hm.ne'
    have hdenominator : (n : ℚ) ≤ 2 ^ (n.log2 + 1 : ℤ) := by
      exact_mod_cast (Nat.lt_log2_self (n := n)).le
    have hpos : (0 : ℚ) < n := by exact_mod_cast hn
    exact div_le_div₀ (by positivity) (mul_le_mul_of_nonneg_right hnumerator (two_zpow_pos e).le)
      (mul_pos hpos (two_zpow_pos f)) (mul_le_mul_of_nonneg_right hdenominator (two_zpow_pos f).le)
  have hpos : (0 : ℚ) < m * 2 ^ e / (n * 2 ^ f) := lt_of_lt_of_le (two_zpow_pos _) hlower
  have hlog := (Int.zpow_le_iff_le_log one_lt_two hpos).1 hlower
  rw [Format.targetExponent, Float.Model.totalExponent, Float.Model.totalExponent, hmin, hbits,
    gridExponent, abs_of_pos hpos]
  omega

theorem apply_div (s t : UnpackedFloat.Sign) : (s / t).apply 1 = s.apply 1 * t.apply 1 := by
  cases s <;> cases t <;> rfl

theorem represents_div_finite (s t : UnpackedFloat.Sign) {m n : ℕ} {e f : ℤ} (hm : 0 < m)
    (hn : 0 < n) :
    Represents (UnpackedFloat.div Format.binary64 (.finite s m e hm) (.finite t n f hn))
      (nearestDouble (s.apply 1 * m * 2 ^ e / (t.apply 1 * n * 2 ^ f))) := by
  have htarget := targetExponent_le_gridExponent e f hm hn
  rw [UnpackedFloat.div, UnpackedFloat.divCore]
  dsimp only
  obtain ⟨d, hd⟩ : ∃ d, d = min (e - f) (Format.binary64.targetExponent
    (Float.Model.totalExponent m e - Float.Model.totalExponent n f)) := ⟨_, rfl⟩
  rw [← hd]
  have hshift : ((e - f - d).toNat : ℤ) = e - f - d := Int.toNat_of_nonneg (by omega)
  have hscale : ((m <<< (e - f - d).toNat : ℕ) / n : ℚ) * 2 ^ d = m * 2 ^ e / (n * 2 ^ f) := by
    rw [Nat.shiftLeft_eq, Nat.cast_mul, Nat.cast_pow, Nat.cast_ofNat, ← zpow_natCast 2, hshift,
      zpow_sub₀ two_ne_zero, zpow_sub₀ two_ne_zero]
    field_simp
  have hquotient : (s.apply 1 * m * 2 ^ e / (t.apply 1 * n * 2 ^ f) : ℚ) =
      (s / t).apply 1 * ((m <<< (e - f - d).toNat : ℕ) / n * 2 ^ d) := by
    rw [hscale, apply_div, Int.cast_mul]
    rcases apply_eq_one_or t with h | h
    · rw [h, Int.cast_one, one_mul, mul_one, mul_assoc, mul_div_assoc]
    · rw [h, Int.cast_neg, Int.cast_one]
      ring
  have hpos : (0 : ℚ) < (m <<< (e - f - d).toNat : ℕ) / n := by
    rw [Nat.shiftLeft_eq]
    exact div_pos (by exact_mod_cast Nat.mul_pos hm (Nat.two_pow_pos _)) (by exact_mod_cast hn)
  rw [hquotient]
  exact represents_roundWithAccuracy (s / t) (stands_accuracyOfFraction _ hn) hpos
    (by rw [hscale]; omega)

theorem represents_div (ha : Represents a v) (hb : Represents b w) (hw : w ≠ 0) :
    Represents (UnpackedFloat.div Format.binary64 a b) (nearestDouble (v / w)) := by
  rcases hb.cases with ⟨t, rfl, rfl⟩ | ⟨t, n, f, hn, rfl, rfl⟩
  · exact absurd rfl hw
  rcases ha.cases with ⟨s, rfl, rfl⟩ | ⟨s, m, e, hm, rfl, rfl⟩
  · rw [zero_div, nearestDouble_zero]
    exact represents_zero _
  · exact represents_div_finite s t hm hn

/-- A number that is given exactly is first made fine enough. -/
theorem represents_round (sign : UnpackedFloat.Sign) {m : ℕ} (hm : m ≠ 0) (e : ℤ) :
    Represents (UnpackedFloat.round Format.binary64 sign m e)
      (nearestDouble (sign.apply 1 * (m * 2 ^ e))) := by
  have htarget : Format.binary64.targetExponent (Float.Model.totalExponent m e) =
      gridExponent (m * 2 ^ e) := by
    rw [targetExponent_totalExponent, gridExponent, log_mul_zpow hm le_rfl (lt_add_one _)]
  rw [UnpackedFloat.round, htarget, UnpackedFloat.decreaseExponent]
  dsimp only
  obtain ⟨k, hk⟩ : ∃ k, k = (e - gridExponent (m * 2 ^ e)).toNat := ⟨_, rfl⟩
  rw [← hk]
  have hsame : ((m <<< k : ℕ) : ℚ) * 2 ^ (e - k) = m * 2 ^ e := by
    rw [Nat.shiftLeft_eq, zpow_sub₀ two_ne_zero, zpow_natCast]
    push_cast
    field_simp
  have hpos : (0 : ℚ) < (m <<< k : ℕ) := by
    rw [Nat.shiftLeft_eq]
    exact_mod_cast Nat.mul_pos (Nat.pos_of_ne_zero hm) (Nat.two_pow_pos k)
  have hrounded := represents_roundWithAccuracy sign (stands_exact (m <<< k)) hpos
    (show e - k ≤ _ by rw [hsame]; omega)
  rwa [hsame] at hrounded

theorem represents_normalize (n e : ℤ) :
    Represents (UnpackedFloat.normalize Format.binary64 n e .positive)
      (nearestDouble (n * 2 ^ e)) := by
  rw [UnpackedFloat.normalize]
  rcases lt_trichotomy n 0 with hneg | rfl | hpos
  · have hm : (-n).toNat ≠ 0 := by omega
    have hcast : (((-n).toNat : ℕ) : ℚ) = -n := by
      rw [← Int.cast_natCast, Int.toNat_of_nonneg (by omega), Int.cast_neg]
    have hsame : (n : ℚ) * 2 ^ e =
        UnpackedFloat.Sign.apply .negative 1 * (((-n).toNat : ℕ) * 2 ^ e) := by
      show _ = ((-1 : ℤ) : ℚ) * _
      rw [hcast, Int.cast_neg, Int.cast_one, neg_one_mul, neg_mul, neg_neg]
    rw [Int.compare_eq_lt.2 hneg, hsame]
    exact represents_round .negative hm e
  · have hzero : compare (0 : ℤ) 0 = .eq := rfl
    rw [hzero, Int.cast_zero, zero_mul, nearestDouble_zero]
    exact represents_zero _
  · have hm : n.toNat ≠ 0 := by omega
    have hsame : (n : ℚ) * 2 ^ e = UnpackedFloat.Sign.apply .positive 1 * ((n.toNat : ℕ) * 2 ^ e) := by
      show _ = ((1 : ℤ) : ℚ) * _
      rw [← Int.cast_natCast, Int.toNat_of_nonneg hpos.le, Int.cast_one, one_mul]
    rw [Int.compare_eq_gt.2 hpos, hsame]
    exact represents_round .positive hm e

/-- What a double represents is not changed by rounding. -/
theorem Represents.nearestDouble_eq (h : Represents a v) : nearestDouble v = v := by
  rcases h.cases with ⟨s, rfl, rfl⟩ | ⟨s, m, e, hm, rfl, rfl⟩
  · exact nearestDouble_zero
  · obtain ⟨hlt, he, -⟩ := h.canonical
    have hbound : |(m : ℤ)| < 2 ^ 53 := by
      rw [Nat.abs_cast]
      exact_mod_cast hlt
    have hm := nearestDouble_eq_self hbound he
    rw [mul_assoc, nearestDouble_apply, ← Int.cast_natCast m, hm]

theorem canonical_neg (h : Canonical a) : Canonical a.neg := by
  cases a <;> exact h

theorem unpackedValue_neg (a : UnpackedFloat) : unpackedValue a.neg = -unpackedValue a := by
  cases a with
  | finite s m e hm =>
    have hsign : (-s).apply m = -s.apply m := by
      cases s with
      | negative => exact (neg_neg (m : ℤ)).symm
      | positive => rfl
    rw [UnpackedFloat.neg, unpackedValue, hsign, Int.cast_neg, neg_mul, unpackedValue]
  | _ => exact neg_zero.symm

theorem Represents.neg (h : Represents a v) : Represents a.neg (-v) := by
  refine ⟨?_, canonical_neg h.canonical, by rw [unpackedValue_neg, h.value_eq]⟩
  rcases h.cases with ⟨s, rfl, rfl⟩ | ⟨s, m, e, hm, rfl, rfl⟩ <;> rfl

/-- With a smaller exponent the mantissa is larger. -/
theorem decreaseExponent_mul {e t : ℤ} (m : ℕ) (h : t ≤ e) :
    ((UnpackedFloat.decreaseExponent m e t).1 : ℚ) * 2 ^ t = m * 2 ^ e := by
  have hshift : ((e - t).toNat : ℤ) = e - t := Int.toNat_of_nonneg (sub_nonneg.2 h)
  have hsum : e = (e - t).toNat + t := by omega
  rw [UnpackedFloat.decreaseExponent, Nat.shiftLeft_eq]
  conv_rhs => rw [hsum, zpow_add₀ two_ne_zero, zpow_natCast]
  push_cast
  ring

theorem represents_sub (ha : Represents a v) (hb : Represents b w) :
    Represents (UnpackedFloat.sub Format.binary64 a b) (nearestDouble (v - w)) := by
  rcases ha.cases with ⟨s, rfl, rfl⟩ | ⟨s, m, e, hm, rfl, rfl⟩
  · rw [zero_sub, nearestDouble_neg, hb.nearestDouble_eq]
    rcases hb.cases with ⟨t, rfl, rfl⟩ | ⟨t, n, f, hn, rfl, -⟩
    · rw [neg_zero, UnpackedFloat.sub]
      split <;> exact represents_zero _
    · exact hb.neg
  rcases hb.cases with ⟨t, rfl, rfl⟩ | ⟨t, n, f, hn, rfl, rfl⟩
  · rw [sub_zero, ha.nearestDouble_eq]
    exact ha
  · have hdifference : (s.apply 1 * m * 2 ^ e - t.apply 1 * n * 2 ^ f : ℚ) =
        ((s.apply (UnpackedFloat.decreaseExponent m e (min e f)).1 -
          t.apply (UnpackedFloat.decreaseExponent n f (min e f)).1 : ℤ) : ℚ) * 2 ^ min e f := by
      rw [Int.cast_sub, sub_mul, apply_natCast, apply_natCast, mul_assoc, mul_assoc, mul_assoc,
        mul_assoc, decreaseExponent_mul m (min_le_left e f), decreaseExponent_mul n (min_le_right e f)]
    rw [hdifference]
    exact represents_normalize _ _

/-! ### Comparisons -/

/-- A larger exponent decides, because only the smallest one comes with small mantissas. -/
theorem Canonical.mul_zpow_lt {s t : UnpackedFloat.Sign} {m n : ℕ} {e f : ℤ} {hm : 0 < m} {hn : 0 < n}
    (ha : Canonical (.finite s m e hm)) (hb : Canonical (.finite t n f hn)) (h : e < f) :
    (m * 2 ^ e : ℚ) < n * 2 ^ f := by
  obtain ⟨hlt, he, -⟩ := ha
  have hlarge : 2 ^ 52 ≤ n := hb.2.2.resolve_right (by omega)
  calc (m * 2 ^ e : ℚ) < 2 ^ 53 * 2 ^ e :=
        mul_lt_mul_of_pos_right (by exact_mod_cast hlt) (two_zpow_pos e)
    _ = 2 ^ 52 * 2 ^ (e + 1) := by
        rw [zpow_add_one₀ two_ne_zero]
        ring
    _ ≤ 2 ^ 52 * 2 ^ f :=
        mul_le_mul_of_nonneg_left (zpow_le_zpow_right₀ one_le_two h) (by norm_num)
    _ ≤ n * 2 ^ f := mul_le_mul_of_nonneg_right (by exact_mod_cast hlarge) (two_zpow_pos f).le

theorem Canonical.compare_eq {s t : UnpackedFloat.Sign} {m n : ℕ} {e f : ℤ} {hm : 0 < m} {hn : 0 < n}
    (ha : Canonical (.finite s m e hm)) (hb : Canonical (.finite t n f hn)) :
    (compare e f).then (compare m n) = cmp (m * 2 ^ e : ℚ) (n * 2 ^ f) := by
  rcases lt_trichotomy e f with h | rfl | h
  · rw [Int.compare_eq_lt.2 h, (ha.mul_zpow_lt hb h).cmp_eq_lt]
    rfl
  · have hpos := two_zpow_pos e
    have hscale {i j : ℕ} (h : i < j) : (i * 2 ^ e : ℚ) < j * 2 ^ e :=
      mul_lt_mul_of_pos_right (by exact_mod_cast h) hpos
    have hsame : compare e e = .eq := Int.compare_eq_eq.2 rfl
    rw [hsame, Ordering.eq_then]
    rcases lt_trichotomy m n with h | rfl | h
    · rw [Nat.compare_eq_lt.2 h, (hscale h).cmp_eq_lt]
    · rw [Nat.compare_eq_eq.2 rfl, cmp_self_eq_eq]
    · rw [Nat.compare_eq_gt.2 h, (hscale h).cmp_eq_gt]
  · rw [Int.compare_eq_gt.2 h, (hb.mul_zpow_lt ha h).cmp_eq_gt]
    rfl

/-- **Unpacked doubles are ordered like their values.** -/
theorem represents_compare (ha : Represents a v) (hb : Represents b w) :
    UnpackedFloat.compare a b = some (cmp v w) := by
  have hpos {m : ℕ} (hm : 0 < m) (e : ℤ) : (0 : ℚ) < m * 2 ^ e :=
    mul_pos (by exact_mod_cast hm) (two_zpow_pos e)
  have hplus (m : ℕ) (e : ℤ) :
      (UnpackedFloat.Sign.apply .positive 1 * m * 2 ^ e : ℚ) = m * 2 ^ e := by
    show ((1 : ℤ) : ℚ) * m * 2 ^ e = _
    rw [Int.cast_one, one_mul]
  have hminus (m : ℕ) (e : ℤ) :
      (UnpackedFloat.Sign.apply .negative 1 * m * 2 ^ e : ℚ) = -(m * 2 ^ e) := by
    show ((-1 : ℤ) : ℚ) * m * 2 ^ e = _
    rw [Int.cast_neg, Int.cast_one, neg_one_mul, neg_mul]
  rcases ha.cases with ⟨s, rfl, rfl⟩ | ⟨s, m, e, hm, rfl, rfl⟩
  · rcases hb.cases with ⟨t, rfl, rfl⟩ | ⟨t, n, f, hn, rfl, rfl⟩
    · rw [cmp_self_eq_eq]
      rfl
    · cases t with
      | positive =>
        rw [hplus, (hpos hn f).cmp_eq_lt]
        rfl
      | negative =>
        rw [hminus, (neg_neg_of_pos (hpos hn f)).cmp_eq_gt]
        rfl
  · rcases hb.cases with ⟨t, rfl, rfl⟩ | ⟨t, n, f, hn, rfl, rfl⟩
    · cases s with
      | positive =>
        rw [hplus, (hpos hm e).cmp_eq_gt]
        rfl
      | negative =>
        rw [hminus, (neg_neg_of_pos (hpos hm e)).cmp_eq_lt]
        rfl
    · cases s <;> cases t
      case positive.positive =>
        rw [hplus, hplus, ← ha.canonical.compare_eq hb.canonical]
        rfl
      case positive.negative =>
        rw [hplus, hminus, ((neg_neg_of_pos (hpos hn f)).trans (hpos hm e)).cmp_eq_gt]
        rfl
      case negative.positive =>
        rw [hplus, hminus, ((neg_neg_of_pos (hpos hm e)).trans (hpos hn f)).cmp_eq_lt]
        rfl
      case negative.negative =>
        have hcompare := ha.canonical.compare_eq hb.canonical
        have hswap : cmp (-(m * 2 ^ e : ℚ)) (-(n * 2 ^ f)) =
            ((compare e f).then (compare m n)).swap := by
          have hanti : StrictAnti fun q : ℚ ↦ -q := fun _ _ ↦ neg_lt_neg
          rw [hcompare, cmp_swap]
          exact hanti.cmp_map_eq _ _
        rw [hminus, hminus, hswap]
        rfl

end Unpacked

/-! ### Doubles -/

variable {x y : Float} {v w : ℚ}

/-- **A product is the double nearest to the product of the values.** -/
theorem hasValue_mul (hx : HasValue x v) (hy : HasValue y w)
    (hlt : |nearestDouble (v * w)| < 2 ^ 1024) : HasValue (x * y) (nearestDouble (v * w)) :=
  hasValue_pack (represents_mul hx hy) hlt

/-- **So is a quotient**, to the quotient of the values. -/
theorem hasValue_div (hx : HasValue x v) (hy : HasValue y w) (hw : w ≠ 0)
    (hlt : |nearestDouble (v / w)| < 2 ^ 1024) : HasValue (x / y) (nearestDouble (v / w)) :=
  hasValue_pack (represents_div hx hy hw) hlt

/-- **So is a difference**, to the difference of the values. -/
theorem hasValue_sub (hx : HasValue x v) (hy : HasValue y w)
    (hlt : |nearestDouble (v - w)| < 2 ^ 1024) : HasValue (x - y) (nearestDouble (v - w)) :=
  hasValue_pack (represents_sub hx hy) hlt

/-- A double is negated as it is unpacked, also one that has no value. -/
theorem unpack_neg (x : Float) : (-x).toModel.unpack = x.toModel.unpack.neg := by
  refine unpack_pack (canonical_neg (canonical_unpack x)) ?_
  rw [unpackedValue_neg, abs_neg]
  exact abs_unpackedValue_lt x

theorem hasValue_neg (hx : HasValue x v) : HasValue (-x) (-v) := by
  rw [HasValue, unpack_neg]
  exact Represents.neg hx

/-- **Doubles are ordered like their values.** -/
theorem lt_iff (hx : HasValue x v) (hy : HasValue y w) : x < y ↔ v < w := by
  change decide (UnpackedFloat.lt x.toModel.unpack y.toModel.unpack = true) = true ↔ _
  rw [decide_eq_true_iff, UnpackedFloat.lt, represents_compare hx hy, beq_iff_eq, Option.some_inj,
    cmp_eq_lt_iff]

theorem le_iff (hx : HasValue x v) (hy : HasValue y w) : x ≤ y ↔ v ≤ w := by
  have hle (o : Ordering) : o.isLE = true ↔ o ≠ .gt := by
    cases o <;> decide
  change decide (UnpackedFloat.le x.toModel.unpack y.toModel.unpack = true) = true ↔ _
  rw [decide_eq_true_iff, UnpackedFloat.le, represents_compare hx hy, Option.any_some, hle, Ne,
    cmp_eq_gt_iff, not_lt]

theorem beq_iff (hx : HasValue x v) (hy : HasValue y w) : (x == y) = true ↔ v = w := by
  change UnpackedFloat.beq x.toModel.unpack y.toModel.unpack = true ↔ _
  rw [UnpackedFloat.beq, represents_compare hx hy, beq_iff_eq, Option.some_inj, cmp_eq_eq_iff]

/-! ### Decoded doubles -/

section

variable {negative : Bool} {m : ℕ} {e : ℤ}

/-- A double that decodes to a mantissa is the number that mantissa and exponent say. -/
theorem hasValue_of_ofFloat (hx : ofFloat x = .finite negative m e) (hm : m ≠ 0) :
    HasValue x ((if negative then -1 else 1) * (m * 2 ^ e)) ∧
      m < 2 ^ 53 ∧ -1074 ≤ e ∧ (2 ^ 52 ≤ m ∨ e = -1074) := by
  have hcanonical := canonical_unpack x
  rw [ofFloat_eq] at hx
  rw [HasValue]
  cases hu : x.toModel.unpack with
  | notANumber => rw [hu] at hx; contradiction
  | infinity => rw [hu] at hx; contradiction
  | zero sign =>
    rw [hu] at hx
    obtain ⟨-, hzero, -⟩ := (finite.injEq ..).mp hx
    exact absurd hzero.symm hm
  | finite sign mantissa exponent hpos =>
    rw [hu] at hx hcanonical
    obtain ⟨rfl, rfl, rfl⟩ := (finite.injEq ..).mp hx
    refine ⟨⟨rfl, hcanonical, ?_⟩, hcanonical⟩
    rw [unpackedValue, apply_natCast, mul_assoc]
    cases sign with
    | negative =>
      show (((-1 : ℤ) : ℚ)) * _ = -1 * _
      rw [Int.cast_neg, Int.cast_one]
    | positive =>
      show (((1 : ℤ) : ℚ)) * _ = 1 * _
      rw [Int.cast_one]

theorem isFinite_iff : x.isFinite = true ↔ ∃ negative m e, ofFloat x = .finite negative m e := by
  change x.toModel.unpack.isFinite = true ↔ _
  rw [ofFloat_eq]
  cases x.toModel.unpack with
  | notANumber => exact iff_of_false nofun nofun
  | infinity => exact iff_of_false nofun nofun
  | zero => exact iff_of_true rfl ⟨_, _, _, rfl⟩
  | finite => exact iff_of_true rfl ⟨_, _, _, rfl⟩

theorem hasValue_zero_of_ofFloat (hx : ofFloat x = .finite negative 0 e) : HasValue x 0 := by
  rw [ofFloat_eq] at hx
  rw [HasValue]
  cases hu : x.toModel.unpack with
  | notANumber => rw [hu] at hx; contradiction
  | infinity => rw [hu] at hx; contradiction
  | zero sign => exact represents_zero sign
  | finite sign mantissa exponent hpos =>
    rw [hu] at hx
    obtain ⟨-, hzero, -⟩ := (finite.injEq ..).mp hx
    exact absurd hzero hpos.ne'

/-- A double with a positive value decodes to mantissa and exponent of this value. -/
theorem exists_ofFloat_of_pos (hx : HasValue x v) (hv : 0 < v) :
    ∃ m e, ofFloat x = .finite false m e ∧ m ≠ 0 ∧ v = m * 2 ^ e := by
  obtain ⟨negative, m, e, hdecoded⟩ := isFinite_iff.1 hx.finite
  have hm : m ≠ 0 := by
    rintro rfl
    exact hv.ne ((hasValue_zero_of_ofFloat hdecoded).value_eq.symm.trans hx.value_eq)
  obtain ⟨hvalue, -⟩ := hasValue_of_ofFloat hdecoded hm
  have hsame := hx.value_eq.symm.trans hvalue.value_eq
  cases negative with
  | true =>
    have hnonneg : (0 : ℚ) ≤ m * 2 ^ e := mul_nonneg m.cast_nonneg (two_zpow_pos e).le
    rw [if_pos rfl, neg_one_mul] at hsame
    linarith
  | false =>
    rw [if_neg Bool.false_ne_true, one_mul] at hsame
    exact ⟨m, e, hdecoded, hm, hsame⟩

end

/-! ### Decimals -/

theorem hasValue_zero : HasValue 0 0 := represents_zero .positive

theorem hasValue_one : HasValue 1 1 := by
  have hunpack : (1 : Float).toModel.unpack = .finite .positive (2 ^ 52) (-52) (by decide) := rfl
  rw [HasValue, hunpack]
  refine ⟨rfl, ⟨by decide, by decide, .inl le_rfl⟩, ?_⟩
  rw [unpackedValue, apply_natCast]
  show ((1 : ℤ) : ℚ) * ((2 ^ 52 : ℕ) : ℚ) * 2 ^ (-52 : ℤ) = 1
  norm_num

/-- A positive double has a whole number as its value: a test on its mantissa and exponent. -/
def isNatural (x : Float) (n : ℕ) : Bool :=
  match x.toModel.unpack with
  | .finite .positive m e _ =>
    decide (m < 2 ^ 53) && decide (2 ^ 52 ≤ m) && decide (-1074 ≤ e) &&
      decide (m * 2 ^ e.toNat = n * 2 ^ (-e).toNat)
  | _ => false

theorem hasValue_of_isNatural {x : Float} {n : ℕ} (h : isNatural x n = true) : HasValue x n := by
  rw [isNatural] at h
  rw [HasValue]
  split at h
  · rename_i m e hm heq
    simp only [Bool.and_eq_true, decide_eq_true_iff] at h
    obtain ⟨⟨⟨hlt, hge⟩, he⟩, hvalue⟩ := h
    rw [heq]
    refine ⟨rfl, ⟨hlt, he, .inl hge⟩, ?_⟩
    have hcast : (m : ℚ) * 2 ^ e.toNat = n * 2 ^ (-e).toNat := by exact_mod_cast hvalue
    have htwo : (2 : ℚ) ^ e.toNat = 2 ^ e * 2 ^ (-e).toNat := by
      rw [← zpow_natCast, ← zpow_natCast, ← zpow_add₀ two_ne_zero]
      congr 1
      omega
    rw [htwo, ← mul_assoc] at hcast
    rw [unpackedValue, apply_natCast]
    show ((1 : ℤ) : ℚ) * m * 2 ^ e = n
    rw [Int.cast_one, one_mul]
    exact mul_right_cancel₀ (by positivity) hcast
  · contradiction

theorem hasValue_powersOfTen (e : Fin 23) :
    HasValue Float.exactlyRepresentablePowersOfTen[e] (10 ^ (e : ℕ) : ℕ) := by
  refine hasValue_of_isNatural ?_
  revert e
  decide

/-- What is too small is rounded to zero. -/
theorem nearestDouble_eq_zero {v : ℚ} (h : 0 ≤ v) (hlt : v < 2 ^ (-1075 : ℤ)) : nearestDouble v = 0 := by
  rcases h.lt_or_eq with hpos | rfl
  · have hgrid : gridExponent v = -1074 := by
      have hlog := (Int.lt_zpow_iff_log_lt one_lt_two hpos).1 hlt
      rw [gridExponent, abs_of_pos hpos]
      omega
    have hunit := two_zpow_pos (-1074)
    have hhalf : (2 : ℚ) ^ (-1075 : ℤ) = 1 / 2 * 2 ^ (-1074 : ℤ) := by
      rw [show (-1075 : ℤ) = -1074 - 1 from rfl, zpow_sub_one₀ two_ne_zero, mul_comm, one_div]
    rw [hhalf, ← div_lt_iff₀ hunit] at hlt
    have hnonneg : 0 ≤ v / 2 ^ (-1074 : ℤ) := div_nonneg h hunit.le
    rw [nearestDouble, hgrid]
    generalize v / 2 ^ (-1074 : ℤ) = z at hlt hnonneg
    have hround : halfEven z = 0 := by
      refine halfEven_eq ?_ ?_ (.inl (by decide))
      · push_cast
        linarith
      · push_cast
        linarith
    rw [hround, Int.cast_zero, zero_mul]
  · exact nearestDouble_zero

/-- With a large exponent of ten a number is too large for a double, -/
theorem two_zpow_le_mul_ten_zpow {c : ℕ} {k : ℤ} (hc : 0 < c) (hk : 1024 ≤ k) :
    (2 : ℚ) ^ (1024 : ℤ) ≤ c * 10 ^ k := by
  have hone : (1 : ℚ) ≤ c := by exact_mod_cast hc
  have hten : (0 : ℚ) ≤ 10 ^ k := by positivity
  calc (2 : ℚ) ^ (1024 : ℤ) ≤ 2 ^ k := zpow_le_zpow_right₀ one_le_two hk
    _ ≤ 10 ^ k := zpow_le_zpow_left₀ (by omega) two_pos.le (by norm_num)
    _ ≤ c * 10 ^ k := le_mul_of_one_le_left hten hone

/-- and with a small one too small. -/
theorem mul_ten_zpow_lt_two_zpow {c : ℕ} {k : ℤ} (hk : k < -(2048 + c.log2)) :
    (c : ℚ) * 10 ^ k < 2 ^ (-1075 : ℤ) := by
  have hc : (c : ℚ) < 2 ^ (c.log2 + 1 : ℤ) := by exact_mod_cast Nat.lt_log2_self (n := c)
  have hpower : (10 : ℚ) ^ k ≤ 2 ^ k := by
    have hle : (2 : ℚ) ^ (-k) ≤ 10 ^ (-k) := zpow_le_zpow_left₀ (by omega) two_pos.le (by norm_num)
    have hinverse := inv_anti₀ (two_zpow_pos (-k)) hle
    rwa [zpow_neg, inv_inv, zpow_neg, inv_inv] at hinverse
  calc (c : ℚ) * 10 ^ k < 2 ^ (c.log2 + 1 : ℤ) * 10 ^ k := mul_lt_mul_of_pos_right hc (by positivity)
    _ ≤ 2 ^ (c.log2 + 1 : ℤ) * 2 ^ k := mul_le_mul_of_nonneg_left hpower (two_zpow_pos _).le
    _ = 2 ^ (c.log2 + 1 + k) := (zpow_add₀ two_ne_zero _ _).symm
    _ ≤ 2 ^ (-1075 : ℤ) := zpow_le_zpow_right₀ one_le_two (by omega)

/-- **A decimal is rounded to the nearest double.** -/
theorem represents_ofScientific {c : ℕ} {k : ℤ} (hlt : |nearestDouble (c * 10 ^ k)| < 2 ^ 1024) :
    Represents (UnpackedFloat.ofScientific Format.binary64 c k) (nearestDouble (c * 10 ^ k)) := by
  have hbits : (2 : ℤ) ^ Format.binary64.exponentBits = 2048 := by decide
  have hsign : ((UnpackedFloat.Sign.apply .positive 1 : ℤ) : ℚ) = 1 := rfl
  rw [UnpackedFloat.ofScientific, hbits]
  by_cases hzero : c = 0
  · rw [dif_pos hzero, hzero, Nat.cast_zero, zero_mul, nearestDouble_zero]
    exact represents_zero _
  have hpos : 0 < c := Nat.pos_of_ne_zero hzero
  rw [dif_neg hzero]
  have hlarge : ¬k > 2048 := by
    intro hk
    have hpower := (two_zpow_le_mul_ten_zpow hpos (by omega : 1024 ≤ k)).trans (le_abs_self _)
    exact absurd hlt (not_lt.2 (le_abs_nearestDouble (k := 1024) (by decide) hpower))
  rw [if_neg hlarge]
  by_cases hsmall : k < -(2048 + c.log2)
  · rw [if_pos hsmall, nearestDouble_eq_zero (by positivity) (mul_ten_zpow_lt_two_zpow hsmall)]
    exact represents_zero _
  rw [if_neg hsmall]
  by_cases hk : 0 ≤ k
  · -- The mantissa gets enough digits for a product that is as fine as the grid.
    obtain ⟨n, rfl⟩ := Int.eq_ofNat_of_zero_le hk
    have hfine : 2 ^ 52 ≤ c <<< 53 * 10 ^ n := by
      rw [Nat.shiftLeft_eq]
      have hpower : 0 < 10 ^ n := by positivity
      nlinarith
    have hmantissa : 0 < c <<< 53 * 10 ^ n := lt_of_lt_of_le (Nat.two_pow_pos 52) hfine
    have hsame : ((c <<< 53 * 10 ^ n : ℕ) : ℚ) * 2 ^ (-53 : ℤ) = c * 10 ^ (n : ℤ) := by
      rw [Nat.shiftLeft_eq, zpow_natCast]
      push_cast
      norm_num
      ring
    have hgrid := le_gridExponent hmantissa.ne' (.inl hfine : _ ∨ (-53 : ℤ) ≤ -1074)
    have hrounded := represents_roundWithAccuracy .positive (stands_exact _)
      (by exact_mod_cast hmantissa) hgrid
    rw [hsame, hsign, one_mul] at hrounded
    rw [if_pos hk]
    exact hrounded
  · obtain ⟨n, hn⟩ := Int.eq_ofNat_of_zero_le (by omega : 0 ≤ -k)
    have hquotient := represents_div_finite .positive .positive (e := 0) (f := 0) hpos
      (Nat.pow_pos (n := n) (by decide : 0 < 10))
    have hsame : (c : ℚ) * 10 ^ k = 1 * c * 2 ^ (0 : ℤ) / (1 * (10 ^ n : ℕ) * 2 ^ (0 : ℤ)) := by
      rw [show k = -(n : ℤ) by omega, zpow_neg, zpow_natCast]
      push_cast
      ring
    rw [hsign, ← hsame] at hquotient
    rw [if_neg hk]
    have hn' : (-k).toNat = n := by omega
    simp only [hn']
    exact hquotient

theorem hasValue_toUInt64 {c : ℕ} (h : c < 2 ^ 53) : HasValue c.toUInt64.toFloat c := by
  have hbits : c.toUInt64.toNat = c := UInt64.toNat_ofNat_of_lt' (h.trans (by decide))
  have hexact : nearestDouble c = c := nearestDouble_natCast h
  have hbound : |(c : ℚ)| < 2 ^ 1024 := by
    rw [abs_of_nonneg (Nat.cast_nonneg c)]
    have hcast : (c : ℚ) < 2 ^ 53 := by exact_mod_cast h
    exact hcast.trans (pow_lt_pow_right₀ one_lt_two (by norm_num))
  have hnormal := represents_normalize c 0
  rw [zpow_zero, mul_one, Int.cast_natCast, hexact] at hnormal
  refine hasValue_pack (u := UnpackedFloat.ofNat Format.binary64 c.toUInt64.toNat) ?_ hbound
  rw [hbits]
  exact hnormal

theorem hasValue_ofScientific {c : ℕ} (s : Bool) {e : ℕ} {k : ℤ}
    (hk : k = if s then -(e : ℤ) else e) (hlt : |nearestDouble (c * 10 ^ k)| < 2 ^ 1024) :
    HasValue (Float.ofScientific c s e) (nearestDouble (c * 10 ^ k)) := by
  rw [Float.ofScientific]
  by_cases h : c < 2 ^ 53 ∧ e ≤ 22
  · -- A small number is converted, and one operation with a power of ten follows.
    have hc := hasValue_toUInt64 h.1
    have hpower := hasValue_powersOfTen ⟨e, Nat.lt_succ_of_le h.2⟩
    have hcast : ((10 ^ e : ℕ) : ℚ) = 10 ^ (e : ℤ) := by
      rw [zpow_natCast]
      push_cast
      rfl
    rw [dif_pos h]
    cases s with
    | true =>
      have hquotient : (c : ℚ) * 10 ^ k = c / (10 ^ e : ℕ) := by
        rw [hk, if_pos rfl, zpow_neg, hcast, div_eq_mul_inv]
      rw [hquotient] at hlt ⊢
      exact hasValue_div hc hpower (by positivity) hlt
    | false =>
      have hproduct : (c : ℚ) * 10 ^ k = c * (10 ^ e : ℕ) := by
        rw [hk, if_neg Bool.false_ne_true, hcast]
      rw [hproduct] at hlt ⊢
      exact hasValue_mul hc hpower hlt
  · rw [dif_neg h]
    refine hasValue_pack (u := UnpackedFloat.ofScientific Format.binary64 c _) ?_ hlt
    have hexponent : (if s then Int.negOfNat e else Int.ofNat e) = k := by
      rw [hk, Int.negOfNat_eq]
      rfl
    rw [hexponent]
    exact represents_ofScientific hlt

/-- **The double of a decimal** is the nearest one. -/
theorem hasValue_toFloat {d : Decimal}
    (hlt : |nearestDouble (d.coefficient * 10 ^ d.exponent)| < 2 ^ 1024) :
    HasValue d.toFloat (nearestDouble (d.coefficient * 10 ^ d.exponent)) := by
  obtain ⟨c, e | e⟩ := d
  · exact hasValue_ofScientific false rfl hlt
  · exact hasValue_ofScientific true (Int.negSucc_eq e) hlt

/-! ### Integers -/

theorem hasValue_natCast {n : ℕ} (hlt : |nearestDouble n| < 2 ^ 1024) :
    HasValue (Decimal.toFloat ⟨n, 0⟩) (nearestDouble n) := by
  have hvalue : (n : ℚ) * 10 ^ (0 : ℤ) = n := by rw [zpow_zero, mul_one]
  have hdouble := hasValue_toFloat (d := ⟨n, 0⟩)
  rw [hvalue] at hdouble
  exact hdouble hlt

/-- **The double of an integer** is the nearest one. -/
theorem hasValue_ofInt {n : ℤ} (hlt : |nearestDouble n| < 2 ^ 1024) :
    HasValue (Scalar.ofInt n) (nearestDouble n) := by
  cases n with
  | ofNat n => exact hasValue_natCast hlt
  | negSucc n =>
    have hcast : ((Int.negSucc n : ℤ) : ℚ) = -((n + 1 : ℕ) : ℚ) := Int.cast_negSucc n
    rw [hcast, nearestDouble_neg] at hlt ⊢
    rw [abs_neg] at hlt
    exact hasValue_neg (hasValue_natCast hlt)

/-- **Integers of at most 53 bits are doubles.** -/
theorem hasValue_intCast {n : ℤ} (h : |n| < 2 ^ 53) : HasValue (Scalar.ofInt n) n := by
  have hexact : nearestDouble n = n := nearestDouble_intCast h
  have hcast : |(n : ℚ)| < 2 ^ 53 := by exact_mod_cast h
  have hvalue := hasValue_ofInt (n := n)
    (by rw [hexact]; exact hcast.trans (pow_lt_pow_right₀ one_lt_two (by norm_num)))
  rwa [hexact] at hvalue

/-- **Powers of ten up to the 22nd are doubles.** -/
theorem hasValue_ten_pow {k : ℕ} (hk : k ≤ 22) : HasValue (Decimal.toFloat ⟨1, k⟩) (10 ^ k) := by
  have hpow : (5 : ℤ) ^ k < 2 ^ 53 := (pow_le_pow_right₀ (by norm_num) hk).trans_lt (by norm_num)
  have hexact := nearestDouble_eq_self (n := 5 ^ k) (t := k)
    (by rwa [abs_of_nonneg (by positivity)]) (by omega)
  have hsame : ((5 ^ k : ℤ) : ℚ) * 2 ^ (k : ℤ) = 10 ^ k := by
    rw [zpow_natCast, Int.cast_pow, ← mul_pow]
    norm_num
  have hone : ((1 : ℕ) : ℚ) * 10 ^ (k : ℤ) = 10 ^ k := by
    rw [Nat.cast_one, one_mul, zpow_natCast]
  have hbound : |nearestDouble (10 ^ k)| < 2 ^ 1024 := by
    refine abs_nearestDouble_lt (by decide : 74 < 1024) ?_
    rw [abs_of_nonneg (by positivity)]
    exact (pow_le_pow_right₀ (by norm_num) hk).trans (by norm_num)
  have hvalue := hasValue_toFloat (d := ⟨1, k⟩)
  rw [hone] at hvalue
  have hnearest := hvalue hbound
  rwa [← hsame, hexact, hsame] at hnearest

/-! ### Values determine doubles -/

/-- **A double that is not zero is determined by its value.** -/
theorem HasValue.eq_of_ne_zero (hx : HasValue x v) (hy : HasValue y v) (hv : v ≠ 0) : x = y := by
  have hbeq : UnpackedFloat.beq x.toModel.unpack y.toModel.unpack = true := (beq_iff hx hy).2 rfl
  have hzero {s : UnpackedFloat.Sign} : x.toModel.unpack ≠ .zero s := by
    intro h
    have hvalue := hx.value_eq
    rw [h] at hvalue
    exact hv hvalue.symm
  have hsame : x.toModel.unpack = y.toModel.unpack := by
    obtain ⟨-, -, hsame | ⟨h, -⟩ | ⟨h, -⟩⟩ := (UnpackedFloat.beq_iff_ne_notANumber_and_eq _ _).1 hbeq
    · exact hsame
    · exact absurd h hzero
    · exact absurd h hzero
  have hbits := (UnpackedFloat.unpack_inj_of_valid x.toModel.valid y.toModel.valid).1 hsame
  obtain ⟨⟨⟨a⟩, ha⟩⟩ := x
  obtain ⟨⟨⟨b⟩, hb⟩⟩ := y
  obtain rfl : a = b := hbits
  rfl

theorem div_self_eq_one (hx : HasValue x v) (hv : v ≠ 0) : x / x = 1 := by
  have hone : nearestDouble (v / v) = 1 := by
    rw [div_self hv]
    exact hasValue_one.nearestDouble_eq
  have hquotient := hasValue_div hx hx hv (by
    rw [hone, abs_one]
    exact one_lt_pow₀ one_lt_two (by decide))
  rw [hone] at hquotient
  exact hquotient.eq_of_ne_zero hasValue_one one_ne_zero

end Reckoner.Double
