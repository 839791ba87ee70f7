import Mathlib
import Reckoner.Proofs.DecodedDoubles
import Reckoner.Proofs.NearestDoubles

/-!
# What rounding gives

The value of a finite double is a rational number, and rounding gives the double nearest to a rational
(`represents_roundWithAccuracy`). What has been rounded can be packed into bits and unpacked again, if
it is not too large (`unpack_pack`).

Rounding shifts a mantissa to the right and keeps two bits of what is shifted out. An extended mantissa
stands for the numbers that have these bits (`Stands`); a shift by one halves them, and what the
mantissa is rounded to in the end is the whole number nearest to them (`Stands.roundedMantissa_eq`).
-/

open Float.Model (Format UnpackedFloat)
open Float.Model.UnpackedFloat (Accuracy ExtendedMantissa)

namespace Reckoner.Double

/-! ### Values -/

/-- The number that an unpacked double is, if it is finite. -/
def unpackedValue : UnpackedFloat → ℚ
  | .finite sign mantissa exponent _ => (sign.apply mantissa : ℤ) * 2 ^ exponent
  | _ => 0

/-- A mantissa of at most 53 bits, and of less only with the smallest exponent. -/
def Canonical : UnpackedFloat → Prop
  | .finite _ mantissa exponent _ =>
    mantissa < 2 ^ 53 ∧ -1074 ≤ exponent ∧ (2 ^ 52 ≤ mantissa ∨ exponent = -1074)
  | _ => True

/-- An unpacked double is finite, in canonical form, and has a value. -/
structure Represents (u : UnpackedFloat) (v : ℚ) : Prop where
  finite : u.isFinite = true
  canonical : Canonical u
  value_eq : unpackedValue u = v

/-- A double is finite and has a value. -/
def HasValue (x : Float) (v : ℚ) : Prop := Represents x.toModel.unpack v

theorem represents_zero (sign : UnpackedFloat.Sign) : Represents (.zero sign) 0 :=
  ⟨rfl, trivial, rfl⟩

/-! ### Shifting and rounding -/

/-- A number has the integer part of an extended mantissa, and behind it what the two bits say. -/
def Stands (em : ExtendedMantissa) (z : ℚ) : Prop :=
  match em.roundBit, em.stickyBit with
  | false, false => z = em.mantissa
  | false, true => em.mantissa < z ∧ z < em.mantissa + 1 / 2
  | true, false => z = em.mantissa + 1 / 2
  | true, true => em.mantissa + 1 / 2 < z ∧ z < em.mantissa + 1

variable {em : ExtendedMantissa} {z : ℚ}

/-- A shift by one halves. -/
theorem Stands.shiftRightOne (h : Stands em z) : Stands em.shiftRightOne (z / 2) := by
  obtain ⟨m, r, s⟩ := em
  rcases Nat.even_or_odd' m with ⟨k, rfl | rfl⟩
  · have hshift : ExtendedMantissa.shiftRightOne ⟨2 * k, r, s⟩ = ⟨k, false, r || s⟩ := by
      simp [ExtendedMantissa.shiftRightOne]
    rw [hshift]
    cases r <;> cases s <;> simp only [Stands, Bool.or_false, Bool.or_true] at h ⊢ <;>
      push_cast at h ⊢ <;> grind
  · have hshift : ExtendedMantissa.shiftRightOne ⟨2 * k + 1, r, s⟩ = ⟨k, true, r || s⟩ := by
      simp [ExtendedMantissa.shiftRightOne]
      omega
    rw [hshift]
    cases r <;> cases s <;> simp only [Stands, Bool.or_false, Bool.or_true] at h ⊢ <;>
      push_cast at h ⊢ <;> grind

theorem Stands.shiftRight (h : Stands em z) (n : ℕ) : Stands (em >>> n) (z / 2 ^ n) := by
  induction n with
  | zero =>
    rw [pow_zero, div_one]
    exact h
  | succ n ih =>
    rw [pow_succ, ← div_div]
    exact ih.shiftRightOne

/-- **The rounded mantissa is the nearest whole number.** -/
theorem Stands.roundedMantissa_eq (h : Stands em z) : (em.roundedMantissa : ℤ) = halfEven z := by
  obtain ⟨m, r, s⟩ := em
  have hcast : ((m : ℤ) : ℚ) = m := Int.cast_natCast m
  cases r <;> cases s
  case false.false =>
    obtain rfl : z = m := h
    rw [← hcast, halfEven_intCast]
    rfl
  case false.true =>
    obtain ⟨hlt, hlt'⟩ : (m : ℚ) < z ∧ z < m + 1 / 2 := h
    have hle : (m : ℤ) ≤ halfEven z := le_halfEven_of_le hlt.le
    have hge : halfEven z < (m : ℤ) + 1 := halfEven_lt (by push_cast; linarith)
    exact le_antisymm hle (Int.lt_add_one_iff.1 hge)
  case true.false =>
    obtain rfl : z = m + 1 / 2 := h
    exact (halfEven_add_half m).symm
  case true.true =>
    obtain ⟨hlt, hlt'⟩ : (m : ℚ) + 1 / 2 < z ∧ z < m + 1 := h
    have hle : (m : ℤ) + 1 ≤ halfEven z := le_halfEven (by push_cast; linarith)
    have hge : halfEven z ≤ (m : ℤ) + 1 := halfEven_le (by push_cast; exact hlt'.le)
    exact le_antisymm hle hge

theorem Stands.mantissa_le (h : Stands em z) : em.mantissa ≤ z := by
  obtain ⟨m, r, s⟩ := em
  cases r <;> cases s <;> simp only [Stands] at h ⊢ <;> grind

theorem Stands.lt_mantissa (h : Stands em z) : z < em.mantissa + 1 := by
  obtain ⟨m, r, s⟩ := em
  cases r <;> cases s <;> simp only [Stands] at h ⊢ <;> grind

theorem mantissa_ofMantissaAndAccuracy (m : ℕ) (a : Accuracy) :
    (ExtendedMantissa.ofMantissaAndAccuracy m a).mantissa = m := by
  cases a with
  | exact => rfl
  | inexact order => cases order <;> rfl

theorem targetExponent_totalExponent (m : ℕ) (e : ℤ) :
    Format.binary64.targetExponent (Float.Model.totalExponent m e) = max (m.log2 + e - 52) (-1074) := by
  have hmin : Format.binary64.minExponent = -1074 := by decide
  have hbits : (Format.binary64.mantissaBits : ℤ) = 53 := by decide
  rw [Format.targetExponent, Float.Model.totalExponent, hmin, hbits]
  congr 1
  ring

theorem log_mul_zpow {m : ℕ} {e : ℤ} (hm : m ≠ 0) (hle : m ≤ z) (hlt : z < m + 1) :
    Int.log 2 |z * 2 ^ e| = m.log2 + e := by
  have hpos := two_zpow_pos e
  have hz : 0 < z := lt_of_lt_of_le (by exact_mod_cast Nat.pos_of_ne_zero hm) hle
  have hlower : (2 : ℚ) ^ (m.log2 + e : ℤ) ≤ z * 2 ^ e := by
    rw [zpow_add₀ two_ne_zero, zpow_natCast]
    refine mul_le_mul_of_nonneg_right (le_trans ?_ hle) hpos.le
    exact_mod_cast Nat.log2_self_le hm
  have hupper : z * 2 ^ e < (2 : ℚ) ^ (m.log2 + e + 1 : ℤ) := by
    rw [add_right_comm, zpow_add₀ two_ne_zero]
    refine mul_lt_mul_of_pos_right (hlt.trans_le ?_) hpos
    exact_mod_cast Nat.lt_log2_self (n := m)
  rw [abs_of_pos (mul_pos hz hpos)]
  refine le_antisymm ?_ ((Int.zpow_le_iff_le_log one_lt_two (mul_pos hz hpos)).1 hlower)
  exact Int.lt_add_one_iff.1 ((Int.lt_zpow_iff_log_lt one_lt_two (mul_pos hz hpos)).1 hupper)

/-- Rounding aims at the grid of the exact result, if that is not finer than what is given. -/
theorem targetExponent_eq {m : ℕ} {e : ℤ} (hpos : 0 < z) (hle : m ≤ z) (hlt : z < m + 1)
    (he : e ≤ gridExponent (z * 2 ^ e)) :
    Format.binary64.targetExponent (Float.Model.totalExponent m e) = gridExponent (z * 2 ^ e) := by
  rw [targetExponent_totalExponent]
  rcases eq_or_ne m 0 with rfl | hm
  · -- Less than one unit is given, which can only be in the finest grid.
    have htwo := two_zpow_pos e
    have hprod : 0 < |z * 2 ^ e| := abs_pos.2 (mul_pos hpos htwo).ne'
    have hsmall : |z * 2 ^ e| < 2 ^ e := by
      rw [abs_of_pos (mul_pos hpos htwo)]
      push_cast at hlt
      exact mul_lt_of_lt_one_left htwo (by linarith)
    have hlog : Int.log 2 |z * 2 ^ e| < e := (Int.lt_zpow_iff_log_lt one_lt_two hprod).1 hsmall
    have hzero : Nat.log2 0 = 0 := rfl
    rw [gridExponent] at he ⊢
    rw [hzero]
    omega
  · rw [gridExponent, log_mul_zpow hm hle hlt]

/-- A mantissa of at most 53 bits stays as it is. -/
theorem shiftToTargetExponent_of_lt {n : ℕ} {t : ℤ} (hn : n < 2 ^ 53) (ht : -1074 ≤ t) :
    UnpackedFloat.shiftToTargetExponent Format.binary64 n t .exact = (⟨n, false, false⟩, t) := by
  have hlog : n.log2 ≤ 52 := by
    rcases eq_or_ne n 0 with rfl | hne
    · decide
    · exact Nat.lt_succ_iff.1 ((Nat.log2_lt hne).2 hn)
  have hshift : (Format.binary64.targetExponent (Float.Model.totalExponent n t) - t).toNat = 0 := by
    rw [targetExponent_totalExponent]
    omega
  rw [UnpackedFloat.shiftToTargetExponent, UnpackedFloat.shiftToExponent, hshift]
  exact Prod.ext rfl (add_zero t)

/-- One bit more is shifted out. -/
theorem shiftToTargetExponent_two_pow {t : ℤ} (ht : -1074 ≤ t) :
    UnpackedFloat.shiftToTargetExponent Format.binary64 (2 ^ 53) t .exact =
      (⟨2 ^ 52, false, false⟩, t + 1) := by
  have hshift : (Format.binary64.targetExponent (Float.Model.totalExponent (2 ^ 53) t) - t).toNat =
      1 := by
    rw [targetExponent_totalExponent, Nat.log2_two_pow]
    omega
  rw [UnpackedFloat.shiftToTargetExponent, UnpackedFloat.shiftToExponent, hshift]
  rfl

theorem apply_natCast (sign : UnpackedFloat.Sign) (n : ℕ) :
    ((sign.apply n : ℤ) : ℚ) = sign.apply 1 * n := by
  cases sign with
  | negative =>
    show ((-(n : ℤ) : ℤ) : ℚ) = ((-1 : ℤ) : ℚ) * n
    push_cast
    ring
  | positive =>
    show ((n : ℤ) : ℚ) = ((1 : ℤ) : ℚ) * n
    push_cast
    ring

/-- The first shift leads to the grid. -/
theorem exists_shiftToTargetExponent {m : ℕ} {e : ℤ} {a : Accuracy}
    (hz : Stands (.ofMantissaAndAccuracy m a) z) (hpos : 0 < z)
    (he : e ≤ gridExponent (z * 2 ^ e)) :
    ∃ em, UnpackedFloat.shiftToTargetExponent Format.binary64 m e a =
        (em, gridExponent (z * 2 ^ e)) ∧
      Stands em (z * 2 ^ e / 2 ^ gridExponent (z * 2 ^ e)) := by
  have hle := hz.mantissa_le
  have hlt := hz.lt_mantissa
  rw [mantissa_ofMantissaAndAccuracy] at hle hlt
  have htarget := targetExponent_eq hpos hle hlt he
  generalize gridExponent (z * 2 ^ e) = t at he htarget ⊢
  have hshift : ((t - e).toNat : ℤ) = t - e := Int.toNat_of_nonneg (sub_nonneg.2 he)
  refine ⟨ExtendedMantissa.ofMantissaAndAccuracy m a >>> (t - e).toNat, ?_, ?_⟩
  · rw [UnpackedFloat.shiftToTargetExponent, UnpackedFloat.shiftToExponent, htarget, hshift,
      add_sub_cancel]
  · have hgrid : z / 2 ^ (t - e).toNat = z * 2 ^ e / 2 ^ t := by
      rw [← zpow_natCast, hshift, zpow_sub₀ two_ne_zero, div_div_eq_mul_div]
    rw [← hgrid]
    exact hz.shiftRight _

section Rounded

variable {v : ℚ}

/-- What is rounded on the grid is the nearest double. -/
theorem Stands.nearestDouble_eq (h : Stands em (v / 2 ^ gridExponent v)) :
    nearestDouble v = em.roundedMantissa * 2 ^ gridExponent v := by
  rw [nearestDouble, ← h.roundedMantissa_eq, Int.cast_natCast]

theorem Stands.roundedMantissa_le (hv : 0 < v) (h : Stands em (v / 2 ^ gridExponent v)) :
    em.roundedMantissa ≤ 2 ^ 53 := by
  have hlt := abs_div_grid_lt v
  rw [abs_of_pos hv] at hlt
  have hround : (em.roundedMantissa : ℤ) ≤ 2 ^ 53 := by
    rw [h.roundedMantissa_eq]
    refine halfEven_le ?_
    push_cast
    exact hlt.le
  exact_mod_cast hround

theorem Stands.le_roundedMantissa (hv : 0 < v) (h : Stands em (v / 2 ^ gridExponent v)) :
    2 ^ 52 ≤ em.roundedMantissa ∨ gridExponent v = -1074 := by
  refine or_iff_not_imp_right.2 fun hgrid ↦ ?_
  have hge := le_abs_div_grid hv.ne' hgrid
  rw [abs_of_pos hv] at hge
  have hround : (2 : ℤ) ^ 52 ≤ em.roundedMantissa := by
    rw [h.roundedMantissa_eq]
    refine le_halfEven_of_le ?_
    push_cast
    exact hge
  exact_mod_cast hround

end Rounded

theorem apply_mul (s t : UnpackedFloat.Sign) : (s * t).apply 1 = s.apply 1 * t.apply 1 := by
  cases s <;> cases t <;> rfl

theorem apply_eq_one_or (s : UnpackedFloat.Sign) : s.apply 1 = 1 ∨ s.apply 1 = -1 := by
  cases s with
  | negative => exact .inr rfl
  | positive => exact .inl rfl

/-- Rounding does not depend on the sign. -/
theorem nearestDouble_apply (s : UnpackedFloat.Sign) (v : ℚ) :
    nearestDouble (s.apply 1 * v) = s.apply 1 * nearestDouble v := by
  rcases apply_eq_one_or s with h | h
  · rw [h, Int.cast_one, one_mul, one_mul]
  · rw [h, Int.cast_neg, Int.cast_one, neg_one_mul, neg_one_mul, nearestDouble_neg]

/-- **Rounding gives the nearest double** if what is given is no coarser. -/
theorem represents_roundWithAccuracy (sign : UnpackedFloat.Sign) {m : ℕ} {e : ℤ} {a : Accuracy}
    (hz : Stands (.ofMantissaAndAccuracy m a) z) (hpos : 0 < z)
    (he : e ≤ gridExponent (z * 2 ^ e)) :
    Represents (UnpackedFloat.roundWithAccuracy Format.binary64 sign m e a)
      (nearestDouble (sign.apply 1 * (z * 2 ^ e))) := by
  obtain ⟨em, hshift, hem⟩ := exists_shiftToTargetExponent hz hpos he
  have hv : 0 < z * 2 ^ e := mul_pos hpos (two_zpow_pos _)
  have hle := hem.roundedMantissa_le hv
  have hge := hem.le_roundedMantissa hv
  have ht : -1074 ≤ gridExponent (z * 2 ^ e) := le_max_right _ _
  rw [UnpackedFloat.roundWithAccuracy, hshift, nearestDouble_apply, hem.nearestDouble_eq]
  dsimp only
  generalize em.roundedMantissa = n at hle hge ⊢
  generalize gridExponent (z * 2 ^ e) = t at hge ht ⊢
  rcases hle.lt_or_eq with hlt | rfl
  · rw [shiftToTargetExponent_of_lt hlt ht]
    dsimp only
    by_cases hzero : n = 0
    · rw [dif_pos hzero, hzero, Nat.cast_zero, zero_mul, mul_zero]
      exact represents_zero sign
    · rw [dif_neg hzero]
      refine ⟨rfl, ⟨hlt, ht, hge⟩, ?_⟩
      rw [unpackedValue, apply_natCast, mul_assoc]
  · rw [shiftToTargetExponent_two_pow ht]
    dsimp only
    rw [dif_neg (by decide)]
    refine ⟨rfl, ⟨by decide, by omega, .inl le_rfl⟩, ?_⟩
    rw [unpackedValue, apply_natCast, zpow_add_one₀ two_ne_zero]
    push_cast
    ring

/-! ### Packing and unpacking -/

theorem unpackSign_packComponents {spec : Format} {sign : UnpackedFloat.Sign}
    {exponent : BitVec spec.exponentBits} {mantissa : BitVec spec.mantissaBitsWithoutImplicit} :
    UnpackedFloat.Sign.ofBitVec (UnpackedFloat.unpackSign
      (UnpackedFloat.packComponents spec sign exponent mantissa)) = sign := by
  have hbits : UnpackedFloat.unpackSign (UnpackedFloat.packComponents spec sign exponent mantissa) =
      sign.toBitVec := by
    refine BitVec.eq_of_getLsbD_eq fun i hi ↦ ?_
    obtain rfl : i = 0 := Nat.lt_one_iff.1 hi
    simp [UnpackedFloat.unpackSign, UnpackedFloat.packComponents, BitVec.getLsbD_append,
      BitVec.getElem_append]
  rw [hbits]
  cases sign <;> rfl

theorem canonical_unpack (x : Float) : Canonical x.toModel.unpack := by
  let b : BitVec Format.binary64.numBits := x.toModel.toBits.toBitVec
  change Canonical (UnpackedFloat.unpack Format.binary64 b)
  rw [UnpackedFloat.unpack]
  have hmantissa : (UnpackedFloat.unpackMantissa b).toNat < 2 ^ 52 :=
    (UnpackedFloat.unpackMantissa b).isLt
  by_cases hones : UnpackedFloat.unpackExponent b = -1#_
  · rw [if_pos hones]
    split <;> exact trivial
  rw [if_neg hones]
  by_cases hzeros : UnpackedFloat.unpackExponent b = 0#_
  · rw [if_pos hzeros]
    split
    · exact trivial
    · rw [hzeros]
      exact ⟨hmantissa.trans (by decide), le_rfl, .inr rfl⟩
  · rw [if_neg hzeros]
    have hpos : 0 < (UnpackedFloat.unpackExponent b).toNat := by
      rw [BitVec.toNat_pos, BitVec.pos_iff_ne_zero]
      exact hzeros
    have hfull : (1#1 ++ UnpackedFloat.unpackMantissa b).toNat =
        2 ^ 52 + (UnpackedFloat.unpackMantissa b).toNat := toNat_implicit _
    refine ⟨?_, ?_, .inl ?_⟩
    · rw [hfull]
      omega
    · change -1074 ≤ ((UnpackedFloat.unpackExponent b).toNat : ℤ) - 1075
      omega
    · rw [hfull]
      omega

/-- The exponents and mantissas of doubles give no larger numbers. -/
theorem abs_apply_mul_zpow_lt (s : UnpackedFloat.Sign) {m : ℕ} {e : ℤ} (hm : m < 2 ^ 53)
    (he : e ≤ 971) : |((s.apply m : ℤ) : ℚ) * 2 ^ e| < 2 ^ 1024 := by
  have hsign : |((s.apply 1 : ℤ) : ℚ)| = 1 := by
    rcases apply_eq_one_or s with h | h <;> rw [h] <;> norm_num
  rw [apply_natCast, abs_mul, abs_mul, hsign, one_mul, Nat.abs_cast, abs_of_pos (two_zpow_pos e)]
  calc (m : ℚ) * 2 ^ e < 2 ^ 53 * 2 ^ e :=
        mul_lt_mul_of_pos_right (by exact_mod_cast hm) (two_zpow_pos e)
    _ ≤ 2 ^ 53 * 2 ^ (971 : ℤ) :=
        mul_le_mul_of_nonneg_left (zpow_le_zpow_right₀ one_le_two he) (by norm_num)
    _ = 2 ^ 1024 := by
        rw [← zpow_natCast, ← zpow_natCast, ← zpow_add₀ two_ne_zero]
        norm_num

/-- **Finite doubles are bounded.** -/
theorem abs_unpackedValue_lt (x : Float) : |unpackedValue x.toModel.unpack| < 2 ^ 1024 := by
  let b : BitVec Format.binary64.numBits := x.toModel.toBits.toBitVec
  change |unpackedValue (UnpackedFloat.unpack Format.binary64 b)| < 2 ^ 1024
  have hzero : |unpackedValue .notANumber| < 2 ^ 1024 := by
    show |(0 : ℚ)| < 2 ^ 1024
    rw [abs_zero]
    positivity
  have hmantissa : (UnpackedFloat.unpackMantissa b).toNat < 2 ^ 52 :=
    (UnpackedFloat.unpackMantissa b).isLt
  rw [UnpackedFloat.unpack]
  by_cases hones : UnpackedFloat.unpackExponent b = -1#_
  · rw [if_pos hones]
    split <;> exact hzero
  rw [if_neg hones]
  have hexponent : (UnpackedFloat.unpackExponent b).toNat < 2047 := by
    have hlt : (UnpackedFloat.unpackExponent b).toNat < 2048 :=
      (UnpackedFloat.unpackExponent b).isLt
    have hne : (UnpackedFloat.unpackExponent b).toNat ≠ 2047 := fun h ↦
      hones (BitVec.eq_of_toNat_eq h)
    omega
  by_cases hzeros : UnpackedFloat.unpackExponent b = 0#_
  · rw [if_pos hzeros]
    split
    · exact hzero
    · rw [hzeros]
      exact abs_apply_mul_zpow_lt _ (hmantissa.trans (by decide)) (by decide)
  · have hfull : (1#1 ++ UnpackedFloat.unpackMantissa b).toNat =
        2 ^ 52 + (UnpackedFloat.unpackMantissa b).toNat := toNat_implicit _
    have he : ((UnpackedFloat.unpackExponent b).toNat : ℤ) - 1075 ≤ 971 := by omega
    rw [if_neg hzeros]
    exact abs_apply_mul_zpow_lt _ (by rw [hfull]; omega) he

theorem HasValue.abs_lt {x : Float} {v : ℚ} (hx : HasValue x v) : |v| < 2 ^ 1024 :=
  hx.value_eq ▸ abs_unpackedValue_lt x

/-- Every finite double has a value. -/
theorem exists_hasValue {x : Float} (h : x.isFinite = true) : ∃ v, HasValue x v :=
  ⟨unpackedValue x.toModel.unpack, h, canonical_unpack x, rfl⟩

/-- The exponents of doubles are bounded. -/
theorem exponent_le {sign : UnpackedFloat.Sign} {m : ℕ} {e : ℤ} {hpos : 0 < m}
    (hu : Canonical (.finite sign m e hpos))
    (hlt : |unpackedValue (.finite sign m e hpos)| < 2 ^ 1024) : e ≤ 971 := by
  obtain ⟨-, -, hm | rfl⟩ := hu
  · have habs : |unpackedValue (.finite sign m e hpos)| = m * 2 ^ e := by
      have hsign : |((sign.apply m : ℤ) : ℚ)| = m := by
        cases sign with
        | negative =>
          show |((-(m : ℤ) : ℤ) : ℚ)| = m
          rw [Int.cast_neg, abs_neg, Int.cast_natCast, Nat.abs_cast]
        | positive =>
          show |((m : ℤ) : ℚ)| = m
          rw [Int.cast_natCast, Nat.abs_cast]
      rw [unpackedValue, abs_mul, hsign, abs_of_pos (two_zpow_pos e)]
    have hle : (2 : ℚ) ^ (52 + e) ≤ m * 2 ^ e := by
      rw [zpow_add₀ two_ne_zero]
      refine mul_le_mul_of_nonneg_right ?_ (two_zpow_pos e).le
      exact_mod_cast hm
    rw [habs] at hlt
    have hexponent : (52 + e : ℤ) < 1024 := by
      have htop : (2 : ℚ) ^ (52 + e) < 2 ^ (1024 : ℤ) := by
        refine hle.trans_lt ?_
        exact_mod_cast hlt
      exact (zpow_lt_zpow_iff_right₀ one_lt_two).1 htop
    omega
  · decide

section Components

variable (sign : UnpackedFloat.Sign) {exponent : BitVec 11} (mantissa : BitVec 52)

theorem unpack_packComponents_of_normal (hones : exponent ≠ -1#11) (hzeros : exponent ≠ 0#11) :
    ∃ hpos, UnpackedFloat.unpack Format.binary64
      (UnpackedFloat.packComponents Format.binary64 sign exponent mantissa) =
        .finite sign (2 ^ 52 + mantissa.toNat) (exponent.toNat - 1075) hpos := by
  have hfull : (1#1 ++ mantissa).toNat = 2 ^ 52 + mantissa.toNat := toNat_implicit mantissa
  refine ⟨by omega, ?_⟩
  simp only [UnpackedFloat.unpack, UnpackedFloat.unpackMantissa_packComponents,
    UnpackedFloat.unpackExponent_packComponents, unpackSign_packComponents]
  rw [if_neg hones, if_neg hzeros]
  simp only [hfull]
  rfl

variable {mantissa} in
theorem unpack_packComponents_of_subnormal (hmantissa : mantissa ≠ 0#52) :
    ∃ hpos, UnpackedFloat.unpack Format.binary64
      (UnpackedFloat.packComponents Format.binary64 sign 0#11 mantissa) =
        .finite sign mantissa.toNat (-1074) hpos := by
  refine ⟨(BitVec.toNat_pos _).2 ((BitVec.pos_iff_ne_zero _).2 hmantissa), ?_⟩
  simp only [UnpackedFloat.unpack, UnpackedFloat.unpackMantissa_packComponents,
    UnpackedFloat.unpackExponent_packComponents, unpackSign_packComponents]
  rw [if_neg (by decide), if_pos trivial, dif_neg hmantissa]
  rfl

end Components

/-- Exponents that are too large are packed as an infinity, and small mantissas as subnormal. -/
theorem pack_finite (sign : UnpackedFloat.Sign) {m biased : ℕ} {e : ℤ} (hpos : 0 < m)
    (hbiased : biased = (e + 1023 + 52).toNat) :
    UnpackedFloat.pack Format.binary64 (.finite sign m e hpos) =
      if 2 ^ 11 ≤ biased + 1 then UnpackedFloat.packedInfinity Format.binary64 sign
      else if m.log2 + 1 = 53 then
        UnpackedFloat.packComponents Format.binary64 sign (.ofNat 11 biased) (.ofNat 52 m)
      else UnpackedFloat.packComponents Format.binary64 sign 0#11 (.ofNat 52 m) := by
  rw [hbiased]
  rfl

/-- **What is packed is unpacked again**, if it is in canonical form and not too large. -/
theorem unpack_pack {u : UnpackedFloat} (hu : Canonical u) (hlt : |unpackedValue u| < 2 ^ 1024) :
    (Float.Model.pack u).unpack = u := by
  change UnpackedFloat.unpack Format.binary64 (UnpackedFloat.pack Format.binary64 u) = u
  cases u with
  | notANumber => rfl
  | infinity sign => cases sign <;> rfl
  | zero sign => cases sign <;> rfl
  | finite sign m e hpos =>
    have hle := exponent_le hu hlt
    obtain ⟨hm, he, hnormal⟩ := hu
    obtain ⟨biased, hbiased⟩ : ∃ biased : ℕ, biased = (e + 1023 + 52).toNat := ⟨_, rfl⟩
    have hfits : ¬2 ^ 11 ≤ biased + 1 := by omega
    rw [pack_finite sign hpos hbiased, if_neg hfits]
    by_cases hlarge : 2 ^ 52 ≤ m
    · have hlog : m.log2 + 1 = 53 := by
        have hlower : 52 ≤ m.log2 := (Nat.le_log2 hpos.ne').2 hlarge
        have hupper : m.log2 < 53 := (Nat.log2_lt hpos.ne').2 hm
        omega
      have hexponent : (BitVec.ofNat 11 biased).toNat = biased := by
        rw [BitVec.toNat_ofNat, Nat.mod_eq_of_lt (by omega)]
      have hzeros : BitVec.ofNat 11 biased ≠ 0#11 := by
        intro h
        have hzero := congrArg BitVec.toNat h
        rw [hexponent, BitVec.toNat_zero] at hzero
        omega
      have hmantissa : 2 ^ 52 + (BitVec.ofNat 52 m).toNat = m := by
        rw [BitVec.toNat_ofNat]
        omega
      obtain ⟨_, hunpack⟩ := unpack_packComponents_of_normal sign (.ofNat 52 m)
        (ofNat_ne_ones (by omega)) hzeros
      rw [if_pos hlog, hunpack, UnpackedFloat.finite.injEq]
      exact ⟨rfl, hmantissa, by omega⟩
    · have hlog : ¬m.log2 + 1 = 53 := by
        have hupper : m.log2 < 52 := (Nat.log2_lt hpos.ne').2 (not_le.1 hlarge)
        omega
      have hmantissa : (BitVec.ofNat 52 m).toNat = m := by
        rw [BitVec.toNat_ofNat, Nat.mod_eq_of_lt (not_le.1 hlarge)]
      have hne : BitVec.ofNat 52 m ≠ 0#52 := by
        intro h
        have hzero := congrArg BitVec.toNat h
        rw [hmantissa, BitVec.toNat_zero] at hzero
        omega
      obtain ⟨_, hunpack⟩ := unpack_packComponents_of_subnormal sign hne
      rw [if_neg hlog, hunpack, UnpackedFloat.finite.injEq]
      exact ⟨rfl, hmantissa, (hnormal.resolve_left hlarge).symm⟩

theorem hasValue_pack {u : UnpackedFloat} {v : ℚ} (hu : Represents u v) (hlt : |v| < 2 ^ 1024) :
    HasValue (Float.ofModel (Float.Model.pack u)) v := by
  have hunpack : (Float.Model.pack u).unpack = u :=
    unpack_pack hu.canonical (by rwa [hu.value_eq])
  change Represents (Float.Model.pack u).unpack v
  rwa [hunpack]

end Reckoner.Double
