import Mathlib
import Reckoner.Decimal.Shortest
import Reckoner.Proofs.ExactArithmetic
import Reckoner.Proofs.NearestDoubles

/-!
# The shortest decimal of a double

The decimal that is written for a double is rounded to this double (`Decimal.nearestDouble_shortest`),
and no shorter one is (`Decimal.length_shortest_le`).

What is rounded to a double are the numbers of an interval around it (`Near.nearestDouble_eq`,
`near_of_nearestDouble_eq`). Whether a point of a grid lies in the interval is tested in whole numbers, and
the test is exact (`isInside_iff`). If any point of the grid does, then one of the double's two neighbours
on the grid does, so a grid that is passed over has none (`not_near_of_onGrid?_eq_none`). That the search
ends is a matter of sizes: a grid of seventeen digits is so fine that the gap between two of its points is
shorter than the interval (`onGrid?_ne_none`).
-/

namespace Reckoner.Decimal

/-! ### The order of a number -/

theorem length_pos (n : ℕ) : 0 < length n := List.length_pos_iff.2 Nat.toDigits_ne_nil

theorem length_le_iff {n k : ℕ} (hk : 0 < k) : length n ≤ k ↔ n < 10 ^ k :=
  Nat.length_toDigits_le_iff (by decide) hk

theorem lt_ten_pow_length (n : ℕ) : n < 10 ^ length n :=
  (length_le_iff (length_pos n)).1 le_rfl

theorem ten_pow_length_le {n : ℕ} (h : n ≠ 0) : 10 ^ (length n - 1) ≤ n := by
  have hpos := length_pos n
  rcases Nat.eq_or_lt_of_le hpos with hone | hlt
  · rw [← hone]
    exact Nat.pos_of_ne_zero h
  · by_contra hsmall
    have hle := (length_le_iff (by omega)).2 (not_le.1 hsmall)
    omega

/-- The order of a decimal is the exponent of its leading digit. -/
theorem order_bounds {d : Decimal} (h : d.coefficient ≠ 0) :
    10 ^ d.order ≤ d.toRat ∧ d.toRat < 10 ^ (d.order + 1) := by
  have hpos := length_pos d.coefficient
  have hten : (0 : ℚ) < 10 ^ d.exponent := by positivity
  have hlow : d.order = (length d.coefficient - 1 : ℕ) + d.exponent := by
    rw [order]
    omega
  have hhigh : d.order + 1 = (length d.coefficient : ℕ) + d.exponent := by
    rw [order]
    omega
  constructor
  · rw [hlow, zpow_add₀ (by norm_num), zpow_natCast]
    exact mul_le_mul_of_nonneg_right (by exact_mod_cast ten_pow_length_le h) hten.le
  · rw [hhigh, zpow_add₀ (by norm_num), zpow_natCast]
    exact mul_lt_mul_of_pos_right (by exact_mod_cast lt_ten_pow_length d.coefficient) hten

/-- A number is at least ten to the power of its order. -/
theorem ten_zpow_orderOfRatio_le {num den : ℕ} (hnum : 0 < num) (hden : 0 < den) :
    (10 : ℚ) ^ orderOfRatio num den ≤ num / den := by
  have hden' : (0 : ℚ) < den := by exact_mod_cast hden
  rw [orderOfRatio]
  split
  · rename_i hle
    have hquotient : num / den ≠ 0 := (Nat.div_pos hle hden).ne'
    have hpower : 10 ^ (length (num / den) - 1) * den ≤ num :=
      (Nat.le_div_iff_mul_le hden).1 (ten_pow_length_le hquotient)
    have hlength : (length (num / den) : ℤ) - 1 = (length (num / den) - 1 : ℕ) := by
      have hpos := length_pos (num / den)
      omega
    rw [hlength, zpow_natCast, le_div_iff₀ hden']
    exact_mod_cast hpower
  · -- The order of the reciprocal, rounded up, is known.
    obtain ⟨q, hq⟩ : ∃ q, q = (den + num - 1) / num - 1 := ⟨_, rfl⟩
    rw [← hq]
    have hceil : den ≤ (q + 1) * num := by
      have hlt := Nat.lt_mul_div_succ (den + num - 1) hnum
      have hone : 1 ≤ (den + num - 1) / num := (Nat.one_le_div_iff hnum).2 (by omega)
      have hq' : (den + num - 1) / num = q + 1 := by omega
      rw [hq', mul_add_one, mul_comm] at hlt
      omega
    have hlt : q + 1 ≤ 10 ^ length q := lt_ten_pow_length q
    have hpower : den ≤ 10 ^ length q * num := hceil.trans (Nat.mul_le_mul_right num hlt)
    have hnum' : (0 : ℚ) < 10 ^ length q := by positivity
    rw [zpow_neg, zpow_natCast, inv_le_iff_one_le_mul₀ hnum', ← mul_div_right_comm, one_le_div hden',
      mul_comm]
    exact_mod_cast hpower

/-- And it is below ten times that. -/
theorem lt_ten_zpow_orderOfRatio {num den : ℕ} (hnum : 0 < num) (hden : 0 < den) :
    (num / den : ℚ) < 10 ^ (orderOfRatio num den + 1) := by
  have hden' : (0 : ℚ) < den := by exact_mod_cast hden
  rw [orderOfRatio]
  split
  · have hpower : num < 10 ^ length (num / den) * den :=
      (Nat.div_lt_iff_lt_mul hden).1 (lt_ten_pow_length _)
    rw [sub_add_cancel, zpow_natCast, div_lt_iff₀ hden']
    exact_mod_cast hpower
  · rename_i hlt
    obtain ⟨q, hq⟩ : ∃ q, q = (den + num - 1) / num - 1 := ⟨_, rfl⟩
    rw [← hq]
    have htwo : 2 ≤ (den + num - 1) / num := (Nat.le_div_iff_mul_le hnum).2 (by omega)
    have hceil : q * num < den := by
      have hle := Nat.div_mul_le_self (den + num - 1) num
      have hq' : (den + num - 1) / num = q + 1 := by omega
      rw [hq', add_one_mul] at hle
      omega
    have hpower : 10 ^ (length q - 1) * num < den :=
      (Nat.mul_le_mul_right num (ten_pow_length_le (by omega))).trans_lt hceil
    have hexponent : -(length q : ℤ) + 1 = -((length q - 1 : ℕ) : ℤ) := by
      have hpos := length_pos q
      omega
    rw [hexponent, zpow_neg, zpow_natCast, div_lt_iff₀ hden', lt_inv_mul_iff₀ (by positivity)]
    exact_mod_cast hpower

/-! ### The interval around a double -/

/-- A number lies in the interval around the double `m * 2 ^ e`, whose ends belong to it if the mantissa
is even. -/
def Near (m : ℕ) (e : ℤ) (w : ℚ) : Prop :=
  if m % 2 = 0 then
    (nearestBounds m e).1 * 2 ^ (e - 2) ≤ w ∧ w ≤ (nearestBounds m e).2 * 2 ^ (e - 2)
  else (nearestBounds m e).1 * 2 ^ (e - 2) < w ∧ w < (nearestBounds m e).2 * 2 ^ (e - 2)

section Interval

variable {m : ℕ} {e : ℤ} {a b w z : ℚ}

/-- How far the interval reaches below its double, in units of the last place. -/
def reachBelow (m : ℕ) (e : ℤ) : ℚ := if m = 2 ^ 52 ∧ e ≠ -1074 then 1 / 4 else 1 / 2

theorem near_mul_zpow_iff (hm : 0 < m) : Near m e (z * 2 ^ e) ↔
    if m % 2 = 0 then m - reachBelow m e ≤ z ∧ z ≤ m + 1 / 2
    else m - reachBelow m e < z ∧ z < m + 1 / 2 := by
  have hpos := two_zpow_pos e
  have hlower : ((nearestBounds m e).1 : ℚ) * 2 ^ (e - 2) = (m - reachBelow m e) * 2 ^ e := by
    have hbound : ((nearestBounds m e).1 : ℚ) = 4 * (m - reachBelow m e) := by
      rw [nearestBounds]
      split
      · rename_i hpower
        rw [reachBelow, if_pos (show m = 2 ^ 52 ∧ e ≠ -1074 from hpower), Nat.cast_sub (by omega)]
        push_cast
        ring
      · rename_i hpower
        rw [reachBelow, if_neg (show ¬(m = 2 ^ 52 ∧ e ≠ -1074) from hpower), Nat.cast_sub (by omega)]
        push_cast
        ring
    rw [hbound, zpow_sub₀ two_ne_zero]
    ring
  have hupper : ((nearestBounds m e).2 : ℚ) * 2 ^ (e - 2) = (m + 1 / 2) * 2 ^ e := by
    rw [nearestBounds, zpow_sub₀ two_ne_zero]
    push_cast
    ring
  rw [Near, hlower, hupper, mul_le_mul_iff_left₀ hpos, mul_le_mul_iff_left₀ hpos,
    mul_lt_mul_iff_left₀ hpos, mul_lt_mul_iff_left₀ hpos]

/-- **What is near to a double is rounded to it.** -/
theorem Near.nearestDouble_eq (h : Near m e w) (hm : 0 < m) (hlt : m < 2 ^ 53) (he : -1074 ≤ e)
    (hcanonical : 2 ^ 52 ≤ m ∨ e = -1074) : nearestDouble w = m * 2 ^ e := by
  obtain ⟨z, rfl⟩ : ∃ z, w = z * 2 ^ e := ⟨w / 2 ^ e, (div_mul_cancel₀ w (two_zpow_pos e).ne').symm⟩
  rw [near_mul_zpow_iff hm] at h
  have hreach : reachBelow m e ≤ 1 / 2 := by
    rw [reachBelow]
    split <;> norm_num
  have hends : (m : ℚ) - reachBelow m e ≤ z ∧ z ≤ m + 1 / 2 ∧
      (Even (m : ℤ) ∨ ((m : ℚ) - 1 / 2 < z ∧ z < m + 1 / 2)) := by
    split at h
    · rename_i heven
      exact ⟨h.1, h.2, .inl ((Int.even_coe_nat m).2 (Nat.even_iff.2 heven))⟩
    · exact ⟨h.1.le, h.2.le, .inr ⟨by linarith, h.2⟩⟩
  obtain ⟨hlow, hhigh, hends⟩ := hends
  rw [← Int.cast_natCast (R := ℚ) m] at hlow hhigh hends ⊢
  refine nearestDouble_eq_of_near (by omega) (by omega) he (by omega) (by linarith) hhigh hends ?_
  intro hpower hexponent
  rwa [reachBelow, if_pos ⟨by exact_mod_cast hpower, hexponent⟩] at hlow

/-- Each other double has the point in the middle between the two on its own side. -/
theorem middle_of_nearestDouble_eq (h : nearestDouble (z * 2 ^ e) = m * 2 ^ e) {n t : ℤ}
    (hn : -2 ^ 53 < n ∧ n < 2 ^ 53) (ht : -1074 ≤ t) {q : ℚ} (hq : (n : ℚ) * 2 ^ t = q * 2 ^ e) :
    0 ≤ (q - m) * (q + m - 2 * z) := by
  have hpos := two_zpow_pos e
  have hle := abs_nearestDouble_sub_le (abs_lt.2 hn) ht (z * 2 ^ e)
  rw [h, hq, ← sub_mul, ← sub_mul, abs_mul, abs_mul, abs_of_pos hpos, mul_le_mul_iff_left₀ hpos,
    ← sq_le_sq] at hle
  linarith

/-- So what is rounded to a double is no farther away than half of the gaps around it. -/
theorem bounds_of_nearestDouble_eq (h : nearestDouble (z * 2 ^ e) = m * 2 ^ e) (hlt : m < 2 ^ 53)
    (he : -1074 ≤ e) : m - reachBelow m e ≤ z ∧ z ≤ m + 1 / 2 := by
  constructor
  · rw [reachBelow]
    split
    · rename_i hpower
      have hcast : (m : ℚ) = 2 ^ 52 := by exact_mod_cast hpower.1
      have hbelow : 0 ≤ ((m - 1 / 2 : ℚ) - m) * (m - 1 / 2 + m - 2 * z) := by
        refine middle_of_nearestDouble_eq h (n := 2 ^ 53 - 1) (by omega) (by omega : -1074 ≤ e - 1) ?_
        rw [hcast, zpow_sub_one₀ two_ne_zero]
        push_cast
        ring
      linarith
    · have hbelow : 0 ≤ ((m - 1 : ℚ) - m) * (m - 1 + m - 2 * z) :=
        middle_of_nearestDouble_eq h (n := m - 1) (by omega) he (by push_cast; rfl)
      linarith
  · have habove : 0 ≤ ((m + 1 : ℚ) - m) * (m + 1 + m - 2 * z) := by
      by_cases hlast : m + 1 = 2 ^ 53
      · have hcast : (m : ℚ) + 1 = 2 ^ 53 := by exact_mod_cast hlast
        refine middle_of_nearestDouble_eq h (n := 2 ^ 52) (by omega) (by omega : -1074 ≤ e + 1) ?_
        rw [hcast, zpow_add_one₀ two_ne_zero]
        push_cast
        ring
      · exact middle_of_nearestDouble_eq h (n := m + 1) (by omega) he (by push_cast; rfl)
    linarith

/-- Half way between two doubles the one with the even mantissa is taken. -/
theorem ne_half_of_nearestDouble_eq (h : nearestDouble (z * 2 ^ e) = m * 2 ^ e) (hlt : m < 2 ^ 53)
    (he : -1074 ≤ e) (hcanonical : 2 ^ 52 ≤ m ∨ e = -1074) (hodd : m % 2 = 1) :
    z ≠ m - 1 / 2 ∧ z ≠ m + 1 / 2 := by
  have hround {q : ℚ} {k : ℤ} (hq : 0 < q) (hgrid : 2 ^ 52 ≤ q ∨ e = -1074) (hq' : q < 2 ^ 53)
      (hk : halfEven q = k) (hne : k ≠ m) : z ≠ q := by
    rintro rfl
    rw [nearestDouble_mul_zpow hq hgrid hq' he, hk, mul_left_inj' (two_zpow_pos e).ne'] at h
    exact hne (by exact_mod_cast h)
  have hone : (1 : ℚ) ≤ m := by exact_mod_cast (by omega : 1 ≤ m)
  have hcast : (m : ℚ) + 1 ≤ 2 ^ 53 := by exact_mod_cast hlt
  have hcanonical : (2 : ℚ) ^ 52 + 1 ≤ m ∨ e = -1074 :=
    hcanonical.imp_left fun hge ↦ by exact_mod_cast (by omega : 2 ^ 52 + 1 ≤ m)
  constructor
  · have hhalf := halfEven_sub_half m
    rw [if_neg (by rw [Int.even_coe_nat, Nat.even_iff]; omega), Int.cast_natCast] at hhalf
    exact hround (by linarith) (hcanonical.imp_left fun hge ↦ by linarith) (by linarith) hhalf (by omega)
  · have hhalf := halfEven_add_half m
    rw [hodd] at hhalf
    exact hround (by linarith) (hcanonical.imp_left fun hge ↦ by linarith) (by linarith) hhalf (by omega)

/-- **And nothing else is rounded to it.** -/
theorem near_of_nearestDouble_eq (h : nearestDouble w = m * 2 ^ e) (hm : 0 < m) (hlt : m < 2 ^ 53)
    (he : -1074 ≤ e) (hcanonical : 2 ^ 52 ≤ m ∨ e = -1074) : Near m e w := by
  obtain ⟨z, rfl⟩ : ∃ z, w = z * 2 ^ e := ⟨w / 2 ^ e, (div_mul_cancel₀ w (two_zpow_pos e).ne').symm⟩
  obtain ⟨hlow, hhigh⟩ := bounds_of_nearestDouble_eq h hlt he
  rw [near_mul_zpow_iff hm]
  split
  · exact ⟨hlow, hhigh⟩
  · rename_i hodd
    obtain ⟨hne, hne'⟩ := ne_half_of_nearestDouble_eq h hlt he hcanonical (Nat.mod_two_ne_zero.1 hodd)
    have hreach : reachBelow m e = 1 / 2 := by
      rw [reachBelow, if_neg]
      rintro ⟨rfl, -⟩
      exact hodd (by norm_num)
    rw [hreach] at hlow ⊢
    exact ⟨hlow.lt_of_ne' hne, hhigh.lt_of_ne hne'⟩

/-- What lies between two numbers of the interval lies in it. -/
theorem Near.between (ha : Near m e a) (hb : Near m e b) (haw : a ≤ w) (hwb : w ≤ b) : Near m e w := by
  unfold Near at *
  split at ha
  · rename_i heven
    rw [if_pos heven] at hb ⊢
    exact ⟨ha.1.trans haw, hwb.trans hb.2⟩
  · rename_i hodd
    rw [if_neg hodd] at hb ⊢
    exact ⟨ha.1.trans_le haw, hwb.trans_lt hb.2⟩

theorem near_self (hm : 0 < m) (e : ℤ) : Near m e (m * 2 ^ e) := by
  have hreach : 0 < reachBelow m e := by
    rw [reachBelow]
    split <;> norm_num
  rw [near_mul_zpow_iff hm]
  split
  · exact ⟨by linarith, by linarith⟩
  · exact ⟨by linarith, by linarith⟩

/-- What is near to a double is at most twice as large, and at least half as large. -/
theorem Near.le_two_mul (h : Near m e w) (hm : 0 < m) :
    w ≤ 2 * (m * 2 ^ e) ∧ (m * 2 ^ e : ℚ) ≤ 2 * w := by
  have hpos := two_zpow_pos e
  obtain ⟨z, rfl⟩ : ∃ z, w = z * 2 ^ e := ⟨w / 2 ^ e, (div_mul_cancel₀ w hpos.ne').symm⟩
  have hone : (1 : ℚ) ≤ m := by exact_mod_cast hm
  have hreach : reachBelow m e ≤ 1 / 2 := by
    rw [reachBelow]
    split <;> norm_num
  have hbounds : z ≤ 2 * m ∧ m ≤ 2 * z := by
    rw [near_mul_zpow_iff hm] at h
    split at h
    · exact ⟨by linarith, by linarith⟩
    · exact ⟨by linarith, by linarith⟩
  rw [← mul_assoc, ← mul_assoc, mul_le_mul_iff_left₀ hpos, mul_le_mul_iff_left₀ hpos]
  exact hbounds

end Interval

/-! ### Points of a grid -/

section Grid

variable {m : ℕ} {e g : ℤ}

/-- The multiples of ten and two that are compared are those of the numbers, up to a common factor. -/
theorem exists_scale (e g : ℤ) : ∃ scale : ℚ, 0 < scale ∧
    ((Nat.pow 10 g.toNat * Nat.pow 2 (2 - e).toNat : ℕ) : ℚ) = 10 ^ g * scale ∧
    ((Nat.pow 10 (-g).toNat * Nat.pow 2 (e - 2).toNat : ℕ) : ℚ) = 2 ^ (e - 2) * scale := by
  have hten : (10 : ℚ) ^ g.toNat = 10 ^ g * 10 ^ (-g).toNat := by
    rw [← zpow_natCast, ← zpow_natCast, ← zpow_add₀ (by norm_num)]
    congr 1
    omega
  have htwo : (2 : ℚ) ^ (e - 2).toNat = 2 ^ (e - 2) * 2 ^ (2 - e).toNat := by
    rw [← zpow_natCast, ← zpow_natCast, ← zpow_add₀ two_ne_zero]
    congr 1
    omega
  refine ⟨10 ^ (-g).toNat * 2 ^ (2 - e).toNat, by positivity, ?_, ?_⟩
  · simp only [Nat.pow_eq]
    push_cast
    rw [hten, mul_assoc]
  · simp only [Nat.pow_eq]
    push_cast
    rw [htwo, mul_left_comm]

/-- Whether a multiple of ten is inside the interval, tested on whole numbers. -/
def isInside (m : ℕ) (e g : ℤ) (n : ℕ) : Bool :=
  let twos := Nat.pow 10 (-g).toNat * Nat.pow 2 (e - 2).toNat
  if m % 2 = 0 then
    decide ((nearestBounds m e).1 * twos ≤ n) && decide (n ≤ (nearestBounds m e).2 * twos)
  else decide ((nearestBounds m e).1 * twos < n) && decide (n < (nearestBounds m e).2 * twos)

/-- The test is exact. -/
theorem isInside_iff (n : ℕ) :
    isInside m e g (n * (Nat.pow 10 g.toNat * Nat.pow 2 (2 - e).toNat)) = true ↔
      Near m e (n * 10 ^ g) := by
  obtain ⟨scale, hscale, htens, htwos⟩ := exists_scale e g
  rw [isInside, Near]
  generalize Nat.pow 10 g.toNat * Nat.pow 2 (2 - e).toNat = tens at htens ⊢
  generalize Nat.pow 10 (-g).toNat * Nat.pow 2 (e - 2).toNat = twos at htwos ⊢
  have hle (a b : ℕ) : a * twos ≤ b * tens ↔ (a : ℚ) * 2 ^ (e - 2) ≤ b * 10 ^ g := by
    rw [← mul_le_mul_iff_left₀ hscale, mul_assoc, mul_assoc, ← htens, ← htwos]
    exact_mod_cast Iff.rfl
  have hle' (a b : ℕ) : b * tens ≤ a * twos ↔ (b : ℚ) * 10 ^ g ≤ a * 2 ^ (e - 2) := by
    rw [← mul_le_mul_iff_left₀ hscale, mul_assoc, mul_assoc, ← htens, ← htwos]
    exact_mod_cast Iff.rfl
  split
  · rw [Bool.and_eq_true, decide_eq_true_iff, decide_eq_true_iff, hle, hle']
  · rw [Bool.and_eq_true, decide_eq_true_iff, decide_eq_true_iff, ← not_le, ← not_le, hle, hle',
      not_le, not_le]

/-- The neighbour of a double below it on a grid. -/
def gridFloor (m : ℕ) (e g : ℤ) : ℕ :=
  4 * m * (Nat.pow 10 (-g).toNat * Nat.pow 2 (e - 2).toNat) /
    (Nat.pow 10 g.toNat * Nat.pow 2 (2 - e).toNat)

theorem gridFloor_bounds (m : ℕ) (e g : ℤ) : (gridFloor m e g * 10 ^ g : ℚ) ≤ m * 2 ^ e ∧
    (m * 2 ^ e : ℚ) < (gridFloor m e g + 1 : ℕ) * 10 ^ g := by
  obtain ⟨scale, hscale, htens, htwos⟩ := exists_scale e g
  let tens := Nat.pow 10 g.toNat * Nat.pow 2 (2 - e).toNat
  let value := 4 * m * (Nat.pow 10 (-g).toNat * Nat.pow 2 (e - 2).toNat)
  have hpos : 0 < tens := by
    have hcast : (0 : ℚ) < tens := htens.symm ▸ mul_pos (by positivity) hscale
    exact_mod_cast hcast
  have hvalue : (value : ℚ) = m * 2 ^ e * scale := by
    rw [Nat.cast_mul, htwos, zpow_sub₀ two_ne_zero]
    push_cast
    ring
  have hle : gridFloor m e g * tens ≤ value := Nat.div_mul_le_self _ _
  have hlt : value < (gridFloor m e g + 1) * tens := by
    rw [add_one_mul]
    exact Nat.lt_div_mul_add hpos
  constructor
  · rw [← mul_le_mul_iff_left₀ hscale, ← hvalue, mul_assoc, ← htens]
    exact_mod_cast hle
  · rw [← mul_lt_mul_iff_left₀ hscale, ← hvalue, mul_assoc, ← htens]
    exact_mod_cast hlt

/-- What is found on a grid is a neighbour of the double that is near to it, and nothing is found only if
neither neighbour is near. -/
theorem onGrid?_cases (m : ℕ) (e g : ℤ) :
    (∃ c, (c = gridFloor m e g ∨ c = gridFloor m e g + 1) ∧ onGrid? m e g = some ⟨c, g⟩ ∧
      Near m e (c * 10 ^ g)) ∨
    onGrid? m e g = none ∧ ¬Near m e (gridFloor m e g * 10 ^ g) ∧
      ¬Near m e ((gridFloor m e g + 1 : ℕ) * 10 ^ g) := by
  have hbelow := isInside_iff (m := m) (e := e) (g := g) (gridFloor m e g)
  have habove := isInside_iff (m := m) (e := e) (g := g) (gridFloor m e g + 1)
  unfold onGrid?
  dsimp only
  split
  · rename_i hb ha
    exact .inr ⟨rfl, mt hbelow.2 (Bool.eq_false_iff.1 hb), mt habove.2 (Bool.eq_false_iff.1 ha)⟩
  · rename_i hb _
    exact .inl ⟨_, .inl rfl, rfl, hbelow.1 hb⟩
  · rename_i _ ha
    exact .inl ⟨_, .inr rfl, rfl, habove.1 ha⟩
  · rename_i hb ha
    left
    split
    · exact ⟨_, .inl rfl, rfl, hbelow.1 hb⟩
    · exact ⟨_, .inr rfl, rfl, habove.1 ha⟩

/-- What is found is near, and it is less than one point of the grid above the double. -/
theorem onGrid?_eq_some {d : Decimal} (h : onGrid? m e g = some d) :
    ∃ c : ℕ, d = ⟨c, g⟩ ∧ Near m e (c * 10 ^ g) ∧ (c - 1 : ℚ) * 10 ^ g ≤ m * 2 ^ e := by
  obtain ⟨c, hc, hfound, hnear⟩ | ⟨hnone, -, -⟩ := onGrid?_cases m e g
  · have hle : (c - 1 : ℚ) ≤ gridFloor m e g := by
      rcases hc with rfl | rfl
      · exact (sub_one_lt _).le
      · exact (by push_cast; linarith)
    exact ⟨c, Option.some.inj (h.symm.trans hfound), hnear,
      (mul_le_mul_of_nonneg_right hle (by positivity)).trans (gridFloor_bounds m e g).1⟩
  · rw [hnone] at h
    contradiction

/-- If nothing is found, then nothing on the grid is near. -/
theorem not_near_of_onGrid?_eq_none (hm : 0 < m) (h : onGrid? m e g = none) (c : ℕ) :
    ¬Near m e (c * 10 ^ g) := by
  obtain ⟨c', -, hfound, -⟩ | ⟨-, hbelow, habove⟩ := onGrid?_cases m e g
  · rw [hfound] at h
    contradiction
  intro hnear
  have hself := near_self hm e
  obtain ⟨hle, hlt⟩ := gridFloor_bounds m e g
  have hgrid {a b : ℕ} (hab : a ≤ b) : (a * 10 ^ g : ℚ) ≤ b * 10 ^ g :=
    mul_le_mul_of_nonneg_right (by exact_mod_cast hab) (by positivity)
  rcases Nat.lt_or_ge (gridFloor m e g) c with hc | hc
  · exact habove (hself.between hnear hlt.le (hgrid hc))
  · exact hbelow (hnear.between hself (hgrid hc) hle)

/-- The interval is wider than the double divided by ten to the power of sixteen. -/
theorem lt_width (hm : 0 < m) (hlt : m < 2 ^ 53) (e : ℤ) :
    (4 * m : ℚ) < 10 ^ 16 * ((nearestBounds m e).2 - (nearestBounds m e).1) := by
  rw [nearestBounds]
  split
  · rename_i hpower
    obtain rfl : m = 2 ^ 52 := hpower.1
    norm_num
  · have hcast : (m : ℚ) < 2 ^ 53 := by exact_mod_cast hlt
    rw [Nat.cast_sub (by omega)]
    push_cast
    linarith

/-- **A grid that is fine enough has a point near to the double.** -/
theorem onGrid?_ne_none (hm : 0 < m) (hlt : m < 2 ^ 53) (hg : (10 : ℚ) ^ 16 * 10 ^ g ≤ m * 2 ^ e) :
    onGrid? m e g ≠ none := by
  intro hnone
  have hbelow := not_near_of_onGrid?_eq_none hm hnone (gridFloor m e g)
  have habove := not_near_of_onGrid?_eq_none hm hnone (gridFloor m e g + 1)
  obtain ⟨hle, hgt⟩ := gridFloor_bounds m e g
  have hunit := two_zpow_pos (e - 2)
  have hvalue : (m : ℚ) * 2 ^ e = 4 * m * 2 ^ (e - 2) := by
    rw [zpow_sub₀ two_ne_zero]
    ring
  have hwidth := mul_lt_mul_of_pos_right (lt_width hm hlt e) hunit
  have hlower : ((nearestBounds m e).1 : ℚ) * 2 ^ (e - 2) ≤ 4 * m * 2 ^ (e - 2) :=
    mul_le_mul_of_nonneg_right (by exact_mod_cast Nat.sub_le _ _) hunit.le
  have hupper : (4 * m * 2 ^ (e - 2) : ℚ) < (nearestBounds m e).2 * 2 ^ (e - 2) :=
    mul_lt_mul_of_pos_right (by exact_mod_cast Nat.lt_add_of_pos_right two_pos) hunit
  rw [hvalue] at hle hgt hg
  rw [Near] at hbelow habove
  -- Neither neighbour is inside, so the whole interval lies between them.
  have houtside : (gridFloor m e g * 10 ^ g : ℚ) ≤ (nearestBounds m e).1 * 2 ^ (e - 2) ∧
      ((nearestBounds m e).2 * 2 ^ (e - 2) : ℚ) ≤ (gridFloor m e g + 1 : ℕ) * 10 ^ g := by
    split at hbelow
    · rename_i heven
      rw [if_pos heven] at habove
      constructor
      · by_contra h
        exact hbelow ⟨(not_le.1 h).le, (hle.trans_lt hupper).le⟩
      · by_contra h
        exact habove ⟨hlower.trans hgt.le, (not_le.1 h).le⟩
    · rename_i hodd
      rw [if_neg hodd] at habove
      constructor
      · by_contra h
        exact hbelow ⟨not_le.1 h, hle.trans_lt hupper⟩
      · by_contra h
        exact habove ⟨hlower.trans_lt hgt, not_le.1 h⟩
  rw [Nat.cast_add_one, add_one_mul] at houtside
  linarith

end Grid

/-! ### The shortest decimal -/

theorem toRat_trim (d : Decimal) : d.trim.toRat = d.toRat := by
  rw [trim]
  split
  · rename_i h
    have hten : (d.coefficient : ℚ) = (d.coefficient / 10 : ℕ) * 10 := by
      exact_mod_cast (Nat.div_mul_cancel (Nat.dvd_of_mod_eq_zero h.2)).symm
    rw [toRat, toRat, zpow_add_one₀ (by norm_num), hten]
    push_cast
    ring
  · rfl

section Shortest

variable {m : ℕ} {e : ℤ}

/-- What the search comes to: from the order of the double on, the first grid with a point near to it
gives the shortest decimal. -/
structure Found (m : ℕ) (e order : ℤ) (n c : ℕ) : Prop where
  order_le : (10 : ℚ) ^ order ≤ m * 2 ^ e
  lt_order : (m * 2 ^ e : ℚ) < 10 ^ (order + 1)
  shortest_eq : shortest m e = trim ⟨c, order - n⟩
  near : Near m e (c * 10 ^ (order - n))
  le_above : (c - 1 : ℚ) * 10 ^ (order - n) ≤ m * 2 ^ e
  first : ∀ j < n, ∀ c' : ℕ, ¬Near m e (c' * 10 ^ (order - j))

theorem exists_first {α : Type} {f : ℕ → Option α} {k : ℕ} {a : α}
    (h : (List.range k).findSome? f = some a) : ∃ n < k, f n = some a ∧ ∀ j < n, f j = none := by
  induction k with
  | zero => contradiction
  | succ k ih =>
    rw [List.range_succ, List.findSome?_append, Option.or_eq_some_iff] at h
    rcases h with h | ⟨hnone, h⟩
    · obtain ⟨n, hn, hfirst⟩ := ih h
      exact ⟨n, hn.trans k.lt_succ_self, hfirst⟩
    · rw [List.findSome?_singleton] at h
      exact ⟨k, k.lt_succ_self, h, fun j hj ↦ List.findSome?_eq_none_iff.1 hnone j (List.mem_range.2 hj)⟩

/-- **The search finds something.** -/
theorem exists_found (hm : 0 < m) (hlt : m < 2 ^ 53) (e : ℤ) : ∃ order n c, Found m e order n c := by
  obtain ⟨order, horder⟩ : ∃ order,
    order = orderOfRatio (m * Nat.pow 2 e.toNat) (Nat.pow 2 (-e).toNat) := ⟨_, rfl⟩
  have hratio : ((m * Nat.pow 2 e.toNat : ℕ) : ℚ) / (Nat.pow 2 (-e).toNat : ℕ) = m * 2 ^ e := by
    have htwo : (2 : ℚ) ^ e.toNat = 2 ^ e * 2 ^ (-e).toNat := by
      rw [← zpow_natCast, ← zpow_natCast, ← zpow_add₀ two_ne_zero]
      congr 1
      omega
    simp only [Nat.pow_eq]
    push_cast
    rw [htwo, ← mul_assoc, mul_div_cancel_right₀ _ (by positivity)]
  have hnum : 0 < m * Nat.pow 2 e.toNat := Nat.mul_pos hm (Nat.two_pow_pos _)
  have hle := ten_zpow_orderOfRatio_le hnum (Nat.two_pow_pos (-e).toNat)
  have hgt := lt_ten_zpow_orderOfRatio hnum (Nat.two_pow_pos (-e).toNat)
  rw [← Nat.pow_eq, hratio, ← horder] at hle hgt
  have hshortest : shortest m e = trim (((List.range 17).findSome? fun n ↦
      onGrid? m e (order - (n : ℕ))).getD ⟨m, e⟩) := by
    rw [shortest, horder]
  cases hfound : (List.range 17).findSome? fun n ↦ onGrid? m e (order - (n : ℕ)) with
  | none =>
    -- The last of the grids would have something.
    have hlast : (10 : ℚ) ^ 16 * 10 ^ (order - (16 : ℕ)) ≤ m * 2 ^ e := by
      rw [zpow_sub₀ (by norm_num), zpow_natCast, mul_div_cancel₀ _ (by norm_num)]
      exact hle
    exact absurd (List.findSome?_eq_none_iff.1 hfound 16 (by decide)) (onGrid?_ne_none hm hlt hlast)
  | some d =>
    obtain ⟨n, -, hd, hfirst⟩ := exists_first hfound
    obtain ⟨c, rfl, hnear, habove⟩ := onGrid?_eq_some hd
    rw [hfound, Option.getD_some] at hshortest
    exact ⟨order, n, c, hle, hgt, hshortest, hnear, habove,
      fun j hj ↦ not_near_of_onGrid?_eq_none hm (hfirst j hj)⟩

/-- The shortest decimal lies in the interval around its double. -/
theorem near_shortest (hm : 0 < m) (hlt : m < 2 ^ 53) : Near m e (shortest m e).toRat := by
  obtain ⟨order, n, c, hfound⟩ := exists_found hm hlt e
  rw [hfound.shortest_eq, toRat_trim]
  exact hfound.near

theorem coefficient_shortest_ne_zero (hm : 0 < m) (hlt : m < 2 ^ 53) : (shortest m e).coefficient ≠ 0 := by
  intro hzero
  have hnear := near_shortest (e := e) hm hlt
  have hlower : 0 < (nearestBounds m e).1 := by
    rw [nearestBounds]
    split <;> omega
  have hpos : (0 : ℚ) < (nearestBounds m e).1 * 2 ^ (e - 2) :=
    mul_pos (Nat.cast_pos.2 hlower) (two_zpow_pos _)
  rw [toRat, hzero, Nat.cast_zero, zero_mul, Near] at hnear
  split at hnear
  · exact hpos.not_ge hnear.1
  · exact hpos.not_gt hnear.1

/-- **The shortest decimal is rounded to its double.** -/
theorem nearestDouble_shortest (hm : 0 < m) (hlt : m < 2 ^ 53) (he : -1074 ≤ e)
    (hcanonical : 2 ^ 52 ≤ m ∨ e = -1074) : nearestDouble (shortest m e).toRat = m * 2 ^ e :=
  (near_shortest hm hlt).nearestDouble_eq hm hlt he hcanonical

/-! Shortness -/

namespace Found

variable {order : ℤ} {n c : ℕ} {d : Decimal}

/-- There are as many digits as grids have been searched, or fewer. -/
theorem length_le (h : Found m e order n c) : length (shortest m e).coefficient ≤ n + 1 := by
  have hle : c ≤ 10 ^ (n + 1) := by
    have hsplit : (10 : ℚ) ^ (order + 1) = 10 ^ (n + 1) * 10 ^ (order - n) := by
      rw [← zpow_natCast, ← zpow_add₀ (by norm_num)]
      congr 1
      push_cast
      ring
    have hlt := h.le_above.trans_lt h.lt_order
    rw [hsplit, mul_lt_mul_iff_left₀ (by positivity), sub_lt_iff_lt_add] at hlt
    exact Nat.le_of_lt_succ (by exact_mod_cast hlt)
  rw [h.shortest_eq, length_le_iff n.succ_pos, trim]
  split
  · rename_i hdrop
    exact (Nat.div_lt_self (Nat.pos_of_ne_zero hdrop.1) (by decide)).trans_le hle
  · rename_i hkept
    refine hle.lt_of_ne fun heq ↦ hkept ?_
    simp only [heq, pow_succ]
    exact ⟨by positivity, Nat.mul_mod_left _ _⟩

theorem le_exponent (h : Found m e order n c) : order - n ≤ (shortest m e).exponent := by
  rw [h.shortest_eq, trim]
  split
  · exact (lt_add_one (order - n : ℤ)).le
  · exact le_rfl

/-- Unless the first grid has had something, a decimal near to the double has the same order, and it has
more digits than grids have been passed over, since otherwise it would be a point of one of them. -/
theorem cases_of_near (h : Found m e order n c) (hm : 0 < m) (hd : d.coefficient ≠ 0)
    (hnear : Near m e d.toRat) : n = 0 ∨ d.order = order ∧ n < length d.coefficient := by
  refine or_iff_not_imp_left.2 fun hn ↦ ?_
  have hself := near_self hm e
  have hfirst := h.first 0 (Nat.pos_of_ne_zero hn)
  rw [Nat.cast_zero, sub_zero] at hfirst
  obtain ⟨hle, hgt⟩ := order_bounds hd
  have hmono {j k : ℤ} (hjk : j ≤ k) : (10 : ℚ) ^ j ≤ 10 ^ k := zpow_le_zpow_right₀ (by norm_num) hjk
  have horder : d.order = order := by
    rcases lt_trichotomy d.order order with hlt | heq | hlt
    · refine absurd (hnear.between hself ?_ h.order_le) (by simpa using hfirst 1)
      exact hgt.le.trans (hmono (by omega))
    · exact heq
    · refine absurd (hself.between hnear h.lt_order.le ((hmono (by omega)).trans hle)) ?_
      rw [zpow_add_one₀ (by norm_num), mul_comm]
      exact_mod_cast hfirst 10
  refine ⟨horder, ?_⟩
  by_contra hlength
  have hpos := length_pos d.coefficient
  refine h.first (length d.coefficient - 1) (by omega) d.coefficient ?_
  have hexponent : order - (length d.coefficient - 1 : ℕ) = d.exponent := by
    rw [← horder, Decimal.order]
    omega
  rwa [hexponent]

end Found

/-! The shortest decimal and others -/

section

variable {d : Decimal} (hm : 0 < m) (hlt : m < 2 ^ 53) (he : -1074 ≤ e)
  (hcanonical : 2 ^ 52 ≤ m ∨ e = -1074) (hd : nearestDouble d.toRat = m * 2 ^ e)

include hm hd in
theorem coefficient_ne_zero_of_nearestDouble_eq : d.coefficient ≠ 0 := by
  intro hzero
  rw [toRat, hzero, Nat.cast_zero, zero_mul, nearestDouble_zero] at hd
  exact (mul_pos (Nat.cast_pos.2 hm) (two_zpow_pos e)).ne hd

include hm hlt he hcanonical hd

/-- **No decimal that is rounded to the double is shorter.** -/
theorem length_shortest_le : length (shortest m e).coefficient ≤ length d.coefficient := by
  obtain ⟨order, n, c, hfound⟩ := exists_found hm hlt e
  have hlength := hfound.length_le
  have hpos := length_pos d.coefficient
  have hne := coefficient_ne_zero_of_nearestDouble_eq hm hd
  have hnear := near_of_nearestDouble_eq hd hm hlt he hcanonical
  obtain rfl | ⟨-, hn⟩ := hfound.cases_of_near hm hne hnear
  · exact hlength.trans hpos
  · exact hlength.trans hn

/-- Its order differs by one at most, -/
theorem order_shortest_le : (shortest m e).order ≤ d.order + 1 := by
  have hne := coefficient_ne_zero_of_nearestDouble_eq hm hd
  have hnear := near_of_nearestDouble_eq hd hm hlt he hcanonical
  have hle := (near_shortest (e := e) hm hlt).le_two_mul hm
  have hle' := hnear.le_two_mul hm
  have hlow := (order_bounds (coefficient_shortest_ne_zero (e := e) hm hlt)).1
  have hhigh := (order_bounds hne).2
  have hten : (10 : ℚ) ^ (d.order + 2) = 10 * 10 ^ (d.order + 1) := by
    rw [← zpow_one_add₀ (by norm_num)]
    congr 1
    ring
  have hlt' : (10 : ℚ) ^ (shortest m e).order < 10 ^ (d.order + 2) := by
    linarith
  have horder := (zpow_lt_zpow_iff_right₀ (by norm_num : (1 : ℚ) < 10)).1 hlt'
  omega

/-- and it has at most one place more behind the point. -/
theorem exponent_le_shortest : d.exponent ≤ (shortest m e).exponent + 1 := by
  obtain ⟨order, n, c, hfound⟩ := exists_found hm hlt e
  have hexponent := hfound.le_exponent
  have hpos := length_pos d.coefficient
  have hne := coefficient_ne_zero_of_nearestDouble_eq hm hd
  have hnear := near_of_nearestDouble_eq hd hm hlt he hcanonical
  have hlength : d.exponent = d.order + 1 - length d.coefficient := by
    rw [Decimal.order]
    omega
  obtain rfl | ⟨horder, hn⟩ := hfound.cases_of_near hm hne hnear
  · have hle := (hnear.le_two_mul hm).1
    have hten : (10 : ℚ) ^ (order + 2) = 10 * 10 ^ (order + 1) := by
      rw [← zpow_one_add₀ (by norm_num)]
      congr 1
      ring
    have hlt' : (10 : ℚ) ^ d.order < 10 ^ (order + 2) := by
      have hlow := (order_bounds hne).1
      have hhigh := hfound.lt_order
      have htwo : (0 : ℚ) < 10 ^ (order + 1) := by positivity
      linarith
    have horder := (zpow_lt_zpow_iff_right₀ (by norm_num : (1 : ℚ) < 10)).1 hlt'
    omega
  · omega

end

end Shortest

end Reckoner.Decimal
