import Mathlib
import Reckoner.Proofs.DateShifts

/-!
# From one date to another

The difference of two dates is a number of milliseconds, divided by a thousand because durations
are kept in seconds; to move a date by it, it is multiplied by a thousand again. Both results are
rounded to doubles, and what is behind the point is dropped at the end. So a difference does not
always lead from the one date to the other: 1001 milliseconds become 1.001 seconds, and these become
1000.9999999999999 milliseconds, which is 1000 (`Date.exists_difference_short`).

What happens depends on the mantissa, as a number from 1 to 2. Below 125/64 the quotient has three
binary digits more behind the point than the milliseconds, and what is lost by rounding it comes to
less than half a unit of the last digit (`throughSeconds_of_lt`). Above it has two digits more, and
the loss is a remainder: the one nearest to zero when 64 times the mantissa, as a whole number, is
divided by 125 (`throughSeconds_of_le`). `Date.Arrives` says in terms of the milliseconds when this is
too much.
-/

namespace Reckoner

/-! ### Through seconds and back -/

/-- **A number of milliseconds, as it comes back from seconds.** -/
def throughSeconds (v : ℚ) : ℚ := nearestDouble (nearestDouble (v / 1000) * 1000)

theorem throughSeconds_neg (v : ℚ) : throughSeconds (-v) = -throughSeconds v := by
  rw [throughSeconds, neg_div, nearestDouble_neg, neg_mul, nearestDouble_neg, throughSeconds]

theorem throughSeconds_zero : throughSeconds 0 = 0 := by
  rw [throughSeconds, zero_div, nearestDouble_zero, zero_mul, nearestDouble_zero]

section Mantissa

variable {m s : ℤ}

/-- **A small mantissa comes back as it is.** -/
theorem throughSeconds_of_lt (hm : 2 ^ 52 ≤ m) (h : 64 * m < 125 * 2 ^ 52) (hs : -1000 ≤ s) :
    throughSeconds (m * 2 ^ s) = m * 2 ^ s := by
  have hlower : (2 : ℚ) ^ 52 ≤ m := by exact_mod_cast hm
  have hupper : (64 : ℚ) * m < 125 * 2 ^ 52 := by exact_mod_cast h
  have hquotient : (m * 2 ^ s / 1000 : ℚ) = 128 * m / 125 * 2 ^ (s - 10) := by
    rw [zpow_sub₀ two_ne_zero]
    norm_num
    ring
  have hnear := abs_le.1 (abs_halfEven_sub_le_half (128 * m / 125))
  -- The least mantissa is rounded up, so nothing falls below the grid.
  have hleast : 4611686018427388 ≤ halfEven (128 * m / 125) := le_halfEven (by
    norm_num
    linarith)
  have hleast' : (4611686018427388 : ℚ) ≤ halfEven (128 * m / 125) := by exact_mod_cast hleast
  rw [throughSeconds, hquotient, nearestDouble_mul_zpow (by linarith) (.inl (by linarith)) (by linarith) (by omega)]
  generalize halfEven (128 * m / 125) = k at hnear hleast'
  have hproduct : (k * 2 ^ (s - 10) * 1000 : ℚ) = 125 * k / 128 * 2 ^ s := by
    rw [zpow_sub₀ two_ne_zero]
    norm_num
    ring
  have hround : halfEven (125 * k / 128 : ℚ) = m := by
    refine le_antisymm (Int.lt_add_one_iff.1 (halfEven_lt ?_)) (le_halfEven (by linarith))
    push_cast
    linarith
  rw [hproduct, nearestDouble_mul_zpow (by linarith) (.inl (by linarith)) (by linarith) (by omega), hround]

/-- **A large mantissa comes back** without the remainder of its 64-fold by 125. -/
theorem throughSeconds_of_le (hm : m < 2 ^ 53) (h : 125 * 2 ^ 52 ≤ 64 * m) (hs : -1000 ≤ s) :
    throughSeconds (m * 2 ^ s) = halfEven (m - Int.bmod (64 * m) 125 / 64) * 2 ^ s := by
  have hlower : (125 * 2 ^ 52 : ℚ) ≤ 64 * m := by exact_mod_cast h
  have hupper : (m : ℚ) + 1 ≤ 2 ^ 53 := by exact_mod_cast hm
  have hquotient : (m * 2 ^ s / 1000 : ℚ) = 64 * m / 125 * 2 ^ (s - 9) := by
    rw [zpow_sub₀ two_ne_zero]
    norm_num
    ring
  have hc : -62 ≤ Int.bmod (64 * m) 125 := Int.le_bmod (by decide)
  have hc' : Int.bmod (64 * m) 125 < 63 := Int.bmod_lt (by decide)
  have hsplit : Int.bmod (64 * m) 125 + 125 * Int.bdiv (64 * m) 125 = 64 * m :=
    Int.bmod_add_bdiv _ _
  generalize Int.bmod (64 * m) 125 = c at hc hc' hsplit
  generalize Int.bdiv (64 * m) 125 = k at hsplit
  have hcast : (c : ℚ) + 125 * k = 64 * m := by exact_mod_cast hsplit
  have hc₁ : (-62 : ℚ) ≤ c := by exact_mod_cast hc
  have hc₂ : (c : ℚ) ≤ 62 := by exact_mod_cast Int.lt_add_one_iff.1 hc'
  have hround : halfEven (64 * m / 125 : ℚ) = k := by
    refine le_antisymm (Int.lt_add_one_iff.1 (halfEven_lt ?_)) (le_halfEven (by linarith))
    push_cast
    linarith
  have hproduct : (k * 2 ^ (s - 9) * 1000 : ℚ) = (m - c / 64) * 2 ^ s := by
    have hk : (k : ℚ) = (64 * m - c) / 125 := by linarith
    rw [hk, zpow_sub₀ two_ne_zero]
    norm_num
    ring
  rw [throughSeconds, hquotient, nearestDouble_mul_zpow (by linarith) (.inl (by linarith)) (by linarith) (by omega),
    hround, hproduct, nearestDouble_mul_zpow (by linarith) (.inl (by linarith)) (by linarith) (by omega)]

end Mantissa

/-! ### Losing some 64ths -/

section Loss

variable {m c : ℤ}

theorem abs_halfEven_sub_sixtyFourths_le (hc : |c| ≤ 62) :
    |halfEven (m - c / 64 : ℚ) - m| ≤ 1 := by
  have hbound : |(c : ℚ)| ≤ 62 := by exact_mod_cast hc
  obtain ⟨hlower, hupper⟩ := abs_le.1 hbound
  have hbelow : m - 1 ≤ halfEven (m - c / 64 : ℚ) := le_halfEven (by push_cast; linarith)
  have habove : halfEven (m - c / 64 : ℚ) < m + 2 := halfEven_lt (by push_cast; linarith)
  rw [abs_le]
  omega

/-- A whole number stays above itself if it does not lose more than a half. -/
theorem le_halfEven_sub_sixtyFourths_iff :
    m ≤ halfEven (m - c / 64 : ℚ) ↔ c < 32 ∨ (c = 32 ∧ Even m) := by
  have hlt : (m : ℚ) - 1 / 2 < m - c / 64 ↔ c < 32 := by
    rw [sub_lt_sub_iff_left, div_lt_div_iff₀ (by norm_num) two_pos]
    norm_cast
    omega
  have heq : (m : ℚ) - 1 / 2 = m - c / 64 ↔ c = 32 := by
    rw [sub_right_inj, div_eq_div_iff two_ne_zero (by norm_num)]
    norm_cast
    omega
  rw [le_halfEven_iff, hlt, heq]

/-- **It comes back as it is** if it neither loses nor gains more than a half. -/
theorem halfEven_sub_sixtyFourths_eq_iff :
    halfEven (m - c / 64 : ℚ) = m ↔ |c| < 32 ∨ (|c| = 32 ∧ Even m) := by
  have hneg : halfEven (m - c / 64 : ℚ) = -halfEven ((-m : ℤ) - (-c : ℤ) / 64 : ℚ) := by
    rw [← halfEven_neg]
    congr 1
    push_cast
    ring
  have hle : halfEven (m - c / 64 : ℚ) ≤ m ↔ -c < 32 ∨ (-c = 32 ∧ Even m) := by
    rw [hneg, neg_le, le_halfEven_sub_sixtyFourths_iff, even_neg]
  rw [le_antisymm_iff, hle, le_halfEven_sub_sixtyFourths_iff]
  grind

end Loss

/-! ### Whole milliseconds -/

section

variable {n : ℕ} {t : ℚ}

theorem towardZero_natCast_add (h : 0 ≤ t) (h' : t < 1) : towardZero (n + t) = n := by
  rw [towardZero_of_nonneg (by positivity), Int.floor_eq_iff, Int.cast_natCast]
  constructor <;> linarith

theorem towardZero_natCast_sub (hn : n ≠ 0) (h : 0 < t) (h' : t ≤ 1) :
    towardZero (n - t) = n - 1 := by
  have hone : (1 : ℚ) ≤ n := by exact_mod_cast Nat.pos_of_ne_zero hn
  rw [towardZero_of_nonneg (by linarith), Int.floor_eq_iff]
  push_cast
  constructor <;> linarith

/-- The mantissas beside that of a whole number are less than one away, if they have a digit behind
the point. -/
theorem towardZero_beside {k : ℕ} {m j : ℤ} (hn : n ≠ 0) (hk : 0 < k)
    (hmantissa : (n : ℚ) = m * 2 ^ (-k : ℤ)) (hj : |j| ≤ 1) :
    towardZero ((m + j : ℤ) * 2 ^ (-k : ℤ)) = if 0 ≤ j then (n : ℤ) else n - 1 := by
  have hpos := two_zpow_pos (-k : ℤ)
  have hstep : (2 : ℚ) ^ (-k : ℤ) ≤ 1 / 2 := by
    have hpow : (2 : ℚ) ^ (-k : ℤ) ≤ 2 ^ (-1 : ℤ) := zpow_le_zpow_right₀ one_le_two (by omega)
    exact hpow.trans_eq (by norm_num)
  rw [Int.cast_add, add_mul, ← hmantissa]
  generalize (2 : ℚ) ^ (-k : ℤ) = step at hpos hstep
  rw [abs_le] at hj
  split
  · rename_i hup
    have hup' : (0 : ℚ) ≤ j := by exact_mod_cast hup
    have hj' : (j : ℚ) ≤ 1 := by exact_mod_cast hj.2
    exact towardZero_natCast_add (by positivity) (by nlinarith)
  · obtain rfl : j = -1 := by omega
    rw [Int.cast_neg, Int.cast_one, neg_one_mul, ← sub_eq_add_neg]
    exact towardZero_natCast_sub hn hpos (by linarith)

end

namespace Date

/-- **How far a date is moved** by a difference of `n` milliseconds. -/
def reach (n : ℤ) : ℤ := towardZero (throughSeconds (nearestDouble n))

/-- What a number of milliseconds with a large mantissa loses on its way through seconds, in 64ths
of a unit of the last of 53 digits. -/
def loss (n : ℕ) : ℤ := Int.bmod (n * 2 ^ (58 - n.log2)) 125

/-- **Whether a date arrives** when it is moved by a difference of `n` milliseconds. As long as the
milliseconds have less than 53 digits, only a loss of more than half a unit matters, because what is
gained is behind the point. With 53 digits a gain matters as well, and with 54 digits the
milliseconds are rounded to an even number at the outset. -/
def Arrives (n : ℕ) : Prop :=
  if n < 2 ^ 52 then 64 * n < 125 * 2 ^ n.log2 ∨ loss n ≤ 32
  else if n < 2 ^ 53 then 64 * n < 125 * 2 ^ n.log2 ∨ |loss n| < 32 ∨ (|loss n| = 32 ∧ Even n)
  else Even n

instance (n : ℕ) : Decidable (Arrives n) :=
  inferInstanceAs (Decidable
    (if n < 2 ^ 52 then 64 * n < 125 * 2 ^ n.log2 ∨ loss n ≤ 32
    else if n < 2 ^ 53 then 64 * n < 125 * 2 ^ n.log2 ∨ |loss n| < 32 ∨ (|loss n| = 32 ∧ Even n)
    else Even n))

theorem reach_neg (n : ℤ) : reach (-n) = -reach n := by
  rw [reach, Int.cast_neg, nearestDouble_neg, throughSeconds_neg, towardZero_neg, reach]

section

variable {n : ℕ}

theorem reach_natCast (h : n < 2 ^ 53) : reach n = towardZero (throughSeconds n) := by
  have hexact : nearestDouble (n : ℤ) = (n : ℤ) := nearestDouble_intCast (abs_lt.2 (by omega))
  rw [reach, hexact, Int.cast_natCast]

/-- Numbers of at most 53 digits have a mantissa. -/
theorem exists_mantissa (hn : n ≠ 0) (h : n < 2 ^ 53) :
    ∃ (k : ℕ) (m : ℤ), n.log2 + k = 52 ∧ m = n * 2 ^ k ∧ (n : ℚ) = m * 2 ^ (-k : ℤ) ∧
      2 ^ 52 ≤ m ∧ m < 2 ^ 53 := by
  have hlog : n.log2 < 53 := (Nat.log2_lt hn).2 h
  obtain ⟨k, hk⟩ := Nat.exists_eq_add_of_le (Nat.le_of_lt_succ hlog)
  have hlower : 2 ^ 52 ≤ n * 2 ^ k := by
    rw [hk, pow_add]
    exact Nat.mul_le_mul_right _ (Nat.log2_self_le hn)
  have hupper : n * 2 ^ k < 2 ^ 53 := by
    have hsucc : 53 = n.log2 + 1 + k := by omega
    rw [hsucc, pow_add]
    exact Nat.mul_lt_mul_of_pos_right Nat.lt_log2_self (Nat.two_pow_pos k)
  refine ⟨k, n * 2 ^ k, hk.symm, rfl, ?_, by exact_mod_cast hlower, by exact_mod_cast hupper⟩
  rw [Int.cast_mul, Int.cast_pow, Int.cast_ofNat, Int.cast_natCast, mul_assoc, ← zpow_natCast,
    ← zpow_add₀ two_ne_zero, add_neg_cancel, zpow_zero, mul_one]

/-- With a small mantissa a date arrives. -/
theorem reach_of_lt (h : n < 2 ^ 53) (hsmall : 64 * n < 125 * 2 ^ n.log2) : reach n = n := by
  rw [reach_natCast h]
  rcases eq_or_ne n 0 with rfl | hn
  · rw [Nat.cast_zero, throughSeconds_zero]
    exact towardZero_intCast 0
  obtain ⟨k, m, hk, rfl, hmantissa, hlower, -⟩ := exists_mantissa hn h
  have hupper : 64 * (n * 2 ^ k) < 125 * 2 ^ 52 := by
    rw [← hk, pow_add, ← mul_assoc, ← mul_assoc]
    exact Nat.mul_lt_mul_of_pos_right hsmall (Nat.two_pow_pos k)
  rw [hmantissa, throughSeconds_of_lt hlower (by exact_mod_cast hupper) (by omega), ← hmantissa,
    ← Int.cast_natCast, towardZero_intCast]

/-- With a large mantissa the loss decides. -/
theorem throughSeconds_natCast {m : ℤ} {k : ℕ} (hn : n ≠ 0) (h : n < 2 ^ 53)
    (hk : n.log2 + k = 52) (hm : m = n * 2 ^ k) (hlarge : 125 * 2 ^ n.log2 ≤ 64 * n) :
    throughSeconds n = halfEven (m - loss n / 64) * 2 ^ (-k : ℤ) := by
  obtain ⟨k', m', hk', hm', hmantissa, -, hupper⟩ := exists_mantissa hn h
  obtain rfl : k = k' := by omega
  obtain rfl : m = m' := hm.trans hm'.symm
  have hlower : 125 * 2 ^ 52 ≤ 64 * (n * 2 ^ k) := by
    rw [← hk, pow_add, ← mul_assoc, ← mul_assoc]
    exact Nat.mul_le_mul_right _ hlarge
  have hloss : loss n = Int.bmod (64 * m) 125 := by
    have hexponent : 58 - n.log2 = k + 6 := by omega
    rw [loss, hexponent, pow_add, hm]
    congr 1
    ring
  rw [hmantissa, throughSeconds_of_le hupper (hm ▸ by exact_mod_cast hlower) (by omega), hloss]

theorem abs_loss_le (n : ℕ) : |loss n| ≤ 62 := by
  have hlower : -62 ≤ loss n := Int.le_bmod (by decide)
  have hupper : loss n < 63 := Int.bmod_lt (by decide)
  rw [abs_le]
  omega

/-- With less than 53 digits a date arrives, or it lacks a millisecond. -/
theorem reach_of_lt_two_pow (h : n < 2 ^ 52) (hlarge : 125 * 2 ^ n.log2 ≤ 64 * n) :
    reach n = if loss n ≤ 32 then (n : ℤ) else n - 1 := by
  have hn : n ≠ 0 := by
    rintro rfl
    exact absurd hlarge (by decide)
  have hlog : n.log2 < 52 := (Nat.log2_lt hn).2 h
  obtain ⟨k, m, hk, hm, hmantissa, -⟩ := exists_mantissa hn (h.trans (by decide))
  have heven : Even m := by
    rw [hm]
    exact (Int.even_pow.2 ⟨even_two, by omega⟩).mul_left n
  have hnear := abs_le.1 (abs_halfEven_sub_sixtyFourths_le (m := m) (abs_loss_le n))
  have hiff := le_halfEven_sub_sixtyFourths_iff (m := m) (c := loss n)
  rw [and_iff_left heven] at hiff
  rw [reach_natCast (h.trans (by decide)),
    throughSeconds_natCast hn (h.trans (by decide)) hk hm hlarge]
  generalize halfEven (m - loss n / 64 : ℚ) = r at hnear hiff
  obtain ⟨j, rfl⟩ : ∃ j, r = m + j := ⟨r - m, by omega⟩
  rw [towardZero_beside hn (by omega) hmantissa (abs_le.2 (by omega))]
  congr 1
  exact propext (by omega)

/-- With 53 digits it may also be a millisecond too far. -/
theorem reach_of_two_pow_le (h : 2 ^ 52 ≤ n) (h' : n < 2 ^ 53)
    (hlarge : 125 * 2 ^ n.log2 ≤ 64 * n) : reach n = halfEven (n - loss n / 64) := by
  have hn : n ≠ 0 := by omega
  have hlog : 52 ≤ n.log2 := (Nat.le_log2 hn).2 h
  have hlog' : n.log2 < 53 := (Nat.log2_lt hn).2 h'
  have hm : (n : ℤ) = n * 2 ^ 0 := by rw [pow_zero, mul_one]
  rw [reach_natCast h', throughSeconds_natCast hn h' (by omega) hm hlarge, Int.cast_natCast,
    Nat.cast_zero, neg_zero, zpow_zero, mul_one, towardZero_intCast]

/-- With 54 digits it is rounded to an even number of milliseconds, and arrives there. -/
theorem reach_of_even (h : 2 ^ 53 ≤ n) (h' : n ≤ 2 * 8334601228800000) :
    reach n = 2 * halfEven (n / 2) := by
  have hlower : (2 ^ 53 : ℚ) ≤ n := by exact_mod_cast h
  have hupper : (n : ℚ) ≤ 2 * 8334601228800000 := by exact_mod_cast h'
  have hhalf : (n : ℚ) = n / 2 * 2 ^ (1 : ℤ) := by
    norm_num
  have hmantissa : 2 ^ 52 ≤ halfEven (n / 2 : ℚ) := le_halfEven_of_le (by push_cast; linarith)
  have hmantissa' : halfEven (n / 2 : ℚ) ≤ 8334601228800000 := halfEven_le (by push_cast; linarith)
  have hrounded : nearestDouble n = halfEven (n / 2 : ℚ) * 2 ^ (1 : ℤ) := by
    conv_lhs => rw [hhalf]
    exact nearestDouble_mul_zpow (by linarith) (.inl (by linarith)) (by linarith) (by decide)
  have hback := throughSeconds_of_lt (s := 1) hmantissa (by omega) (by decide)
  have hcast : (halfEven (n / 2 : ℚ) * 2 ^ (1 : ℤ) : ℚ) = ((2 * halfEven (n / 2 : ℚ) : ℤ) : ℚ) := by
    push_cast
    ring
  rw [reach, Int.cast_natCast, hrounded, hback, hcast, towardZero_intCast]

/-- A date is at most one millisecond away from where the difference leads. -/
theorem abs_reach_natCast_sub_le (h : n ≤ 2 * 8334601228800000) : |reach n - n| ≤ 1 := by
  rcases lt_or_ge n (2 ^ 53) with hbits | hbits
  · rcases lt_or_ge (64 * n) (125 * 2 ^ n.log2) with hsmall | hlarge
    · rw [reach_of_lt hbits hsmall, sub_self, abs_zero]
      exact zero_le_one
    rcases lt_or_ge n (2 ^ 52) with hfew | hmany
    · rw [reach_of_lt_two_pow hfew hlarge, abs_le]
      omega
    · rw [reach_of_two_pow_le hmany hbits hlarge]
      exact_mod_cast abs_halfEven_sub_sixtyFourths_le (m := n) (abs_loss_le n)
  · have hnear := abs_le.1 (abs_halfEven_sub_le_half (n / 2))
    have hnear' : |((2 * halfEven (n / 2) - n : ℤ) : ℚ)| ≤ 1 := by
      push_cast
      rw [abs_le]
      constructor <;> linarith
    rw [reach_of_even hbits h]
    exact_mod_cast hnear'

theorem reach_natCast_eq_iff (h : n ≤ 2 * 8334601228800000) : reach n = n ↔ Arrives n := by
  rw [Arrives]
  rcases lt_or_ge n (2 ^ 53) with hbits | hbits
  · rcases lt_or_ge (64 * n) (125 * 2 ^ n.log2) with hsmall | hlarge
    · refine iff_of_true (reach_of_lt hbits hsmall) ?_
      split <;> exact .inl hsmall
    rcases lt_or_ge n (2 ^ 52) with hfew | hmany
    · rw [reach_of_lt_two_pow hfew hlarge, if_pos hfew, or_iff_right hlarge.not_gt]
      omega
    · have hround := halfEven_sub_sixtyFourths_eq_iff (m := n) (c := loss n)
      rw [Int.cast_natCast, Int.even_coe_nat] at hround
      rw [reach_of_two_pow_le hmany hbits hlarge, if_neg hmany.not_gt, if_pos hbits,
        or_iff_right hlarge.not_gt, hround]
  · rw [if_neg (by omega), if_neg hbits.not_gt, reach_of_even hbits h]
    constructor
    · intro heq
      exact (Int.even_coe_nat n).1 (heq ▸ even_two_mul _)
    · rintro ⟨k, rfl⟩
      have hhalf : ((k + k : ℕ) : ℚ) / 2 = (k : ℤ) := by
        push_cast
        ring
      rw [hhalf, halfEven_intCast]
      push_cast
      ring

/-- Whole eighths of a second lose nothing. -/
theorem arrives_of_dvd (h : n < 2 ^ 53) (hdvd : 125 ∣ n) : Arrives n := by
  have hloss : loss n = 0 := by
    obtain ⟨k, rfl⟩ := hdvd
    rw [loss, Nat.cast_mul, mul_assoc]
    exact Int.mul_bmod_right _ _
  rw [Arrives, hloss]
  split
  · exact .inr (by decide)
  · exact .inr (.inl (by decide))

/-- With less than 53 digits no date is moved too far. -/
theorem reach_natCast_mem (h : n < 2 ^ 52) : 0 ≤ reach n ∧ reach n ≤ n := by
  rcases lt_or_ge (64 * n) (125 * 2 ^ n.log2) with hsmall | hlarge
  · rw [reach_of_lt (h.trans (by decide)) hsmall]
    omega
  · rw [reach_of_lt_two_pow h hlarge]
    have hpos := Nat.two_pow_pos n.log2
    split <;> omega

end

section

variable {n : ℤ}

theorem abs_reach_sub_le (h : n.natAbs ≤ 2 * 8334601228800000) : |reach n - n| ≤ 1 := by
  obtain ⟨k, rfl | rfl⟩ := Int.eq_nat_or_neg n
  · exact abs_reach_natCast_sub_le h
  · rw [Int.natAbs_neg] at h
    rw [reach_neg, neg_sub_neg, abs_sub_comm]
    exact abs_reach_natCast_sub_le h

/-- **When a date arrives.** -/
theorem reach_eq_iff (h : n.natAbs ≤ 2 * 8334601228800000) : reach n = n ↔ Arrives n.natAbs := by
  obtain ⟨k, rfl | rfl⟩ := Int.eq_nat_or_neg n
  · exact reach_natCast_eq_iff h
  · rw [Int.natAbs_neg] at h ⊢
    rw [reach_neg, neg_inj]
    exact reach_natCast_eq_iff h

example : ¬Arrives 1001 := by decide

theorem reach_between (h : n.natAbs < 2 ^ 52) : min 0 n ≤ reach n ∧ reach n ≤ max 0 n := by
  obtain ⟨k, rfl | rfl⟩ := Int.eq_nat_or_neg n
  · rw [Int.natAbs_natCast] at h
    have hmem := reach_natCast_mem h
    omega
  · rw [Int.natAbs_neg, Int.natAbs_natCast] at h
    have hmem := reach_natCast_mem h
    rw [reach_neg]
    omega

end

/-! ### Dates -/

open Rules Double

/-- A number of milliseconds in seconds moves dates as far as it reaches. -/
theorem moves_reach {n : ℤ} (hn : |(n : ℚ)| ≤ 2 ^ 60) :
    Moves (Quantity.ofValue (Scalar.ofInt n / Scalar.ofDecimal ⟨1000, 0⟩ : Float)
      (.single seconds)).base (reach n) := by
  have hproduct : |nearestDouble (nearestDouble n / 1000) * 1000| ≤ 2 ^ 70 := by
    have hseconds := abs_nearestDouble_le (by decide) (abs_seconds_le hn)
    rw [abs_mul, abs_of_pos (by norm_num : (0 : ℚ) < 1000)]
    calc |nearestDouble (nearestDouble n / 1000)| * 1000 ≤ 2 ^ (60 : ℤ) * 1000 :=
          mul_le_mul_of_nonneg_right hseconds (by norm_num)
      _ ≤ 2 ^ 70 := by norm_num
  exact ⟨_, hasValue_mul (hasValue_base_seconds hn) hasValue_thousand
    (abs_nearestDouble_lt (by decide) hproduct), rfl⟩

section

variable {d e : Date} {q : Quantity Float} {n : ℤ}

/-- A duration that moves dates by `n` milliseconds leads `n` milliseconds further. -/
theorem apply_add_eq_ok_iff (limits : Limits) (hq : q.dimension = .base .time)
    (hn : Moves q.base n) (v : Value Float) :
    (Engine.standard limits).rules.apply .add (.date e) (.quantity q) = .ok v ↔
      ∃ f : Date, v = .date f ∧ f.millis = e.millis + n := by
  have hmillis := moves_iff.1 hn
  rw [Engine.standard_eq, Engine.rules_standardOver, apply_add_date_quantity,
    durationMillis_of_eq hq]
  refine shift_eq_ok_iff.trans ⟨?_, ?_⟩
  · rintro ⟨k, f, hk, hf, rfl⟩
    obtain rfl := Option.some.inj (hmillis.symm.trans hk)
    exact ⟨f, rfl, hf⟩
  · rintro ⟨f, rfl, hf⟩
    exact ⟨n, f, hmillis, hf, rfl⟩

/-- It fails only if there is no date. -/
theorem apply_add_eq_error_iff (limits : Limits) (hq : q.dimension = .base .time)
    (hn : Moves q.base n) (error : EvalError) :
    (Engine.standard limits).rules.apply .add (.date e) (.quantity q) = .error error ↔
      error = .dateOutOfRange ∧ (e.millis + n < firstMillis ∨ lastMillis < e.millis + n) := by
  have hmillis := moves_iff.1 hn
  rw [Engine.standard_eq, Engine.rules_standardOver, apply_add_date_quantity,
    durationMillis_of_eq hq]
  refine shift_eq_error_iff.trans (and_congr_right fun _ ↦ ?_)
  rw [hmillis, or_iff_right (by nofun)]
  constructor
  · rintro ⟨k, hk, hout⟩
    obtain rfl := Option.some.inj hk
    exact hout
  · exact fun hout ↦ ⟨n, rfl, hout⟩

/-- It leads to a date if that is where it leads. -/
theorem apply_add_eq_ok_date_iff (limits : Limits) (hq : q.dimension = .base .time)
    (hn : Moves q.base n) :
    (Engine.standard limits).rules.apply .add (.date e) (.quantity q) = .ok (.date d) ↔
      n = d.millis - e.millis := by
  rw [apply_add_eq_ok_iff limits hq hn]
  constructor
  · rintro ⟨f, hf, hmillis⟩
    obtain rfl := Value.date.inj hf
    omega
  · rintro rfl
    exact ⟨d, rfl, by omega⟩

theorem natAbs_sub_millis_le (d e : Date) :
    (d.millis - e.millis).natAbs ≤ 2 * 8334601228800000 := by
  have hd := abs_le.1 d.abs_millis_le
  have he := abs_le.1 e.abs_millis_le
  omega

end

/-- **Where the difference `q` of two dates leads** from the second one: `n` milliseconds on. -/
structure DifferenceLaws
    (apply : Operator → Value Float → Value Float → Except EvalError (Value Float)) (d e : Date)
    (q : Quantity Float) (n : ℤ) : Prop where
  difference : apply .subtract (.date d) (.date e) = .ok (.quantity q)
  units_eq : q.units = .single seconds
  sum : ∀ v, apply .add (.date e) (.quantity q) = .ok v ↔
    ∃ f : Date, v = .date f ∧ f.millis = e.millis + n
  /-- The sum only fails because it is out of range. -/
  failure : ∀ error, apply .add (.date e) (.quantity q) = .error error ↔
    error = .dateOutOfRange ∧ (e.millis + n < firstMillis ∨ lastMillis < e.millis + n)
  near : |n - (d.millis - e.millis)| ≤ 1
  /-- It does not fail if the dates are less than `2 ^ 52` milliseconds apart. -/
  succeeds : |d.millis - e.millis| < 2 ^ 52 →
    ∃ f : Date, apply .add (.date e) (.quantity q) = .ok (.date f)
  arrives : apply .add (.date e) (.quantity q) = .ok (.date d) ↔
    Arrives (d.millis - e.millis).natAbs
  eighths : 125 ∣ d.millis - e.millis → |d.millis - e.millis| < 2 ^ 53 →
    apply .add (.date e) (.quantity q) = .ok (.date d)

/-- **From one date the difference leads to the other, or a millisecond beside it**; it leads to the
other exactly if the date arrives. -/
theorem differences_arrive_iff (limits : Limits) (d e : Date) :
    ∃ q n, DifferenceLaws (Engine.standard limits).rules.apply d e q n := by
  have hbound := natAbs_sub_millis_le d e
  have hcast : |((d.millis - e.millis : ℤ) : ℚ)| ≤ 2 ^ 60 := by
    rw [← Int.cast_abs, Int.abs_eq_natAbs]
    exact_mod_cast hbound.trans (by decide)
  have hmoves := moves_reach hcast
  have harrives := apply_add_eq_ok_date_iff (d := d) (e := e) limits rfl hmoves
  rw [reach_eq_iff hbound] at harrives
  refine ⟨_, reach (d.millis - e.millis),
    { difference := apply_subtract_date limits d e
      units_eq := rfl
      sum := apply_add_eq_ok_iff limits rfl hmoves
      failure := apply_add_eq_error_iff limits rfl hmoves
      near := abs_reach_sub_le hbound
      succeeds := fun h ↦ ?_
      arrives := harrives
      eighths := fun hdvd h ↦ harrives.2 ?_ }⟩
  · obtain ⟨hlower, hupper⟩ := reach_between (n := d.millis - e.millis)
      (by rw [Int.abs_eq_natAbs] at h; omega)
    have hd := d.inRange
    have he := e.inRange
    let f : Date := ⟨e.millis + reach (d.millis - e.millis), by omega⟩
    exact ⟨f, (apply_add_eq_ok_iff limits rfl hmoves _).2 ⟨f, rfl, rfl⟩⟩
  · exact arrives_of_dvd (by rw [Int.abs_eq_natAbs] at h; omega) (Int.natCast_dvd.1 hdvd)

/-- A difference of 1001 milliseconds leads to the date a millisecond before. -/
theorem exists_difference_short :
    let d : Date := ⟨1704123001001, by decide⟩
    let e : Date := ⟨1704123000000, by decide⟩
    let apply := (Engine.standard {}).rules.apply
    ∃ (q : Quantity Float) (f : Date), apply .subtract (.date d) (.date e) = .ok (.quantity q) ∧
      q.units = .single seconds ∧ apply .add (.date e) (.quantity q) = .ok (.date f) ∧
      f.millis = d.millis - 1 := by
  intro d e apply
  have hreach : reach (1001 : ℕ) = 1000 := reach_of_lt_two_pow (by decide) (by decide)
  have hmoves := moves_reach (n := (1001 : ℕ)) (by norm_num)
  rw [hreach] at hmoves
  let f : Date := ⟨1704123001000, by decide⟩
  exact ⟨_, f, apply_subtract_date {} d e, rfl,
    (apply_add_eq_ok_date_iff {} rfl hmoves).2 rfl, rfl⟩

end Date

end Reckoner
