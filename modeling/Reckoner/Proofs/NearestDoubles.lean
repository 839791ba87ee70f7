import Mathlib
import Reckoner.Decimal.Double

/-!
# The double nearest to a rational

A rational number `v` is rounded to a multiple of a power of two, `2 ^ gridExponent v`, such that 53
binary digits remain, but no finer than to a multiple of `2 ^ -1074`; of two equally near multiples the
even one is taken. This is the double nearest to `v`, as far as `v` is not beyond all doubles
(`nearestDouble`). Nothing here is about bits.

No double is nearer (`abs_nearestDouble_sub_le`). What is used of rounding is where it changes from one
multiple to the next: half way between them (`le_halfEven`, `halfEven_lt`).
-/

namespace Reckoner

/-! ### The nearest whole number -/

/-- The whole number nearest to a rational, the even one of two that are equally near. -/
def halfEven (z : ℚ) : ℤ :=
  if Int.fract z < 1 / 2 ∨ (Int.fract z = 1 / 2 ∧ Even ⌊z⌋) then ⌊z⌋ else ⌊z⌋ + 1

variable {z w : ℚ} {n : ℤ}

theorem floor_le_halfEven (z : ℚ) : ⌊z⌋ ≤ halfEven z := by
  rw [halfEven]
  split
  · exact le_rfl
  · exact (lt_add_one _).le

theorem halfEven_le_floor_add_one (z : ℚ) : halfEven z ≤ ⌊z⌋ + 1 := by
  rw [halfEven]
  split
  · exact (lt_add_one _).le
  · exact le_rfl

@[simp] theorem halfEven_intCast (n : ℤ) : halfEven n = n := by
  rw [halfEven, Int.fract_intCast, Int.floor_intCast, if_pos (.inl (by norm_num))]

/-- In the middle it is rounded to what is even. -/
theorem halfEven_add_half (m : ℕ) : halfEven (m + 1 / 2) = (m + m % 2 : ℕ) := by
  have hfloor : ⌊(m : ℚ) + 1 / 2⌋ = m := by
    rw [Int.floor_eq_iff, Int.cast_natCast]
    constructor <;> linarith
  have hfract : Int.fract ((m : ℚ) + 1 / 2) = 1 / 2 := by
    rw [Int.fract, hfloor, Int.cast_natCast, add_sub_cancel_left]
  rw [halfEven, hfract, hfloor]
  rcases Nat.even_or_odd m with heven | hodd
  · rw [if_pos (.inr ⟨rfl, (Int.even_coe_nat m).2 heven⟩), Nat.even_iff.1 heven, add_zero]
  · rw [if_neg, Nat.odd_iff.1 hodd, Nat.cast_add, Nat.cast_one]
    rintro (h | ⟨-, h⟩)
    · exact absurd h (lt_irrefl _)
    · exact Nat.not_even_iff_odd.2 hodd ((Int.even_coe_nat m).1 h)

/-- Above the middle a number is rounded up. -/
theorem le_halfEven (h : (n : ℚ) - 1 / 2 < z) : n ≤ halfEven z := by
  by_cases hn : n ≤ ⌊z⌋
  · exact hn.trans (floor_le_halfEven z)
  · have hfloor : ⌊z⌋ = n - 1 := by
      have hlt : z < n := Int.floor_lt.1 (not_le.1 hn)
      rw [Int.floor_eq_iff]
      push_cast
      constructor <;> linarith
    have hfract : 1 / 2 < Int.fract z := by
      rw [Int.fract, hfloor]
      push_cast
      linarith
    rw [halfEven, if_neg, hfloor]
    · exact (sub_add_cancel n 1).ge
    · rintro (hlt | ⟨heq, -⟩)
      · exact absurd hfract hlt.not_gt
      · exact absurd hfract heq.not_gt

/-- Below the middle it is rounded down. -/
theorem halfEven_lt (h : z < (n : ℚ) - 1 / 2) : halfEven z < n := by
  by_cases hn : ⌊z⌋ + 1 < n
  · exact (halfEven_le_floor_add_one z).trans_lt hn
  · have hlt : ⌊z⌋ < n := Int.floor_lt.2 (by linarith)
    have hfloor : ⌊z⌋ = n - 1 := by omega
    have hfract : Int.fract z < 1 / 2 := by
      rw [Int.fract, hfloor]
      push_cast
      linarith
    rw [halfEven, if_pos (.inl hfract)]
    exact hlt

theorem halfEven_sub_half (n : ℤ) : halfEven (n - 1 / 2) = if Even n then n else n - 1 := by
  have hfloor : ⌊(n : ℚ) - 1 / 2⌋ = n - 1 := by
    rw [Int.floor_eq_iff]
    push_cast
    constructor <;> linarith
  have hfract : Int.fract ((n : ℚ) - 1 / 2) = 1 / 2 := by
    rw [Int.fract, hfloor]
    push_cast
    ring
  rw [halfEven, hfract, hfloor, sub_add_cancel]
  by_cases h : Even n
  · rw [if_pos h, if_neg]
    rintro (hlt | ⟨-, hodd⟩)
    · exact lt_irrefl _ hlt
    · exact Int.even_sub_one.1 hodd h
  · rw [if_neg h, if_pos (.inr ⟨rfl, Int.even_sub_one.2 h⟩)]

/-- **Where rounding comes to a whole number**: half way from the one below it, there only if it is
even. -/
theorem le_halfEven_iff : n ≤ halfEven z ↔ (n : ℚ) - 1 / 2 < z ∨ ((n : ℚ) - 1 / 2 = z ∧ Even n) := by
  rcases lt_trichotomy ((n : ℚ) - 1 / 2) z with h | rfl | h
  · exact iff_of_true (le_halfEven h) (.inl h)
  · rw [halfEven_sub_half]
    by_cases heven : Even n
    · rw [if_pos heven]
      exact iff_of_true le_rfl (.inr ⟨rfl, heven⟩)
    · rw [if_neg heven]
      refine iff_of_false (by omega) ?_
      rintro (hlt | ⟨-, h⟩)
      · exact lt_irrefl _ hlt
      · exact heven h
  · refine iff_of_false (halfEven_lt h).not_ge ?_
    rintro (hlt | ⟨heq, -⟩)
    · exact h.not_gt hlt
    · exact h.ne' heq

theorem halfEven_mono : Monotone halfEven := by
  intro z w h
  rcases (Int.floor_mono h).lt_or_eq with hlt | heq
  · exact (halfEven_le_floor_add_one z).trans ((Int.add_one_le_of_lt hlt).trans (floor_le_halfEven w))
  · have hfract : Int.fract z ≤ Int.fract w := by
      rw [Int.fract, Int.fract, heq]
      linarith
    rw [halfEven, halfEven, heq]
    split
    · split
      · exact le_rfl
      · exact (lt_add_one _).le
    · rename_i hz
      rw [if_neg]
      rintro (hw | ⟨hw, heven⟩)
      · exact hz (.inl (hfract.trans_lt hw))
      · rcases hfract.lt_or_eq with hlt | hsame
        · exact hz (.inl (hw ▸ hlt))
        · exact hz (.inr ⟨hsame.trans hw, heven⟩)

theorem halfEven_le (h : z ≤ n) : halfEven z ≤ n :=
  (halfEven_mono h).trans_eq (halfEven_intCast n)

theorem le_halfEven_of_le (h : n ≤ z) : n ≤ halfEven z :=
  (halfEven_intCast n).ge.trans (halfEven_mono h)

theorem halfEven_neg (z : ℚ) : halfEven (-z) = -halfEven z := by
  rcases eq_or_ne (Int.fract z) 0 with hzero | hne
  · obtain ⟨n, rfl⟩ := Int.fract_eq_zero_iff.1 hzero
    rw [← Int.cast_neg, halfEven_intCast, halfEven_intCast]
  · have hfract : Int.fract (-z) = 1 - Int.fract z := Int.fract_neg hne
    have hfloor : ⌊-z⌋ = -⌊z⌋ - 1 := by
      have hz := Int.floor_add_fract z
      have hz' := Int.floor_add_fract (-z)
      have hcast : ((⌊-z⌋ : ℤ) : ℚ) = ((-⌊z⌋ - 1 : ℤ) : ℚ) := by
        push_cast
        linarith
      exact_mod_cast hcast
    rw [halfEven, halfEven, hfract, hfloor]
    rcases lt_trichotomy (Int.fract z) (1 / 2) with hlt | heq | hgt
    · rw [if_neg, if_pos (.inl hlt), sub_add_cancel]
      rintro (h | ⟨h, -⟩) <;> linarith
    · have hparity : Even (-⌊z⌋ - 1) ↔ ¬Even ⌊z⌋ := by
        rw [Int.even_sub_one, even_neg]
      rw [heq]
      by_cases heven : Even ⌊z⌋
      · rw [if_neg, if_pos (.inr ⟨rfl, heven⟩), sub_add_cancel]
        rintro (h | ⟨-, h⟩)
        · norm_num at h
        · exact hparity.1 h heven
      · rw [if_pos (.inr ⟨by norm_num, hparity.2 heven⟩), if_neg, neg_add']
        rintro (h | ⟨-, h⟩)
        · norm_num at h
        · exact heven h
    · rw [if_pos (.inl (by linarith)), if_neg, neg_add']
      rintro (h | ⟨h, -⟩) <;> linarith

theorem abs_halfEven_sub_le_half (z : ℚ) : |halfEven z - z| ≤ 1 / 2 := by
  rw [abs_le]
  constructor
  · by_contra h
    have hlt : halfEven z + 1 ≤ halfEven z :=
      le_halfEven (by push_cast; linarith)
    omega
  · by_contra h
    exact absurd (halfEven_lt (by linarith : z < halfEven z - 1 / 2)) (lt_irrefl _)

/-- No whole number is nearer. -/
theorem abs_halfEven_sub_le (z : ℚ) (k : ℤ) : |halfEven z - z| ≤ |k - z| := by
  rcases eq_or_ne k (halfEven z) with rfl | hne
  · exact le_rfl
  · have hhalf := abs_halfEven_sub_le_half z
    have hstep : (1 : ℚ) ≤ |(k : ℚ) - halfEven z| := by
      exact_mod_cast Int.one_le_abs (sub_ne_zero.2 hne)
    have htriangle := abs_sub_le (k : ℚ) z (halfEven z)
    rw [abs_sub_comm z] at htriangle
    linarith

/-! ### The nearest double -/

/-- The exponent of the multiples to which a number is rounded. -/
def gridExponent (v : ℚ) : ℤ := max (Int.log 2 |v| - 52) (-1074)

/-- **The double nearest to a rational**, if it is not too large for a double. -/
def nearestDouble (v : ℚ) : ℚ := halfEven (v / 2 ^ gridExponent v) * 2 ^ gridExponent v

theorem gridExponent_neg (v : ℚ) : gridExponent (-v) = gridExponent v := by
  rw [gridExponent, gridExponent, abs_neg]

theorem nearestDouble_neg (v : ℚ) : nearestDouble (-v) = -nearestDouble v := by
  rw [nearestDouble, nearestDouble, gridExponent_neg, neg_div, halfEven_neg, Int.cast_neg, neg_mul]

@[simp] theorem nearestDouble_zero : nearestDouble 0 = 0 := by
  have hzero : halfEven 0 = 0 := halfEven_intCast 0
  rw [nearestDouble, zero_div, hzero, Int.cast_zero, zero_mul]

section Grid

variable {v : ℚ}

theorem two_zpow_pos (k : ℤ) : (0 : ℚ) < 2 ^ k :=
  zpow_pos two_pos k

theorem lt_two_zpow_log (v : ℚ) : |v| < 2 ^ (Int.log 2 |v| + 1) :=
  Int.lt_zpow_succ_log_self one_lt_two |v|

theorem two_zpow_log_le (h : v ≠ 0) : 2 ^ Int.log 2 |v| ≤ |v| :=
  Int.zpow_log_le_self one_lt_two (abs_pos.2 h)

/-- In multiples of its grid a number is below `2 ^ 53`. -/
theorem abs_div_grid_lt (v : ℚ) : |v| / 2 ^ gridExponent v < 2 ^ 53 := by
  have hpos := two_zpow_pos (gridExponent v)
  rw [div_lt_iff₀ hpos, ← zpow_natCast, ← zpow_add₀ two_ne_zero]
  refine (lt_two_zpow_log v).trans_le (zpow_le_zpow_right₀ one_le_two ?_)
  have hle : Int.log 2 |v| - 52 ≤ gridExponent v := le_max_left _ _
  push_cast
  omega

/-- And at least `2 ^ 52`, unless the grid is the finest one. -/
theorem le_abs_div_grid (h : v ≠ 0) (hgrid : gridExponent v ≠ -1074) :
    2 ^ 52 ≤ |v| / 2 ^ gridExponent v := by
  have hpos := two_zpow_pos (gridExponent v)
  have heq : gridExponent v = Int.log 2 |v| - 52 := by
    rw [gridExponent] at hgrid ⊢
    omega
  rw [le_div_iff₀ hpos, ← zpow_natCast, ← zpow_add₀ two_ne_zero, heq]
  refine le_trans (zpow_le_zpow_right₀ one_le_two ?_) (two_zpow_log_le h)
  push_cast
  omega

theorem div_grid_mul (v : ℚ) : v / 2 ^ gridExponent v * 2 ^ gridExponent v = v :=
  div_mul_cancel₀ v (zpow_ne_zero _ two_ne_zero)

/-- A multiple of a power of two, as far as it has 53 digits, is on its own grid. -/
theorem gridExponent_le {n t : ℤ} (hn : |n| < 2 ^ 53) (ht : -1074 ≤ t) (hne : n ≠ 0) :
    gridExponent (n * 2 ^ t) ≤ t := by
  have hlt : |(n : ℚ) * 2 ^ t| < 2 ^ (53 + t) := by
    have hcast : |(n : ℚ)| < 2 ^ (53 : ℤ) := by exact_mod_cast hn
    have hpos := two_zpow_pos t
    rw [abs_mul, abs_of_pos hpos, zpow_add₀ two_ne_zero]
    exact mul_lt_mul_of_pos_right hcast hpos
  have hpos : 0 < |(n : ℚ) * 2 ^ t| :=
    abs_pos.2 (mul_ne_zero (Int.cast_ne_zero.2 hne) (zpow_ne_zero _ two_ne_zero))
  have hlog : Int.log 2 |(n : ℚ) * 2 ^ t| < 53 + t := (Int.lt_zpow_iff_log_lt one_lt_two hpos).1 hlt
  rw [gridExponent]
  omega

/-- **A double is rounded to itself.** -/
theorem nearestDouble_eq_self {n t : ℤ} (hn : |n| < 2 ^ 53) (ht : -1074 ≤ t) :
    nearestDouble (n * 2 ^ t) = n * 2 ^ t := by
  rcases eq_or_ne n 0 with rfl | hne
  · rw [Int.cast_zero, zero_mul, nearestDouble_zero]
  · have hgrid := gridExponent_le hn ht hne
    obtain ⟨k, hk⟩ := Int.eq_ofNat_of_zero_le (sub_nonneg.2 hgrid)
    have hmultiple : (n : ℚ) * 2 ^ t / 2 ^ gridExponent (n * 2 ^ t) = ((n * 2 ^ k : ℤ) : ℚ) := by
      rw [mul_div_assoc, ← zpow_sub₀ two_ne_zero, hk]
      push_cast
      rw [zpow_natCast]
    rw [nearestDouble, hmultiple, halfEven_intCast, ← hmultiple, div_grid_mul]

theorem nearestDouble_intCast {n : ℤ} (hn : |n| < 2 ^ 53) : nearestDouble n = n := by
  have h := nearestDouble_eq_self hn (by decide : (-1074 : ℤ) ≤ 0)
  rwa [zpow_zero, mul_one] at h

theorem nearestDouble_natCast {n : ℕ} (hn : n < 2 ^ 53) : nearestDouble n = n := by
  have h := nearestDouble_intCast (n := n) (by rw [Nat.abs_cast]; exact_mod_cast hn)
  rwa [Int.cast_natCast] at h

/-- On the grid no multiple is nearer. -/
theorem abs_nearestDouble_sub_le_of_grid (v : ℚ) (k : ℤ) :
    |nearestDouble v - v| ≤ |k * 2 ^ gridExponent v - v| := by
  have hpos := two_zpow_pos (gridExponent v)
  have hscale (q : ℚ) : |q * 2 ^ gridExponent v - v| =
      |q - v / 2 ^ gridExponent v| * 2 ^ gridExponent v := by
    rw [← abs_of_pos hpos, ← abs_mul, abs_of_pos hpos, sub_mul, div_grid_mul]
  rw [nearestDouble, hscale, hscale]
  exact mul_le_mul_of_nonneg_right (abs_halfEven_sub_le _ k) hpos.le

/-- **No double is nearer.** -/
theorem abs_nearestDouble_sub_le {n t : ℤ} (hn : |n| < 2 ^ 53) (ht : -1074 ≤ t) (v : ℚ) :
    |nearestDouble v - v| ≤ |n * 2 ^ t - v| := by
  rcases eq_or_ne v 0 with rfl | hv
  · rw [nearestDouble_zero, sub_zero, abs_zero]
    exact abs_nonneg _
  rcases le_or_gt (gridExponent v) t with hgrid | hfine
  · obtain ⟨j, hj⟩ := Int.eq_ofNat_of_zero_le (sub_nonneg.2 hgrid)
    have hsame : (n : ℚ) * 2 ^ t = ((n * 2 ^ j : ℤ) : ℚ) * 2 ^ gridExponent v := by
      have hsum : t = j + gridExponent v := by omega
      rw [hsum, zpow_add₀ two_ne_zero, zpow_natCast]
      push_cast
      ring
    rw [hsame]
    exact abs_nearestDouble_sub_le_of_grid v _
  · -- A double that is off the grid is below the power of two at which the grid begins.
    have hbegin := le_abs_div_grid hv (ht.trans_lt hfine).ne'
    rw [le_div_iff₀ (two_zpow_pos _)] at hbegin
    have hbelow : |(n : ℚ) * 2 ^ t| < 2 ^ 52 * 2 ^ gridExponent v := by
      have hcast : |(n : ℚ)| < 2 ^ 53 := by exact_mod_cast hn
      rw [abs_mul, abs_of_pos (two_zpow_pos t)]
      calc |(n : ℚ)| * 2 ^ t < 2 ^ 53 * 2 ^ t := mul_lt_mul_of_pos_right hcast (two_zpow_pos t)
        _ = 2 ^ 52 * 2 ^ (t + 1) := by
            rw [zpow_add_one₀ two_ne_zero]
            ring
        _ ≤ 2 ^ 52 * 2 ^ gridExponent v :=
            mul_le_mul_of_nonneg_left (zpow_le_zpow_right₀ one_le_two hfine) (by norm_num)
    rw [abs_lt] at hbelow
    rcases lt_or_gt_of_ne hv with hneg | hpositive
    · have hnear := abs_nearestDouble_sub_le_of_grid v (-2 ^ 52)
      rw [abs_of_neg hneg] at hbegin
      rw [Int.cast_neg, Int.cast_pow, Int.cast_ofNat] at hnear
      rw [abs_of_nonneg (by linarith : 0 ≤ -2 ^ 52 * 2 ^ gridExponent v - v)] at hnear
      exact hnear.trans (le_trans (by linarith) (le_abs_self _))
    · have hnear := abs_nearestDouble_sub_le_of_grid v (2 ^ 52)
      rw [abs_of_pos hpositive] at hbegin
      rw [Int.cast_pow, Int.cast_ofNat] at hnear
      rw [abs_of_nonpos (by linarith : 2 ^ 52 * 2 ^ gridExponent v - v ≤ 0)] at hnear
      exact hnear.trans (le_trans (by linarith) (neg_le_abs _))

/-! ### Between two doubles -/

theorem gridExponent_mono {w : ℚ} (hv : 0 < v) (h : v ≤ w) : gridExponent v ≤ gridExponent w := by
  rw [gridExponent, gridExponent, abs_of_pos hv, abs_of_pos (hv.trans_le h)]
  have hlog : Int.log 2 v ≤ Int.log 2 w := Int.log_mono_right hv h
  omega

/-- **Rounding is monotone.** -/
theorem nearestDouble_mono {w : ℚ} (hv : 0 < v) (h : v ≤ w) : nearestDouble v ≤ nearestDouble w := by
  have hw : 0 < w := hv.trans_le h
  rcases (gridExponent_mono hv h).lt_or_eq with hlt | heq
  · -- The power of two at which the grid of the larger number begins lies between the two.
    have hvlt := abs_div_grid_lt v
    have hwle := le_abs_div_grid hw.ne' (ne_of_gt (lt_of_le_of_lt (le_max_right _ _) hlt))
    rw [abs_of_pos hv] at hvlt
    rw [abs_of_pos hw] at hwle
    have hbelow : halfEven (v / 2 ^ gridExponent v) ≤ 2 ^ 53 := by
      refine halfEven_le ?_
      push_cast
      exact hvlt.le
    have habove : 2 ^ 52 ≤ halfEven (w / 2 ^ gridExponent w) := by
      refine le_halfEven_of_le ?_
      push_cast
      exact hwle
    calc nearestDouble v ≤ 2 ^ 53 * 2 ^ gridExponent v := by
          refine mul_le_mul_of_nonneg_right ?_ (two_zpow_pos _).le
          exact_mod_cast hbelow
      _ = 2 ^ 52 * 2 ^ (gridExponent v + 1) := by
          rw [zpow_add_one₀ two_ne_zero]
          ring
      _ ≤ 2 ^ 52 * 2 ^ gridExponent w :=
          mul_le_mul_of_nonneg_left (zpow_le_zpow_right₀ one_le_two hlt) (by norm_num)
      _ ≤ nearestDouble w := by
          refine mul_le_mul_of_nonneg_right ?_ (two_zpow_pos _).le
          exact_mod_cast habove
  · rw [nearestDouble, nearestDouble, heq]
    refine mul_le_mul_of_nonneg_right ?_ (two_zpow_pos _).le
    exact_mod_cast halfEven_mono (div_le_div_of_nonneg_right h (two_zpow_pos _).le)

theorem nearestDouble_nonneg (h : 0 ≤ v) : 0 ≤ nearestDouble v := by
  have hpos := two_zpow_pos (gridExponent v)
  refine mul_nonneg ?_ hpos.le
  have hround : 0 ≤ halfEven (v / 2 ^ gridExponent v) := by
    refine le_halfEven_of_le ?_
    rw [Int.cast_zero]
    exact div_nonneg h hpos.le
  exact_mod_cast hround

theorem abs_nearestDouble (v : ℚ) : |nearestDouble v| = nearestDouble |v| := by
  rcases le_total 0 v with h | h
  · rw [abs_of_nonneg h, abs_of_nonneg (nearestDouble_nonneg h)]
  · have hneg := nearestDouble_nonneg (neg_nonneg.2 h)
    rw [abs_of_nonpos h, ← abs_neg, ← nearestDouble_neg, abs_of_nonneg hneg]

theorem nearestDouble_two_zpow {k : ℤ} (hk : -1074 ≤ k) : nearestDouble (2 ^ k) = 2 ^ k := by
  have hexact := nearestDouble_eq_self (n := 1) (by decide) hk
  rwa [Int.cast_one, one_mul] at hexact

/-- What is within a power of two stays within it. -/
theorem abs_nearestDouble_le {k : ℤ} (hk : -1074 ≤ k) (h : |v| ≤ 2 ^ k) :
    |nearestDouble v| ≤ 2 ^ k := by
  rcases eq_or_ne v 0 with rfl | hv
  · rwa [nearestDouble_zero]
  · rw [abs_nearestDouble, ← nearestDouble_two_zpow hk]
    exact nearestDouble_mono (abs_pos.2 hv) h

/-- So it stays below the numbers that are too large for a double. -/
theorem abs_nearestDouble_lt {k : ℕ} (hk : k < 1024) (h : |v| ≤ 2 ^ k) :
    |nearestDouble v| < 2 ^ 1024 := by
  rw [← zpow_natCast] at h
  refine (abs_nearestDouble_le (by omega) h).trans_lt ?_
  rw [zpow_natCast]
  exact pow_lt_pow_right₀ one_lt_two hk

/-- What is beyond a power of two stays beyond it. -/
theorem le_abs_nearestDouble {k : ℤ} (hk : -1074 ≤ k) (h : 2 ^ k ≤ |v|) :
    2 ^ k ≤ |nearestDouble v| := by
  rw [abs_nearestDouble]
  conv_lhs => rw [← nearestDouble_two_zpow hk]
  exact nearestDouble_mono (two_zpow_pos k) h

/-- A number is rounded up to a multiple of its grid if it is relatively close enough below it. -/
theorem le_nearestDouble {k : ℤ} (hv : 0 < v)
    (h : k * 2 ^ gridExponent v * (1 - 1 / 2 ^ 54) < v) :
    k * 2 ^ gridExponent v ≤ nearestDouble v := by
  have hpos := two_zpow_pos (gridExponent v)
  have hz : (k : ℚ) * (1 - 1 / 2 ^ 54) < v / 2 ^ gridExponent v := by
    rw [lt_div_iff₀ hpos]
    linarith
  have hlt := abs_div_grid_lt v
  rw [abs_of_pos hv] at hlt
  have hk : (k : ℚ) ≤ 2 ^ 53 := by
    have hsucc : (k : ℚ) < ((2 ^ 53 + 1 : ℤ) : ℚ) := by
      push_cast
      linarith
    exact_mod_cast Int.le_of_lt_add_one (Int.cast_lt.1 hsucc)
  have hround : k ≤ halfEven (v / 2 ^ gridExponent v) := le_halfEven (by linarith)
  rw [nearestDouble]
  exact mul_le_mul_of_nonneg_right (by exact_mod_cast hround) hpos.le

/-- It is rounded to less if it is not as close. -/
theorem nearestDouble_lt {k : ℤ} (hv : 0 < v) (hgrid : gridExponent v ≠ -1074)
    (h : v < k * 2 ^ gridExponent v * (1 - 1 / 2 ^ 53)) :
    nearestDouble v < k * 2 ^ gridExponent v := by
  have hpos := two_zpow_pos (gridExponent v)
  have hz : v / 2 ^ gridExponent v < k * (1 - 1 / 2 ^ 53) := by
    rw [div_lt_iff₀ hpos]
    linarith
  have hle := le_abs_div_grid hv.ne' hgrid
  rw [abs_of_pos hv] at hle
  have hround : halfEven (v / 2 ^ gridExponent v) < k := halfEven_lt (by linarith)
  rw [nearestDouble]
  exact mul_lt_mul_of_pos_right (by exact_mod_cast hround) hpos

end Grid

/-! ### Numbers with a given mantissa -/

section Mantissa

variable {z : ℚ} {s : ℤ}

theorem gridExponent_mul_zpow (hz : 0 < z) (h : 2 ^ 52 ≤ z ∨ s = -1074) (h' : z < 2 ^ 53)
    (hs : -1074 ≤ s) : gridExponent (z * 2 ^ s) = s := by
  have hpow (k : ℕ) : (2 : ℚ) ^ (k + s) = 2 ^ k * 2 ^ s := by
    rw [zpow_add₀ two_ne_zero, zpow_natCast]
  have hpos : 0 < z * 2 ^ s := mul_pos hz (two_zpow_pos s)
  have hupper : z * 2 ^ s < 2 ^ (53 + s) :=
    (mul_lt_mul_of_pos_right h' (two_zpow_pos s)).trans_eq (hpow 53).symm
  have hlog := (Int.lt_zpow_iff_log_lt one_lt_two hpos).1 hupper
  rw [gridExponent, abs_of_pos hpos]
  rcases h with h | rfl
  · have hlower : (2 : ℚ) ^ (52 + s) ≤ z * 2 ^ s :=
      (hpow 52).trans_le (mul_le_mul_of_nonneg_right h (two_zpow_pos s).le)
    have hlog' := (Int.zpow_le_iff_le_log one_lt_two hpos).1 hlower
    omega
  · omega

/-- Rounding is rounding to a whole number there. -/
theorem nearestDouble_mul_zpow (hz : 0 < z) (h : 2 ^ 52 ≤ z ∨ s = -1074) (h' : z < 2 ^ 53)
    (hs : -1074 ≤ s) : nearestDouble (z * 2 ^ s) = halfEven z * 2 ^ s := by
  rw [nearestDouble, gridExponent_mul_zpow hz h h' hs,
    mul_div_cancel_right₀ _ (two_zpow_pos s).ne']

/-- What is at most half a unit away from a mantissa is rounded to it, at a distance of half a unit only
if it is even. -/
theorem halfEven_eq {n : ℤ} (hlower : (n : ℚ) - 1 / 2 ≤ z) (hupper : z ≤ n + 1 / 2)
    (h : Even n ∨ ((n : ℚ) - 1 / 2 < z ∧ z < n + 1 / 2)) : halfEven z = n := by
  have hge : n ≤ halfEven z := by
    rw [le_halfEven_iff]
    rcases h with heven | ⟨hlt, -⟩
    · exact hlower.lt_or_eq.imp_right (⟨·, heven⟩)
    · exact .inl hlt
  have hlt : ¬n + 1 ≤ halfEven z := by
    rw [le_halfEven_iff]
    push_cast
    rintro (hgt | ⟨heq, hodd⟩)
    · linarith
    · rcases h with heven | ⟨-, hlt⟩
      · exact Int.even_add_one.1 hodd heven
      · linarith
  omega

/-- **The numbers that are rounded to a double**: they are at most half a unit away from it, and below a
power of two, where the gap is half as large, at most a quarter. A number at the end of this interval
belongs to it if the mantissa is even. -/
theorem nearestDouble_eq_of_near {n : ℤ} (hpos : 0 < n) (hn : n < 2 ^ 53) (hs : -1074 ≤ s)
    (hcanonical : 2 ^ 52 ≤ n ∨ s = -1074) (hlower : (n : ℚ) - 1 / 2 ≤ z) (hupper : z ≤ n + 1 / 2)
    (hends : Even n ∨ ((n : ℚ) - 1 / 2 < z ∧ z < n + 1 / 2))
    (hquarter : n = 2 ^ 52 → s ≠ -1074 → (n : ℚ) - 1 / 4 ≤ z) : nearestDouble (z * 2 ^ s) = n * 2 ^ s := by
  have hcast : (n : ℚ) + 1 ≤ 2 ^ 53 := by exact_mod_cast hn
  have hone : (1 : ℚ) ≤ n := by exact_mod_cast hpos
  have hround := halfEven_eq hlower hupper hends
  by_cases hgrid : 2 ^ 52 ≤ z ∨ s = -1074
  · rw [nearestDouble_mul_zpow (by linarith) hgrid (by linarith) hs, hround]
  · -- Only the least mantissa reaches below, and there the next finer grid begins.
    obtain ⟨hz, hs'⟩ := not_or.1 hgrid
    have hn' : 2 ^ 52 ≤ n := hcanonical.resolve_right hs'
    have hmantissa : n = 2 ^ 52 := by
      refine le_antisymm ?_ hn'
      by_contra hlt
      have hge : (2 : ℚ) ^ 52 + 1 ≤ n := by exact_mod_cast Int.add_one_le_of_lt (not_le.1 hlt)
      linarith
    have hquarter := hquarter hmantissa hs'
    have hcast' : (n : ℚ) = 2 ^ 52 := by exact_mod_cast hmantissa
    have hfiner : z * 2 ^ s = 2 * z * 2 ^ (s - 1) := by
      rw [zpow_sub_one₀ two_ne_zero]
      ring
    have hdouble : halfEven (2 * z) = 2 ^ 53 :=
      halfEven_eq (by push_cast; linarith) (by push_cast; linarith) (.inl (by decide))
    have hfine : (2 : ℚ) ^ 52 ≤ 2 * z := by linarith
    rw [hfiner, nearestDouble_mul_zpow (by linarith) (.inl hfine) (by linarith) (by omega), hdouble,
      hcast', zpow_sub_one₀ two_ne_zero]
    push_cast
    ring

end Mantissa

end Reckoner
