import Mathlib
import Reckoner.Json.Number
import Reckoner.Proofs.DoubleArithmetic
import Reckoner.Proofs.JsonText
import Reckoner.Proofs.ShortestDecimals

/-!
# Doubles in JSON

Numerals that are written for doubles can be read (`Json.Numeral.wellFormed_of_ofFloat?`). They are read in
the arithmetic of doubles, though, and may be rounded twice, so not every double is read back from its
numeral. Those that come from decimals of up to fifteen digits with small exponents are
(`Double.isReadBack_toFloat`).

The reason is that their digits are a whole number that is a double, and the power of ten that it is
divided by is a double as well. So the quotient is the only thing that is rounded, and it is the shortest
decimal of the double.
-/

namespace Reckoner

/-! ### Written numerals -/

namespace Decimal

/-- Without need no number begins with a zero. -/
theorem head?_digitsOf {n : ℕ} (hn : n ≠ 0) : '0' ∉ (digitsOf n).head? := by
  induction n using Nat.strong_induction_on with
  | _ n ih =>
    rw [digitsOf]
    rcases Nat.lt_or_ge n 10 with hlt | hge
    · rw [Nat.toDigits_of_lt_base hlt]
      interval_cases n <;> first | contradiction | decide
    · have hquotient : n / 10 ≠ 0 := by omega
      rw [Nat.toDigits_of_base_le (by decide) hge, List.head?_append_of_ne_nil _ Nat.toDigits_ne_nil]
      exact ih (n / 10) (by omega) hquotient

end Decimal

namespace Json.Numeral

theorem wellFormed_ofDecimal {d : Decimal} (h : d.coefficient ≠ 0) (negative : Bool) :
    (ofDecimal negative d).WellFormed := by
  have hdigits : ∀ c ∈ Decimal.digitsOf d.coefficient, Decimal.isDigit c = true :=
    fun c hc ↦ Decimal.isDigit_of_mem_digitsOf hc
  have hne : Decimal.digitsOf d.coefficient ≠ [] := Nat.toDigits_ne_nil
  have hhead := Decimal.head?_digitsOf h
  have hzeros (k : ℕ) : ∀ c ∈ List.replicate k '0', Decimal.isDigit c = true := by
    intro c hc
    obtain rfl := List.eq_of_mem_replicate hc
    rfl
  -- The digits up to some place, of which there is at least one.
  have hsplit {k : ℕ} (hk : k ≠ 0) (e : ℤ) :
      (⟨negative, (Decimal.digitsOf d.coefficient).take k, (Decimal.digitsOf d.coefficient).drop k, e⟩ :
        Numeral).WellFormed := by
    have htake : (Decimal.digitsOf d.coefficient).take k ≠ [] :=
      mt List.take_eq_nil_iff.1 (not_or.2 ⟨hk, hne⟩)
    refine ⟨⟨htake, fun c hc ↦ hdigits c (List.mem_of_mem_take hc),
      fun c hc ↦ hdigits c (List.mem_of_mem_drop hc)⟩, .inr ?_⟩
    rwa [List.head?_take, if_neg hk]
  unfold ofDecimal
  dsimp only
  split
  · refine ⟨⟨List.append_ne_nil_of_left_ne_nil hne _, List.forall_mem_append.2 ⟨hdigits, hzeros _⟩,
      List.forall_mem_singleton.2 rfl⟩, .inr ?_⟩
    rwa [List.head?_append_of_ne_nil _ hne]
  split
  · exact hsplit (by omega) 0
  split
  · exact ⟨⟨List.cons_ne_nil _ _, List.forall_mem_singleton.2 rfl,
      List.forall_mem_append.2 ⟨hzeros _, hdigits⟩⟩, .inl rfl⟩
  · exact hsplit one_ne_zero _

theorem wellFormed_zero (negative : Bool) : (ofDecimal negative ⟨0, 0⟩).WellFormed :=
  ⟨⟨List.cons_ne_nil _ _, List.forall_mem_singleton.2 rfl, List.forall_mem_singleton.2 rfl⟩, .inl rfl⟩

theorem wellFormed_of_ofFloat? {x : Float} {n : Numeral} (h : ofFloat? x = some n) : n.WellFormed := by
  rw [ofFloat?] at h
  cases hx : Double.ofFloat x with
  | nan => rw [hx] at h; contradiction
  | infinite => rw [hx] at h; contradiction
  | finite negative m e =>
    rw [hx] at h
    obtain rfl := Option.some.inj h
    by_cases hm : m = 0
    · rw [if_pos hm]
      exact wellFormed_zero negative
    · obtain ⟨-, hlt, -⟩ := Double.hasValue_of_ofFloat hx hm
      rw [if_neg hm]
      exact wellFormed_ofDecimal (Decimal.coefficient_shortest_ne_zero (Nat.pos_of_ne_zero hm) hlt) _

end Json.Numeral

/-! ### Numerals that are rounded once -/

namespace Json.Numeral

variable {n : Numeral} {s k : ℕ}

/-- A numeral is a whole number over a power of ten, both of which are doubles. -/
structure IsQuotient (n : Numeral) (s k : ℕ) : Prop where
  digits : Decimal.ofDigits (n.whole ++ n.fraction) = s
  lt_size : s < UInt64.size
  exact : nearestDouble s = s
  places : n.exponent - n.fraction.length = -k
  pos : 0 < k
  le : k ≤ 22

theorem le_ofDigitChars (digits : List Char) (s : ℕ) : s ≤ Nat.ofDigitChars 10 digits s := by
  rw [Nat.ofDigitChars_eq_ofDigitChars_zero]
  exact (Nat.le_mul_of_pos_left _ (Nat.pow_pos (by decide))).trans (Nat.le_add_right _ _)

/-- Digits that fit into 64 bits are all taken. -/
theorem appendDigits_eq {digits : List Char} {s : ℕ} (h : Nat.ofDigitChars 10 digits s < UInt64.size) :
    appendDigits s digits = (Nat.ofDigitChars 10 digits s, []) := by
  induction digits generalizing s with
  | nil => rfl
  | cons c cs ih =>
    rw [Nat.ofDigitChars_cons] at h ⊢
    have hlt : 10 * s + (c.toNat - '0'.toNat) < UInt64.size := (le_ofDigitChars cs _).trans_lt h
    rw [appendDigits]
    simp only [hlt, if_true, ih h]

theorem IsQuotient.appendDigits_whole (h : n.IsQuotient s k) : ∃ front,
    appendDigits 0 n.whole = (front, []) ∧ appendDigits front n.fraction = (s, []) := by
  have hdigits : Nat.ofDigitChars 10 n.fraction (Nat.ofDigitChars 10 n.whole 0) = s := by
    rw [← Nat.ofDigitChars_append]
    exact h.digits
  have hle : Nat.ofDigitChars 10 n.whole 0 ≤ s := hdigits ▸ le_ofDigitChars n.fraction _
  refine ⟨_, appendDigits_eq (hle.trans_lt h.lt_size), ?_⟩
  rw [appendDigits_eq (hdigits.trans_lt h.lt_size), hdigits]

/-- **Such a numeral is rounded once.** -/
theorem IsQuotient.exists_toFloat?_eq (h : n.IsQuotient s k) : ∃ x,
    n.toFloat? = some (if n.negative then -x else x) ∧
      Double.HasValue x (nearestDouble (s / 10 ^ k)) := by
  have hs : (s : ℚ) ≤ 2 ^ 64 := by exact_mod_cast h.lt_size.le
  have hwhole : Double.HasValue (Float.ofNat s) s := by
    have hvalue := Double.hasValue_natCast (n := s)
      (abs_nearestDouble_lt (by decide : 64 < 1024) (by rwa [Nat.abs_cast]))
    rwa [h.exact] at hvalue
  have hten := Double.hasValue_ten_pow h.le
  have hquotient := Double.hasValue_div hwhole hten (by positivity) (by
    refine abs_nearestDouble_lt (by decide : 64 < 1024) ?_
    rw [abs_of_nonneg (by positivity)]
    exact (div_le_self (by positivity) (one_le_pow₀ (by norm_num))).trans hs)
  refine ⟨_, ?_, hquotient⟩
  obtain ⟨front, hfront, hback⟩ := h.appendDigits_whole
  have hpos := h.pos
  have hle := h.le
  rw [toFloat?]
  simp only [hfront, hback, List.length_nil]
  have hplaces : ((0 : ℕ) : ℤ) + (0 : ℕ) - n.fraction.length + n.exponent = -k := by
    rw [← h.places]
    omega
  rw [hplaces, timesTenTo, if_pos (by omega), if_neg (by omega), neg_neg, Option.map_some]

section

variable {d : Decimal} (negative : Bool)

theorem negative_ofDecimal (d : Decimal) : (ofDecimal negative d).negative = negative := by
  unfold ofDecimal
  dsimp only
  split_ifs <;> rfl

/-- A whole number gets one more zero, behind the point. -/
theorem ofDecimal_of_nonneg (h : 0 ≤ d.exponent) (hpoint : d.order < 15) :
    Decimal.ofDigits ((ofDecimal negative d).whole ++ (ofDecimal negative d).fraction) =
      d.coefficient * 10 ^ d.exponent.toNat * 10 ∧
    (ofDecimal negative d).exponent - (ofDecimal negative d).fraction.length = -1 := by
  rw [Decimal.order, Decimal.length] at hpoint
  have hdigits : Decimal.ofDigits (Decimal.digitsOf d.coefficient ++
      List.replicate d.exponent.toNat '0') = d.coefficient * 10 ^ d.exponent.toNat := by
    rw [Decimal.ofDigits_append_zeros, Decimal.ofDigits_digitsOf]
  unfold ofDecimal
  dsimp only
  rw [if_pos ⟨h, by omega⟩]
  exact ⟨(Decimal.ofDigits_append_zeros _ 1).trans (by rw [hdigits, pow_one]), rfl⟩

/-- Otherwise the digits are those of the coefficient, wherever the point stands. -/
theorem ofDecimal_of_neg (h : d.exponent < 0) :
    Decimal.ofDigits ((ofDecimal negative d).whole ++ (ofDecimal negative d).fraction) = d.coefficient ∧
    (ofDecimal negative d).exponent - (ofDecimal negative d).fraction.length = d.exponent := by
  have hpos := Decimal.length_pos d.coefficient
  rw [Decimal.length] at hpos
  have hdigits := Decimal.ofDigits_digitsOf d.coefficient
  unfold ofDecimal
  dsimp only
  rw [if_neg fun hwhole ↦ h.not_ge hwhole.1]
  split
  · refine ⟨by rw [List.take_append_drop, hdigits], ?_⟩
    dsimp only
    rw [List.length_drop]
    omega
  split
  · refine ⟨?_, ?_⟩
    · exact (Decimal.ofDigits_zeros_append 1 _).trans ((Decimal.ofDigits_zeros_append _ _).trans hdigits)
    · dsimp only
      rw [List.length_append, List.length_replicate]
      omega
  · refine ⟨by rw [List.take_append_drop, hdigits], ?_⟩
    dsimp only
    rw [List.length_drop]
    omega

/-- **Short decimals are written as such numerals.** -/
theorem exists_isQuotient_ofDecimal (hlength : Decimal.length d.coefficient ≤ 15) (horder : d.order < 15)
    (hexponent : -22 ≤ d.exponent) :
    ∃ s k, (ofDecimal negative d).IsQuotient s k ∧ (s / 10 ^ k : ℚ) = d.toRat := by
  have hlt := Decimal.lt_ten_pow_length d.coefficient
  rcases lt_or_ge d.exponent 0 with hneg | hwhole
  · obtain ⟨hdigits, hplaces⟩ := ofDecimal_of_neg negative hneg
    have hcoefficient : d.coefficient < 10 ^ 15 :=
      hlt.trans_le (Nat.pow_le_pow_right (by decide) hlength)
    have hexact : nearestDouble d.coefficient = d.coefficient :=
      nearestDouble_natCast (hcoefficient.trans (by decide))
    refine ⟨d.coefficient, (-d.exponent).toNat,
      ⟨hdigits, hcoefficient.trans (by decide), hexact, by omega, by omega, by omega⟩, ?_⟩
    rw [Decimal.toRat, div_eq_mul_inv, ← zpow_natCast, ← zpow_neg]
    congr 2
    omega
  · obtain ⟨hdigits, hplaces⟩ := ofDecimal_of_nonneg negative hwhole horder
    have hbound : d.coefficient * 10 ^ d.exponent.toNat < 10 ^ 15 := by
      calc d.coefficient * 10 ^ d.exponent.toNat
          < 10 ^ Decimal.length d.coefficient * 10 ^ d.exponent.toNat :=
            Nat.mul_lt_mul_of_pos_right hlt (Nat.pow_pos (by decide))
        _ = 10 ^ (Decimal.length d.coefficient + d.exponent.toNat) := (pow_add ..).symm
        _ ≤ 10 ^ 15 := Nat.pow_le_pow_right (by decide) (by rw [Decimal.order] at horder; omega)
    generalize hnumber : d.coefficient * 10 ^ d.exponent.toNat = number at hbound hdigits
    -- Ten is even, so one more zero costs only three bits.
    have hexact : nearestDouble (number * 10 : ℕ) = (number * 10 : ℕ) := by
      have hdouble := nearestDouble_eq_self (n := 5 * number) (t := 1) (by rw [abs_of_nonneg] <;> omega)
        (by decide)
      have hsame : ((5 * number : ℤ) : ℚ) * 2 ^ (1 : ℤ) = (number * 10 : ℕ) := by
        push_cast
        ring
      rwa [hsame] at hdouble
    have hsize : number * 10 < UInt64.size := by
      rw [UInt64.size]
      omega
    refine ⟨number * 10, 1, ⟨hdigits, hsize, hexact, hplaces, one_pos, by decide⟩, ?_⟩
    obtain ⟨j, hj⟩ := Int.eq_ofNat_of_zero_le hwhole
    rw [Decimal.toRat, ← hnumber, hj, zpow_natCast, Int.toNat_natCast, pow_one]
    push_cast
    exact mul_div_cancel_right₀ _ (by norm_num)

end

end Json.Numeral

/-! ### Doubles that are read back -/

namespace Double

/-- A double that is read back from its numeral. -/
def IsReadBack (x : Float) : Prop :=
  (Json.Numeral.ofFloat? x).bind Json.Numeral.toFloat? = some x

instance (x : Float) : Decidable (IsReadBack x) :=
  inferInstanceAs (Decidable (_ = _))

variable {x : Float} {negative : Bool} {m : ℕ} {e : ℤ}

/-- A double whose shortest decimal has few digits is read back. -/
theorem isReadBack_of_shortest (hx : ofFloat x = .finite negative m e) (hm : m ≠ 0)
    (hlength : Decimal.length (Decimal.shortest m e).coefficient ≤ 15)
    (horder : (Decimal.shortest m e).order < 15) (hexponent : -22 ≤ (Decimal.shortest m e).exponent) :
    IsReadBack x := by
  obtain ⟨hvalue, hlt, he, hcanonical⟩ := hasValue_of_ofFloat hx hm
  obtain ⟨s, k, hquotient, hsame⟩ :=
    Json.Numeral.exists_isQuotient_ofDecimal negative hlength horder hexponent
  obtain ⟨y, hy, hread⟩ := hquotient.exists_toFloat?_eq
  rw [hsame, Decimal.nearestDouble_shortest (Nat.pos_of_ne_zero hm) hlt he hcanonical] at hread
  have hne : (m : ℚ) * 2 ^ e ≠ 0 :=
    mul_ne_zero (Nat.cast_ne_zero.2 hm) (zpow_ne_zero _ two_ne_zero)
  rw [IsReadBack, Json.Numeral.ofFloat?, hx]
  simp only [if_neg hm, Option.bind_some, hy, Json.Numeral.negative_ofDecimal]
  cases negative with
  | true =>
    rw [if_pos rfl, neg_one_mul] at hvalue
    exact congrArg some ((hasValue_neg hread).eq_of_ne_zero hvalue (neg_ne_zero.2 hne))
  | false =>
    rw [if_neg Bool.false_ne_true, one_mul] at hvalue
    exact congrArg some (hread.eq_of_ne_zero hvalue hne)

/-- **The doubles of short decimals are read back.** -/
theorem isReadBack_toFloat {d : Decimal} (hd : d.coefficient ≠ 0)
    (hlength : Decimal.length d.coefficient ≤ 15) (horder : d.order < 14) (hexponent : -21 ≤ d.exponent) :
    IsReadBack d.toFloat := by
  obtain ⟨hlow, hhigh⟩ := Decimal.order_bounds hd
  have hten {j k : ℤ} (hjk : j ≤ k) : (10 : ℚ) ^ j ≤ 10 ^ k := zpow_le_zpow_right₀ (by norm_num) hjk
  have hlarge : (2 : ℚ) ^ (-70 : ℤ) ≤ d.toRat := by
    have hpos := Decimal.length_pos d.coefficient
    have hexponent' : -21 ≤ d.order := by
      rw [Decimal.order]
      omega
    exact le_trans (by norm_num) ((hten hexponent').trans hlow)
  have hpos : 0 < d.toRat := (two_zpow_pos _).trans_le hlarge
  have hsmall : |d.toRat| ≤ 2 ^ 47 := by
    rw [abs_of_pos hpos]
    exact hhigh.le.trans ((hten (by omega : d.order + 1 ≤ 14)).trans (by norm_num))
  have hvalue : HasValue d.toFloat (nearestDouble d.toRat) :=
    hasValue_toFloat (abs_nearestDouble_lt (by decide : 47 < 1024) hsmall)
  have hnearest : 0 < nearestDouble d.toRat := by
    have hge := le_abs_nearestDouble (by decide : (-1074 : ℤ) ≤ -70) (hlarge.trans (le_abs_self _))
    rw [abs_of_nonneg (nearestDouble_nonneg hpos.le)] at hge
    exact (two_zpow_pos _).trans_le hge
  obtain ⟨m, e, hx, hm, hsame⟩ := exists_ofFloat_of_pos hvalue hnearest
  obtain ⟨-, hlt, he, hcanonical⟩ := hasValue_of_ofFloat hx hm
  have hm' := Nat.pos_of_ne_zero hm
  have horder' := Decimal.order_shortest_le hm' hlt he hcanonical hsame
  have hexponent' := Decimal.exponent_le_shortest hm' hlt he hcanonical hsame
  have hlength' := Decimal.length_shortest_le hm' hlt he hcanonical hsame
  exact isReadBack_of_shortest hx hm (hlength'.trans hlength) (by omega) (by omega)

/-- With seventeen digits two roundings may make a difference. -/
example : ¬IsReadBack 1.3000000000000003 := by decide +kernel

end Double

end Reckoner
