import Mathlib.Algebra.Order.Floor.Ring
import Mathlib.Algebra.Order.Ring.Rat
import Mathlib.Data.Rat.Floor
import Mathlib.Tactic.Ring
import Reckoner.Units.Quantity

/-!
# Exact arithmetic

The calculator over the rational numbers. Every operation is exact there, so what holds over them is
free of rounding. An irrational power has no rational value; only powers with an integer exponent
are of interest here, and all others are set to zero.

The numerals and the arithmetic of scalars are the ordinary ones (`ofNat_eq`, `powInt_eq_zpow`), so
the factor of a product of units is the product of the powers of its factors (`factor_eq_prod`).
-/

namespace Reckoner

/-- The number that a decimal stands for. -/
def Decimal.toRat (d : Decimal) : ℚ := d.coefficient * 10 ^ d.exponent

instance : Scalar ℚ where
  lt x y := decide (x < y)
  le x y := decide (x ≤ y)
  ofDecimal := Decimal.toRat
  isNaN _ := false
  truncate? x := some (x.num.tdiv x.den)
  floor x := ⌊x⌋
  pow x y := if y.den = 1 then x ^ y.num else 0
  text x := toString x

namespace Scalar

theorem ofDecimal_eq (d : Decimal) : (ofDecimal d : ℚ) = d.coefficient * 10 ^ d.exponent := rfl

/-- A numeral is the number that it says. -/
theorem ofNat_eq (n : ℕ) : (ofDecimal ⟨n, 0⟩ : ℚ) = n := by
  rw [ofDecimal_eq, zpow_zero, mul_one]

theorem ofInt_eq (n : ℤ) : (ofInt n : ℚ) = n := by
  cases n with
  | ofNat n => exact ofNat_eq n
  | negSucc n =>
    rw [Int.cast_negSucc]
    exact congrArg Neg.neg (ofNat_eq (n + 1))


/-- Repeated squaring calculates a power: the squares go through the bits of the exponent. -/
theorem powBySquaring_eq (acc base : ℚ) (n : ℕ) : powBySquaring acc base n = acc * base ^ n := by
  induction n using Nat.strongRecOn generalizing acc base with
  | ind n ih =>
    have hn : base ^ n = base ^ (n % 2) * (base * base) ^ (n / 2) := by
      rw [← pow_two, ← pow_mul, ← pow_add, Nat.mod_add_div]
    have hodd : (if n % 2 = 1 then acc * base else acc) = acc * base ^ (n % 2) := by
      rcases Nat.mod_two_eq_zero_or_one n with h | h
      · rw [h, if_neg zero_ne_one, pow_zero, mul_one]
      · rw [h, if_pos rfl, pow_one]
    rw [powBySquaring]
    change (if n / 2 = 0 then (if n % 2 = 1 then acc * base else acc) else
      powBySquaring (if n % 2 = 1 then acc * base else acc) (base * base) (n / 2)) = _
    rw [hodd, hn, ← mul_assoc]
    split
    · rename_i hzero
      rw [hzero, pow_zero, mul_one]
    · rename_i hpos
      exact ih (n / 2) (by omega) _ _

theorem powInt_eq_zpow (x : ℚ) (n : ℤ) : powInt x n = x ^ n := by
  have hp : powBySquaring (ofDecimal ⟨1, 0⟩) x n.natAbs = x ^ n.natAbs := by
    rw [powBySquaring_eq, ofNat_eq, Nat.cast_one, one_mul]
  change (if n < 0 then (ofDecimal ⟨1, 0⟩ : ℚ) / powBySquaring (ofDecimal ⟨1, 0⟩) x n.natAbs
    else powBySquaring (ofDecimal ⟨1, 0⟩) x n.natAbs) = _
  rw [hp, ofNat_eq, Nat.cast_one, one_div]
  split
  · rename_i hneg
    rw [← zpow_natCast, ← zpow_neg, Int.ofNat_natAbs_of_nonpos hneg.le, neg_neg]
  · rename_i hnonneg
    rw [← zpow_natCast, Int.natAbs_of_nonneg (not_lt.1 hnonneg)]

end Scalar

namespace Units

/-- The product of the powers of the factors in a row of terms. -/
def factorProduct (ts : List (UnitTerm ℚ)) : ℚ := (ts.map fun t ↦ t.unit.factor ^ t.power).prod

@[simp]
theorem factorProduct_nil : factorProduct [] = 1 := rfl

@[simp]
theorem factorProduct_cons (t : UnitTerm ℚ) (ts : List (UnitTerm ℚ)) :
    factorProduct (t :: ts) = t.unit.factor ^ t.power * factorProduct ts := by
  rw [factorProduct, List.map_cons, List.prod_cons, factorProduct]

@[simp]
theorem factorProduct_append (ts vs : List (UnitTerm ℚ)) :
    factorProduct (ts ++ vs) = factorProduct ts * factorProduct vs := by
  rw [factorProduct, List.map_append, List.prod_append, factorProduct, factorProduct]

theorem factor_eq_prod (us : Units ℚ) : us.factor = factorProduct us.terms := by
  have hfold : ∀ (ts : List (UnitTerm ℚ)) (x : ℚ),
      ts.foldl (fun f t ↦ f * Scalar.powInt t.unit.factor t.power) x = x * factorProduct ts := by
    intro ts
    induction ts with
    | nil => exact fun x ↦ (mul_one x).symm
    | cons t ts ih =>
      intro x
      rw [List.foldl_cons, ih, factorProduct_cons, ← mul_assoc, Scalar.powInt_eq_zpow]
  change us.terms.foldl (fun f t ↦ f * Scalar.powInt t.unit.factor t.power)
    (Scalar.ofDecimal ⟨1, 0⟩) = _
  rw [hfold, Scalar.ofNat_eq, Nat.cast_one, one_mul]

end Units

end Reckoner
