import Mathlib
import Reckoner.Engine.Basic

/-!
# When doubles stay defined

Products and quotients of doubles are undefined for few operands only: zero times infinity, and zero
or infinity divided by itself. So a product with a *proper* double, which is finite and not zero, is
defined if the other factor is, and so are quotients with a proper dividend or divisor. The factors
of units are products and quotients of this kind, and with them so are the quantities that the names
of units stand for.

An operation on doubles unpacks its operands, calculates, and packs the result. Packing never makes
a number undefined (`isNaN_pack`), and neither does rounding, so it is enough to look at the cases of
the calculation.
-/

open Float.Model (Format UnpackedFloat)

namespace Reckoner.Double

/-! ### Packing -/

/-- Exponent and mantissa decide what bits stand for: all ones with a mantissa are undefined. -/
theorem isNaN_unpack_packComponents {spec : Format} {sign : UnpackedFloat.Sign}
    {exponent : BitVec spec.exponentBits} {mantissa : BitVec spec.mantissaBitsWithoutImplicit}
    (h : exponent = -BitVec.ofNat _ 1 → mantissa = BitVec.ofNat _ 0) :
    (UnpackedFloat.unpack spec
      (UnpackedFloat.packComponents spec sign exponent mantissa)).isNaN = false := by
  simp only [UnpackedFloat.unpack, UnpackedFloat.unpackMantissa_packComponents,
    UnpackedFloat.unpackExponent_packComponents]
  split
  · rename_i hones
    rw [if_pos (h hones)]
    rfl
  · split
    · split <;> rfl
    · rfl

/-- A biased exponent below the greatest one is not the one of all ones. -/
theorem ofNat_ne_ones {n : Nat} (h : n + 1 < 2 ^ 11) : BitVec.ofNat 11 n ≠ -1#11 := by
  intro hones
  have hvalue := congrArg BitVec.toNat hones
  rw [BitVec.toNat_ofNat, Nat.mod_eq_of_lt (by omega)] at hvalue
  simp only [BitVec.neg_one_eq_allOnes, BitVec.toNat_allOnes] at hvalue
  omega

/-- What is packed as a number is one. -/
theorem isNaN_pack {u : UnpackedFloat} (h : u.isNaN = false) :
    (Float.Model.pack u).isNaN = false := by
  change (UnpackedFloat.unpack Format.binary64 (UnpackedFloat.pack Format.binary64 u)).isNaN = false
  cases u with
  | notANumber => contradiction
  | infinity sign => exact isNaN_unpack_packComponents fun _ ↦ rfl
  | zero sign => exact isNaN_unpack_packComponents fun _ ↦ rfl
  | finite sign mantissa exponent hpos =>
    simp only [UnpackedFloat.pack]
    split
    · exact isNaN_unpack_packComponents fun _ ↦ rfl
    · rename_i hfits
      split
      · exact isNaN_unpack_packComponents fun hones ↦
          absurd hones (ofNat_ne_ones (Nat.lt_of_not_le hfits))
      · exact isNaN_unpack_packComponents fun hones ↦ absurd hones (by decide)

/-- Rounding gives a number. -/
theorem isNaN_roundWithAccuracy (spec : Format) (sign : UnpackedFloat.Sign) (mantissa : Nat)
    (exponent : Int) (accuracy : UnpackedFloat.Accuracy) :
    (UnpackedFloat.roundWithAccuracy spec sign mantissa exponent accuracy).isNaN = false := by
  rw [UnpackedFloat.roundWithAccuracy]
  dsimp only
  split <;> rfl

section

variable {spec : Format} {sign : UnpackedFloat.Sign} {mantissa : Nat} {exponent : Int}
  {hpos : 0 < mantissa} {u : UnpackedFloat}

theorem isNaN_mul_finite (h : u.isNaN = false) :
    (u.mul spec (.finite sign mantissa exponent hpos)).isNaN = false := by
  cases u with
  | notANumber => contradiction
  | infinity => rfl
  | zero => rfl
  | finite => exact isNaN_roundWithAccuracy _ _ _ _ _

theorem isNaN_finite_mul (h : u.isNaN = false) :
    (UnpackedFloat.mul spec (.finite sign mantissa exponent hpos) u).isNaN = false := by
  cases u with
  | notANumber => contradiction
  | infinity => rfl
  | zero => rfl
  | finite => exact isNaN_roundWithAccuracy _ _ _ _ _

theorem isNaN_div_finite (h : u.isNaN = false) :
    (UnpackedFloat.div spec u (.finite sign mantissa exponent hpos)).isNaN = false := by
  cases u with
  | notANumber => contradiction
  | infinity => rfl
  | zero => rfl
  | finite => exact isNaN_roundWithAccuracy _ _ _ _ _

theorem isNaN_finite_div (h : u.isNaN = false) :
    (UnpackedFloat.div spec (.finite sign mantissa exponent hpos) u).isNaN = false := by
  cases u with
  | notANumber => contradiction
  | infinity => rfl
  | zero => rfl
  | finite => exact isNaN_roundWithAccuracy _ _ _ _ _

end

/-! ### Products and quotients -/

/-- Whether a double is finite and not zero. -/
def isProper (x : Float) : Bool :=
  match x.toModel.unpack with
  | .finite .. => true
  | _ => false

variable {x y : Float}

theorem exists_finite_of_isProper (h : isProper x = true) :
    ∃ sign mantissa exponent hpos, x.toModel.unpack = .finite sign mantissa exponent hpos := by
  rw [isProper] at h
  split at h
  · exact ⟨_, _, _, _, ‹_›⟩
  · contradiction

theorem isNaN_of_isProper (h : isProper x = true) : x.isNaN = false := by
  obtain ⟨sign, mantissa, exponent, hpos, hx⟩ := exists_finite_of_isProper h
  rw [Float.isNaN, Float.Model.isNaN, hx]
  rfl

theorem isProper_one : isProper 1 = true := by decide

/-- A product with a proper double is defined if the other factor is. -/
theorem isNaN_mul (hx : x.isNaN = false) (hy : isProper y = true) : (x * y).isNaN = false := by
  obtain ⟨sign, mantissa, exponent, hpos, hy⟩ := exists_finite_of_isProper hy
  refine isNaN_pack ?_
  rw [hy]
  exact isNaN_mul_finite hx

theorem isNaN_mul_of_left (hx : isProper x = true) (hy : y.isNaN = false) :
    (x * y).isNaN = false := by
  obtain ⟨sign, mantissa, exponent, hpos, hx⟩ := exists_finite_of_isProper hx
  refine isNaN_pack ?_
  rw [hx]
  exact isNaN_finite_mul hy

/-- So is a quotient with a proper divisor. -/
theorem isNaN_div (hx : x.isNaN = false) (hy : isProper y = true) : (x / y).isNaN = false := by
  obtain ⟨sign, mantissa, exponent, hpos, hy⟩ := exists_finite_of_isProper hy
  refine isNaN_pack ?_
  rw [hy]
  exact isNaN_div_finite hx

/-- And one with a proper dividend. -/
theorem isNaN_div_of_left (hx : isProper x = true) (hy : y.isNaN = false) :
    (x / y).isNaN = false := by
  obtain ⟨sign, mantissa, exponent, hpos, hx⟩ := exists_finite_of_isProper hx
  refine isNaN_pack ?_
  rw [hx]
  exact isNaN_finite_div hy

/-- A quotient that has no value: an operand is undefined, or both are zero, or both are infinite. -/
def IsUndefinedQuotient (x y : Float) : Prop :=
  x.isNaN = true ∨ y.isNaN = true ∨ (x == 0 ∧ y == 0) ∨ (x.isInf = true ∧ y.isInf = true)

theorem eq_zero_iff {x : Float} : (x == 0) = true ↔ ∃ sign, x.toModel.unpack = .zero sign := by
  have hzero : (0 : Float).toModel.unpack = .zero .positive := rfl
  change x.toModel.unpack.beq (0 : Float).toModel.unpack = true ↔ _
  rw [hzero]
  cases x.toModel.unpack with
  | notANumber => exact iff_of_false nofun nofun
  | infinity sign => cases sign <;> exact iff_of_false nofun nofun
  | zero sign => exact iff_of_true rfl ⟨sign, rfl⟩
  | finite sign => cases sign <;> exact iff_of_false nofun nofun

/-- Packing keeps what is undefined, too. -/
theorem isNaN_ofModel_pack (u : UnpackedFloat) :
    (Float.ofModel (Float.Model.pack u)).isNaN = u.isNaN := by
  cases h : u.isNaN with
  | false => exact isNaN_pack h
  | true =>
    cases u with
    | notANumber => decide
    | _ => contradiction

/-- **Exactly these quotients are undefined.** -/
theorem isNaN_div_iff {x y : Float} : (x / y).isNaN = true ↔ IsUndefinedQuotient x y := by
  change (Float.ofModel (Float.Model.pack _)).isNaN = true ↔ _
  rw [isNaN_ofModel_pack, IsUndefinedQuotient, eq_zero_iff, eq_zero_iff]
  change _ ↔ x.toModel.unpack.isNaN = true ∨ y.toModel.unpack.isNaN = true ∨ _ ∨
    (x.toModel.unpack.isInf = true ∧ y.toModel.unpack.isInf = true)
  generalize x.toModel.unpack = u
  generalize y.toModel.unpack = v
  have hfinite : ∀ {sign mantissa exponent accuracy},
      (UnpackedFloat.roundWithAccuracy Format.binary64 sign mantissa exponent accuracy).isNaN = true ↔
        False := iff_of_false (Bool.eq_false_iff.1 (isNaN_roundWithAccuracy _ _ _ _ _)) id
  cases u <;> cases v <;>
    simp [UnpackedFloat.div, hfinite, UnpackedFloat.isInf]

theorem isNaN_neg (hx : x.isNaN = false) : (-x).isNaN = false := by
  change x.toModel.unpack.isNaN = false at hx
  refine isNaN_pack ?_
  cases hu : x.toModel.unpack with
  | notANumber =>
    rw [hu] at hx
    contradiction
  | infinity => rfl
  | zero => rfl
  | finite => rfl

/-! ### Numbers that are written -/

theorem isNaN_normalize (spec : Format) (mantissa exponent : Int) (sign : UnpackedFloat.Sign) :
    (UnpackedFloat.normalize spec mantissa exponent sign).isNaN = false := by
  rw [UnpackedFloat.normalize]
  split
  · exact isNaN_roundWithAccuracy _ _ _ _ _
  · rfl
  · exact isNaN_roundWithAccuracy _ _ _ _ _

theorem isNaN_ofScientific (spec : Format) (m : Nat) (e : Int) :
    (UnpackedFloat.ofScientific spec m e).isNaN = false := by
  rw [UnpackedFloat.ofScientific]
  split
  · rfl
  split
  · rfl
  split
  · rfl
  split
  · exact isNaN_mul_finite rfl
  · exact isNaN_div_finite rfl

/-- The powers of ten that are doubles. -/
theorem isProper_powersOfTen (e : Fin 23) :
    isProper Float.exactlyRepresentablePowersOfTen[e] = true := by
  revert e
  decide

/-- **The double nearest to a decimal is defined**; it may be infinite. -/
theorem isNaN_toFloat (d : Decimal) : d.toFloat.isNaN = false := by
  have h : ∀ m negative e, (Float.ofScientific m negative e).isNaN = false := by
    intro m negative e
    have hm : m.toUInt64.toFloat.isNaN = false := isNaN_pack (isNaN_normalize _ _ _ _)
    rw [Float.ofScientific]
    split
    · rename_i hsmall
      have hpower := isProper_powersOfTen ⟨e, Nat.lt_succ_of_le hsmall.2⟩
      dsimp only
      split
      · exact isNaN_div hm hpower
      · exact isNaN_mul hm hpower
    · exact isNaN_pack (isNaN_ofScientific _ _ _)
  rw [Decimal.toFloat]
  split
  · exact h _ _ _
  · exact h _ _ _

theorem isNaN_ofInt (n : Int) : (Scalar.ofInt n : Float).isNaN = false := by
  cases n with
  | ofNat n =>
    show (Decimal.toFloat ⟨n, 0⟩).isNaN = false
    exact isNaN_toFloat _
  | negSucc n =>
    show (-Decimal.toFloat ⟨n + 1, 0⟩).isNaN = false
    exact isNaN_neg (isNaN_toFloat _)

/-- A double with an integer part is defined. -/
theorem isNaN_of_isFinite (h : Scalar.isFinite x = true) : x.isNaN = false := by
  rw [Float.isNaN_eq_decide_eq_nan, decide_eq_false_iff_not]
  rintro rfl
  have hnan : Scalar.isFinite Float.nan = false := by decide
  rw [hnan] at h
  contradiction

end Reckoner.Double
