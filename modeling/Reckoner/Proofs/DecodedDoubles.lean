import Mathlib
import Reckoner.Proofs.DefinedDoubles

/-!
# Decoding is unpacking

The text of a double is made from its bits, taken apart by `Double.ofFloat`. The arithmetic of doubles
unpacks the same bits into a sign, a mantissa and an exponent. Both see the same number
(`Double.ofFloat_eq`), so what is known of the result of an operation tells what is written of it.
-/

open Float.Model (Format UnpackedFloat)
namespace Reckoner.Double

/-- What an unpacked double stands for. -/
def ofUnpacked : UnpackedFloat → Double
  | .notANumber => .nan
  | .infinity sign => .infinite (sign == .negative)
  | .zero sign => .finite (sign == .negative) 0 (-1074)
  | .finite sign mantissa exponent _ => .finite (sign == .negative) mantissa exponent

section Bits
variable (b : BitVec Format.binary64.numBits)

theorem toNat_unpackMantissa : (UnpackedFloat.unpackMantissa b).toNat = b.toNat % 2 ^ 52 := by
  simp [UnpackedFloat.unpackMantissa]

theorem toNat_unpackExponent :
    (UnpackedFloat.unpackExponent b).toNat = b.toNat / 2 ^ 52 % 2 ^ 11 := by
  simp [UnpackedFloat.unpackExponent, Nat.shiftRight_eq_div_pow]

theorem toNat_unpackSign : (UnpackedFloat.unpackSign b).toNat = b.toNat / 2 ^ 63 := by
  have hlt : b.toNat < 2 ^ 64 := b.isLt
  have hdigit : b.toNat / 2 ^ 63 < 2 := Nat.div_lt_of_lt_mul hlt
  simp [UnpackedFloat.unpackSign, Nat.shiftRight_eq_div_pow]
  omega

theorem negative_unpackSign :
    (UnpackedFloat.Sign.ofBitVec (UnpackedFloat.unpackSign b) == .negative) =
      (b.toNat / 2 ^ 63 == 1) := by
  have hlt : b.toNat < 2 ^ 64 := b.isLt
  have hdigit : b.toNat / 2 ^ 63 < 2 := Nat.div_lt_of_lt_mul hlt
  have hsign := toNat_unpackSign b
  rw [UnpackedFloat.Sign.ofBitVec]
  by_cases h : UnpackedFloat.unpackSign b = 0#1
  · rw [h] at hsign
    rw [if_pos h, ← hsign]
    rfl
  · have hone : b.toNat / 2 ^ 63 = 1 := by
      have : UnpackedFloat.unpackSign b = 1#1 := (BitVec.eq_zero_or_eq_one _).resolve_left h
      rw [← hsign, this]
      rfl
    rw [if_neg h, hone]
    rfl

/-- The leading one belongs to the mantissa. -/
theorem toNat_implicit (mantissa : BitVec 52) :
    (1#1 ++ mantissa).toNat = 2 ^ 52 + mantissa.toNat := by
  rw [BitVec.toNat_append]
  exact (Nat.shiftLeft_add_eq_or_of_lt mantissa.isLt 1).symm

end Bits

/-- **Decoding is unpacking.** -/
theorem ofFloat_eq (x : Float) : ofFloat x = ofUnpacked x.toModel.unpack := by
  let b : BitVec Format.binary64.numBits := x.toModel.toBits.toBitVec
  have hsign := negative_unpackSign b
  have hones : UnpackedFloat.unpackExponent b = -1#11 ↔ b.toNat / 2 ^ 52 % 2 ^ 11 = 2047 := by
    rw [← BitVec.toNat_inj, toNat_unpackExponent]
    rfl
  have hzeros : UnpackedFloat.unpackExponent b = 0#11 ↔ b.toNat / 2 ^ 52 % 2 ^ 11 = 0 := by
    rw [← BitVec.toNat_inj, toNat_unpackExponent]
    rfl
  have hnone : UnpackedFloat.unpackMantissa b = 0#52 ↔ b.toNat % 2 ^ 52 = 0 := by
    rw [← BitVec.toNat_inj, toNat_unpackMantissa]
    rfl
  change (if b.toNat / 2 ^ 52 % 2 ^ 11 = 2047 then if b.toNat % 2 ^ 52 = 0 then _ else _ else
    if b.toNat / 2 ^ 52 % 2 ^ 11 = 0 then _ else _) =
      ofUnpacked (UnpackedFloat.unpack Format.binary64 b)
  rw [UnpackedFloat.unpack]
  by_cases h : b.toNat / 2 ^ 52 % 2 ^ 11 = 2047
  · rw [if_pos h, if_pos (hones.2 h)]
    by_cases hm : b.toNat % 2 ^ 52 = 0
    · rw [if_pos hm, if_pos (hnone.2 hm), ofUnpacked, hsign]
      rfl
    · rw [if_neg hm, if_neg (mt hnone.1 hm)]
      rfl
  · rw [if_neg h, if_neg (mt hones.1 h)]
    by_cases he : b.toNat / 2 ^ 52 % 2 ^ 11 = 0
    · rw [if_pos he, if_pos (hzeros.2 he)]
      by_cases hm : b.toNat % 2 ^ 52 = 0
      · rw [dif_pos (hnone.2 hm), ofUnpacked, hsign]
        exact congrArg (fun n ↦ finite _ n _) hm
      · rw [dif_neg (mt hnone.1 hm), ofUnpacked, hsign, toNat_unpackMantissa, hzeros.2 he]
        rfl
    · rw [if_neg he, if_neg (mt hzeros.1 he), ofUnpacked, hsign, toNat_unpackExponent]
      have hfull : (1#1 ++ UnpackedFloat.unpackMantissa b).toNat = 2 ^ 52 + b.toNat % 2 ^ 52 := by
        rw [toNat_implicit, toNat_unpackMantissa]
      rw [hfull]
      rfl

theorem ofFloat_eq_nan {x : Float} : ofFloat x = .nan ↔ x.isNaN = true := by
  change _ ↔ x.toModel.unpack.isNaN = true
  rw [ofFloat_eq]
  cases x.toModel.unpack with
  | notANumber => exact iff_of_true rfl rfl
  | infinity => exact iff_of_false nofun nofun
  | zero => exact iff_of_false nofun nofun
  | finite => exact iff_of_false nofun nofun

end Reckoner.Double
