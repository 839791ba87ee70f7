import Mathlib
import Reckoner.Proofs.DoubleArithmetic

/-!
# Infinite doubles

A double is undefined, or it has a value, or it is infinite with a sign. Infinite operands swallow
what has a value: differences with one infinite operand are infinite, and so are products with a
positive factor. What is too large for a double is packed as an infinity (`exists_unpack_pack`).

Defined doubles are ordered like their places among the rational numbers and the two infinities
(`lt_iff_place`, `le_iff_place`, `beq_iff_place`).
-/

open Float.Model (Format UnpackedFloat)

namespace Reckoner.Double

/-- **A double is infinite**, with the given sign. -/
def IsInfinity (x : Float) (s : UnpackedFloat.Sign) : Prop := x.toModel.unpack = .infinity s

/-- The place of a defined double among the rational numbers and the two infinities. -/
def place (x : Float) : WithBot (WithTop ℚ) :=
  match x.toModel.unpack with
  | .infinity .positive => ⊤
  | .infinity .negative => ⊥
  | u => ((unpackedValue u : WithTop ℚ) : WithBot (WithTop ℚ))

section

variable {x y : Float} {v w : ℚ} {s t : UnpackedFloat.Sign}

theorem IsInfinity.isInf (hx : IsInfinity x s) : x.isInf = true := by
  change x.toModel.unpack.isInf = true
  rw [hx]
  rfl

theorem HasValue.isInf (hx : HasValue x v) : x.isInf = false := by
  change x.toModel.unpack.isInf = false
  rcases Represents.cases hx with ⟨s, hu, -⟩ | ⟨s, m, e, hm, hu, -⟩ <;> rw [hu] <;> rfl

/-- **Every double that is defined has a value or is infinite.** -/
theorem exists_hasValue_or_isInfinity (h : x.isNaN = false) :
    (∃ v, HasValue x v) ∨ ∃ s, IsInfinity x s := by
  cases hfinite : x.isFinite with
  | true => exact .inl (exists_hasValue hfinite)
  | false =>
    change x.toModel.unpack.isNaN = false at h
    change x.toModel.unpack.isFinite = false at hfinite
    cases hu : x.toModel.unpack with
    | infinity s => exact .inr ⟨s, hu⟩
    | notANumber =>
      rw [hu] at h
      contradiction
    | _ =>
      rw [hu] at hfinite
      contradiction

/-! ### Packing -/

theorem unpack_pack_infinity (s : UnpackedFloat.Sign) :
    (Float.Model.pack (.infinity s)).unpack = .infinity s :=
  unpack_pack trivial (by norm_num [unpackedValue])

/-- **What is too large is packed as an infinity.** -/
theorem exists_unpack_pack {u : UnpackedFloat} (hu : Represents u v) (h : 2 ^ 1024 ≤ |v|) :
    ∃ s, (Float.Model.pack u).unpack = .infinity s := by
  rcases hu.cases with ⟨s, rfl, rfl⟩ | ⟨s, m, e, hm, rfl, rfl⟩
  · rw [abs_zero] at h
    exact absurd h (not_le.2 (by positivity))
  · refine ⟨s, ?_⟩
    obtain ⟨hlt, -⟩ := hu.canonical
    have hexponent : 972 ≤ e := by
      by_contra hsmall
      have hbound := abs_apply_mul_zpow_lt s hlt (by omega : e ≤ 971)
      rw [apply_natCast] at hbound
      exact absurd h hbound.not_ge
    change UnpackedFloat.unpack Format.binary64 (UnpackedFloat.pack Format.binary64 _) = _
    rw [pack_finite s hm rfl, if_pos (by omega)]
    exact unpack_pack_infinity s

/-! ### Operations -/

theorem IsInfinity.neg (hx : IsInfinity x s) : IsInfinity (-x) (-s) := by
  rw [IsInfinity, unpack_neg, hx]
  rfl

theorem isInfinity_sub
    (h : UnpackedFloat.sub Format.binary64 x.toModel.unpack y.toModel.unpack = .infinity s) :
    IsInfinity (x - y) s := by
  change (Float.Model.pack (UnpackedFloat.sub _ x.toModel.unpack y.toModel.unpack)).unpack = _
  rw [h, unpack_pack_infinity]

/-- An infinity swallows what is subtracted from it, -/
theorem IsInfinity.sub_hasValue (hx : IsInfinity x s) (hy : HasValue y w) :
    IsInfinity (x - y) s := by
  refine isInfinity_sub ?_
  rw [hx]
  rcases Represents.cases hy with ⟨t, hu, -⟩ | ⟨t, n, f, hn, hu, -⟩ <;> rw [hu] <;> rfl

/-- and what it is subtracted from. -/
theorem HasValue.sub_isInfinity (hx : HasValue x v) (hy : IsInfinity y s) :
    IsInfinity (x - y) (-s) := by
  refine isInfinity_sub ?_
  rw [hy]
  rcases Represents.cases hx with ⟨t, hu, -⟩ | ⟨t, n, f, hn, hu, -⟩ <;> rw [hu] <;> rfl

/-- Opposite infinities are infinitely far apart. -/
theorem IsInfinity.sub_of_ne (hx : IsInfinity x s) (hy : IsInfinity y t) (h : s ≠ t) :
    IsInfinity (x - y) s := by
  refine isInfinity_sub ?_
  rw [hx, hy]
  cases s <;> cases t
  case negative.positive | positive.negative => rfl
  all_goals contradiction

/-- So are doubles whose distance is too large for a double. -/
theorem exists_isInfinity_sub (hx : HasValue x v) (hy : HasValue y w)
    (h : 2 ^ 1024 ≤ |nearestDouble (v - w)|) : ∃ s, IsInfinity (x - y) s :=
  exists_unpack_pack (represents_sub hx hy) h

theorem IsInfinity.mul_of_pos (hx : HasValue x v) (hv : 0 < v) (hy : IsInfinity y s) :
    IsInfinity (x * y) s := by
  have hmul : UnpackedFloat.mul Format.binary64 x.toModel.unpack y.toModel.unpack =
      .infinity s := by
    rw [hy]
    rcases Represents.cases hx with ⟨t, hu, rfl⟩ | ⟨t, m, e, hm, hu, rfl⟩
    · exact absurd hv (lt_irrefl _)
    · cases t with
      | positive =>
        rw [hu]
        cases s <;> rfl
      | negative =>
        refine absurd hv (not_lt.2 ?_)
        show ((-1 : ℤ) : ℚ) * m * 2 ^ e ≤ 0
        rw [Int.cast_neg, Int.cast_one, neg_one_mul, neg_mul, neg_nonpos]
        exact mul_nonneg (Nat.cast_nonneg m) (two_zpow_pos e).le
  change (Float.Model.pack (UnpackedFloat.mul _ x.toModel.unpack y.toModel.unpack)).unpack = _
  rw [hmul, unpack_pack_infinity]

/-! ### Comparisons -/

theorem IsInfinity.beq (hx : IsInfinity x s) (hy : IsInfinity y s) : (x == y) = true := by
  change UnpackedFloat.beq x.toModel.unpack y.toModel.unpack = true
  rw [hx, hy]
  cases s <;> rfl

theorem IsInfinity.le (hx : IsInfinity x s) (hy : IsInfinity y .positive) : x ≤ y := by
  change decide (UnpackedFloat.le x.toModel.unpack y.toModel.unpack = true) = true
  rw [hx, hy]
  cases s <;> rfl

theorem HasValue.le_infinity (hx : HasValue x v) (hy : IsInfinity y .positive) : x ≤ y := by
  change decide (UnpackedFloat.le x.toModel.unpack y.toModel.unpack = true) = true
  rw [hy]
  rcases Represents.cases hx with ⟨t, hu, -⟩ | ⟨t, n, f, hn, hu, -⟩ <;> rw [hu]
  · cases t <;> rfl
  · cases t <;> rfl

theorem IsInfinity.not_le (hx : IsInfinity x .positive) (hy : HasValue y w) : ¬x ≤ y := by
  change ¬decide (UnpackedFloat.le x.toModel.unpack y.toModel.unpack = true) = true
  rw [hx]
  rcases Represents.cases hy with ⟨t, hu, -⟩ | ⟨t, n, f, hn, hu, -⟩ <;> rw [hu]
  · cases t <;> exact Bool.false_ne_true
  · cases t <;> exact Bool.false_ne_true

/-! ### Places -/

theorem HasValue.place_eq (hx : HasValue x v) : place x = ((v : WithTop ℚ) : WithBot (WithTop ℚ)) := by
  obtain ⟨hfinite, -, rfl⟩ := hx
  rw [place]
  split
  · rename_i h
    rw [h] at hfinite
    contradiction
  · rename_i h
    rw [h] at hfinite
    contradiction
  · rfl

theorem IsInfinity.place_eq_top (hx : IsInfinity x .positive) : place x = ⊤ := by rw [place, hx]

theorem IsInfinity.place_eq_bot (hx : IsInfinity x .negative) : place x = ⊥ := by rw [place, hx]

theorem HasValue.place_lt_top (hx : HasValue x v) : place x < ⊤ := by
  rw [hx.place_eq]
  exact WithBot.coe_lt_coe.2 (WithTop.coe_lt_top v)

theorem HasValue.bot_lt_place (hx : HasValue x v) : ⊥ < place x := by
  rw [hx.place_eq]
  exact WithBot.bot_lt_coe _

/-- **Unpacked doubles that are defined are ordered like their places.** -/
theorem compare_unpack (hx : x.isNaN = false) (hy : y.isNaN = false) :
    UnpackedFloat.compare x.toModel.unpack y.toModel.unpack = some (cmp (place x) (place y)) := by
  have hcoe : StrictMono fun v : ℚ ↦ ((v : WithTop ℚ) : WithBot (WithTop ℚ)) :=
    WithBot.coe_strictMono.comp WithTop.coe_strictMono
  rcases exists_hasValue_or_isInfinity hx with ⟨v, hv⟩ | ⟨s, hs⟩ <;>
    rcases exists_hasValue_or_isInfinity hy with ⟨w, hw⟩ | ⟨t, ht⟩
  · rw [represents_compare hv hw, hv.place_eq, hw.place_eq, hcoe.cmp_map_eq]
  · rw [ht]
    cases t with
    | positive =>
      rw [ht.place_eq_top, hv.place_lt_top.cmp_eq_lt]
      rcases Represents.cases hv with ⟨s, hu, -⟩ | ⟨s, m, e, hm, hu, -⟩ <;> rw [hu] <;> cases s <;> rfl
    | negative =>
      rw [ht.place_eq_bot, hv.bot_lt_place.cmp_eq_gt]
      rcases Represents.cases hv with ⟨s, hu, -⟩ | ⟨s, m, e, hm, hu, -⟩ <;> rw [hu] <;> cases s <;> rfl
  · rw [hs]
    cases s with
    | positive =>
      rw [hs.place_eq_top, hw.place_lt_top.cmp_eq_gt]
      rcases Represents.cases hw with ⟨t, hu, -⟩ | ⟨t, n, f, hn, hu, -⟩ <;> rw [hu] <;> rfl
    | negative =>
      rw [hs.place_eq_bot, hw.bot_lt_place.cmp_eq_lt]
      rcases Represents.cases hw with ⟨t, hu, -⟩ | ⟨t, n, f, hn, hu, -⟩ <;> rw [hu] <;> rfl
  · rw [hs, ht]
    cases s <;> cases t
    case positive.positive =>
      rw [hs.place_eq_top, ht.place_eq_top, cmp_self_eq_eq]
      rfl
    case negative.negative =>
      rw [hs.place_eq_bot, ht.place_eq_bot, cmp_self_eq_eq]
      rfl
    case positive.negative =>
      rw [hs.place_eq_top, ht.place_eq_bot, (bot_lt_top (α := WithBot (WithTop ℚ))).cmp_eq_gt]
      rfl
    case negative.positive =>
      rw [hs.place_eq_bot, ht.place_eq_top, (bot_lt_top (α := WithBot (WithTop ℚ))).cmp_eq_lt]
      rfl

/-- **Defined doubles are ordered like their places.** -/
theorem lt_iff_place (hx : x.isNaN = false) (hy : y.isNaN = false) : x < y ↔ place x < place y := by
  change decide (UnpackedFloat.lt x.toModel.unpack y.toModel.unpack = true) = true ↔ _
  rw [decide_eq_true_iff, UnpackedFloat.lt, compare_unpack hx hy, beq_iff_eq, Option.some_inj,
    cmp_eq_lt_iff]

theorem le_iff_place (hx : x.isNaN = false) (hy : y.isNaN = false) : x ≤ y ↔ place x ≤ place y := by
  have hle (o : Ordering) : o.isLE = true ↔ o ≠ .gt := by
    cases o <;> decide
  change decide (UnpackedFloat.le x.toModel.unpack y.toModel.unpack = true) = true ↔ _
  rw [decide_eq_true_iff, UnpackedFloat.le, compare_unpack hx hy, Option.any_some, hle, Ne,
    cmp_eq_gt_iff, not_lt]

theorem beq_iff_place (hx : x.isNaN = false) (hy : y.isNaN = false) :
    (x == y) = true ↔ place x = place y := by
  change UnpackedFloat.beq x.toModel.unpack y.toModel.unpack = true ↔ _
  rw [UnpackedFloat.beq, compare_unpack hx hy, beq_iff_eq, Option.some_inj, cmp_eq_eq_iff]

end

end Reckoner.Double
