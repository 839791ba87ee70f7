import Mathlib
import Reckoner.Proofs.DateComparison

/-!
# Moving dates by durations

A date is moved by whole milliseconds: a thousand times the seconds of the duration, as doubles are
multiplied, without what is behind the point (`Double.Moves`). Dropping it goes toward zero, so the
milliseconds of the negated duration are the negated ones (`Double.truncate?_neg`), and a duration
that was added can be subtracted again: what is left is exact arithmetic on integers, and the way
back leads to a date (`Date.durations_undone`).

Only a date that is out of range makes a sum or a difference fail, as far as the quantity is a
duration. It does not matter for this whether milliseconds are counted with 64 bits, where the
largest counts stand for all that are larger (`Date.ofMillis?_add_saturate`).
-/

open Float.Model (UnpackedFloat)

namespace Reckoner

/-! ### Integer parts -/

/-- **The integer part** of a rational, toward zero. -/
def towardZero (v : ℚ) : ℤ := if v < 0 then ⌈v⌉ else ⌊v⌋

@[simp] theorem towardZero_intCast (n : ℤ) : towardZero n = n := by
  rw [towardZero, Int.ceil_intCast, Int.floor_intCast, ite_self]

theorem towardZero_of_nonneg {v : ℚ} (h : 0 ≤ v) : towardZero v = ⌊v⌋ :=
  if_neg h.not_gt

theorem towardZero_neg (v : ℚ) : towardZero (-v) = -towardZero v := by
  rcases lt_trichotomy v 0 with h | rfl | h
  · rw [towardZero, if_neg (by linarith), towardZero, if_pos h, Int.floor_neg]
  · rw [neg_zero, ← Int.cast_zero, towardZero_intCast, neg_zero]
  · rw [towardZero, if_pos (by linarith), towardZero, if_neg h.not_gt, Int.ceil_neg]

namespace Double

variable {x : Float} {v : ℚ}

theorem magnitude_down (m : ℕ) (e : ℤ) : (Rounding.down.magnitude m e : ℤ) = ⌊(m : ℚ) * 2 ^ e⌋ := by
  rw [Rounding.magnitude]
  split
  · rename_i he
    have hpow : (2 : ℚ) ^ e = 2 ^ e.toNat := by
      rw [← zpow_natCast, Int.toNat_of_nonneg he]
    have hcast : (m : ℚ) * 2 ^ e = ((m * Nat.pow 2 e.toNat : ℕ) : ℤ) := by
      rw [hpow, Nat.pow_eq]
      push_cast
      rfl
    rw [hcast, Int.floor_intCast]
  · rename_i he
    have hpow : (2 : ℚ) ^ e = (2 ^ (-e).toNat)⁻¹ := by
      rw [← zpow_natCast, Int.toNat_of_nonneg (by omega), zpow_neg, inv_inv]
    have hcast : (m : ℚ) * 2 ^ e = m / (Nat.pow 2 (-e).toNat : ℕ) := by
      rw [hpow, Nat.pow_eq, ← div_eq_mul_inv]
      push_cast
      rfl
    rw [hcast, Rat.floor_natCast_div_natCast]
    exact Int.natCast_ediv m _

theorem truncate?_finite (negative : Bool) (m : ℕ) (e : ℤ) :
    (Double.finite negative m e).truncate? =
      some (towardZero ((if negative then -1 else 1) * (m * 2 ^ e))) := by
  have hpos : 0 ≤ (m : ℚ) * 2 ^ e := mul_nonneg (Nat.cast_nonneg m) (two_zpow_pos e).le
  have hdown := (magnitude_down m e).trans (towardZero_of_nonneg hpos).symm
  rw [truncate?]
  cases negative with
  | true => rw [if_pos rfl, if_pos rfl, neg_one_mul, towardZero_neg, hdown]
  | false => rw [if_neg Bool.false_ne_true, if_neg Bool.false_ne_true, one_mul, hdown]

/-- **The integer part of a double** is that of its value. -/
theorem truncate?_eq_some (hx : HasValue x v) : Scalar.truncate? x = some (towardZero v) := by
  have hsign (s : UnpackedFloat.Sign) :
      (if s == .negative then -1 else 1 : ℚ) = (s.apply 1 : ℤ) := by
    cases s with
    | negative =>
      show (-1 : ℚ) = ((-1 : ℤ) : ℚ)
      rw [Int.cast_neg, Int.cast_one]
    | positive => exact Int.cast_one.symm
  change (ofFloat x).truncate? = some (towardZero v)
  rw [ofFloat_eq]
  rcases Represents.cases hx with ⟨s, hu, rfl⟩ | ⟨s, m, e, hm, hu, rfl⟩
  · rw [hu, ofUnpacked, truncate?_finite, Nat.cast_zero, zero_mul, mul_zero]
  · rw [hu, ofUnpacked, truncate?_finite, hsign, mul_assoc]

theorem truncate?_eq_none_iff : Scalar.truncate? x = none ↔ x.isFinite = false := by
  change (ofFloat x).truncate? = none ↔ x.toModel.unpack.isFinite = false
  rw [ofFloat_eq]
  cases x.toModel.unpack with
  | notANumber => exact iff_of_true rfl rfl
  | infinity => exact iff_of_true rfl rfl
  | zero => exact iff_of_false nofun nofun
  | finite => exact iff_of_false nofun nofun

/-- **Negation commutes with dropping what is behind the point**, for every double. -/
theorem truncate?_neg (x : Float) :
    Scalar.truncate? (-x) = (Scalar.truncate? x).map fun n ↦ -n := by
  cases hfinite : x.isFinite with
  | true =>
    obtain ⟨v, hv⟩ := exists_hasValue hfinite
    rw [truncate?_eq_some hv, truncate?_eq_some (hasValue_neg hv), towardZero_neg]
    rfl
  | false =>
    have hneg : (-x).isFinite = false := by
      change (-x).toModel.unpack.isFinite = false
      rw [unpack_neg]
      change x.toModel.unpack.isFinite = false at hfinite
      cases hu : x.toModel.unpack with
      | notANumber => rfl
      | infinity => rfl
      | _ =>
        rw [hu] at hfinite
        contradiction
    rw [truncate?_eq_none_iff.2 hfinite, truncate?_eq_none_iff.2 hneg]
    rfl

/-- **A duration of `x` seconds moves dates by `n` milliseconds**: a thousand times as much,
multiplied as doubles, without what is behind the point. -/
def Moves (x : Float) (n : ℤ) : Prop := ∃ v, HasValue (x * 1000) v ∧ towardZero v = n

theorem moves_iff {n : ℤ} :
    Moves x n ↔ Scalar.truncate? (x * Scalar.ofDecimal ⟨1000, 0⟩) = some n := by
  change (∃ v, HasValue (x * Scalar.ofDecimal ⟨1000, 0⟩) v ∧ towardZero v = n) ↔ _
  constructor
  · rintro ⟨v, hv, rfl⟩
    exact truncate?_eq_some hv
  · intro h
    cases hfinite : (x * Scalar.ofDecimal ⟨1000, 0⟩).isFinite with
    | true =>
      obtain ⟨v, hv⟩ := exists_hasValue hfinite
      rw [truncate?_eq_some hv] at h
      exact ⟨v, hv, Option.some.inj h⟩
    | false =>
      rw [truncate?_eq_none_iff.2 hfinite] at h
      contradiction

end Double

/-! ### The range of dates -/

namespace Date

variable {d e : Date} {n : ℤ}

theorem ofMillis?_eq_some_iff : ofMillis? n = some e ↔ e.millis = n := by
  rw [ofMillis?]
  split
  · rw [Option.some_inj, eq_comm, ext_iff_millis]
  · rename_i h
    refine iff_of_false nofun ?_
    rintro rfl
    exact h e.inRange

theorem ofMillis?_eq_none_iff : ofMillis? n = none ↔ n < firstMillis ∨ lastMillis < n := by
  rw [ofMillis?]
  split
  · refine iff_of_false nofun ?_
    omega
  · refine iff_of_true rfl ?_
    omega

/-- The count of milliseconds that stands for `n` with 64 bits: the nearest one there is. -/
def saturate (n : ℤ) : ℤ := max (-2 ^ 63) (min n (2 ^ 63 - 1))

/-- **Counting with 64 bits makes no difference**: a date that is moved further is out of range. -/
theorem ofMillis?_add_saturate (d : Date) (n : ℤ) :
    ofMillis? (d.millis + saturate n) = ofMillis? (d.millis + n) := by
  have hrange := d.inRange
  rw [firstMillis, lastMillis] at hrange
  by_cases h : saturate n = n
  · rw [h]
  · have hlarge : n < -2 ^ 63 ∧ saturate n = -2 ^ 63 ∨ 2 ^ 63 ≤ n ∧ saturate n = 2 ^ 63 - 1 := by
      rw [saturate] at h ⊢
      omega
    have hleft : ofMillis? (d.millis + saturate n) = none := by
      rw [ofMillis?_eq_none_iff, firstMillis, lastMillis]
      omega
    have hright : ofMillis? (d.millis + n) = none := by
      rw [ofMillis?_eq_none_iff, firstMillis, lastMillis]
      omega
    rw [hleft, hright]

/-- The smallest count, which no span of time has, leads out of range as well. -/
theorem ofMillis?_of_saturate_eq_least (d : Date) (h : saturate n = -2 ^ 63) :
    ofMillis? (d.millis + n) = none := by
  have hrange := d.inRange
  rw [firstMillis, lastMillis] at hrange
  rw [saturate] at h
  rw [ofMillis?_eq_none_iff, firstMillis, lastMillis]
  omega

end Date

/-! ### The rules -/

namespace Rules

variable {d : Date} {q : Quantity Float} {x : Float}

theorem shift_eq_ok_iff {v : Value Float} :
    shift d x = .ok v ↔
      ∃ n e, Scalar.truncate? x = some n ∧ e.millis = d.millis + n ∧ v = .date e := by
  rw [shift]
  cases hn : Scalar.truncate? x with
  | none =>
    refine iff_of_false nofun ?_
    rintro ⟨n, e, hsome, -⟩
    contradiction
  | some n =>
    rw [Option.bind_some]
    cases he : Date.ofMillis? (d.millis + n) with
    | none =>
      refine iff_of_false nofun ?_
      rintro ⟨k, e, hk, he', -⟩
      obtain rfl := Option.some.inj hk
      rw [Date.ofMillis?_eq_some_iff.2 he'] at he
      contradiction
    | some e =>
      have hmillis := Date.ofMillis?_eq_some_iff.1 he
      constructor
      · intro h
        exact ⟨n, e, rfl, hmillis, (Except.ok.inj h).symm⟩
      · rintro ⟨k, e', hk, he', rfl⟩
        obtain rfl := Option.some.inj hk
        obtain rfl := Date.ext_iff_millis.2 (hmillis.trans he'.symm)
        rfl

theorem shift_eq_error_iff {error : EvalError} :
    shift d x = .error error ↔ error = .dateOutOfRange ∧
      (Scalar.truncate? x = none ∨ ∃ n, Scalar.truncate? x = some n ∧
        (d.millis + n < firstMillis ∨ lastMillis < d.millis + n)) := by
  rw [shift]
  cases hn : Scalar.truncate? x with
  | none => simp [eq_comm]
  | some n =>
    rw [Option.bind_some]
    cases he : Date.ofMillis? (d.millis + n) with
    | none =>
      have hout := Date.ofMillis?_eq_none_iff.1 he
      simp [eq_comm, hout]
    | some e =>
      have hin := mt Date.ofMillis?_eq_none_iff.2 (by rw [he]; nofun)
      simp [hin]

theorem apply_add_date_quantity (d : Date) (q : Quantity Float) :
    standard.apply .add (.date d) (.quantity q) = durationMillis q >>= shift d :=
  apply_dateArithmetic (a := .date d) (b := .quantity q) (f := addDuration)
    (by simp [dateArithmetic, Value.kind])

theorem apply_add_quantity_date (d : Date) (q : Quantity Float) :
    standard.apply .add (.quantity q) (.date d) = durationMillis q >>= shift d :=
  apply_dateArithmetic (a := .quantity q) (b := .date d) (f := addDuration)
    (by simp [dateArithmetic, Value.kind])

theorem apply_subtract_date_quantity (d : Date) (q : Quantity Float) :
    standard.apply .subtract (.date d) (.quantity q) = durationMillis q >>= fun x ↦ shift d (-x) :=
  apply_dateArithmetic (a := .date d) (b := .quantity q) (f := subtractDuration)
    (by simp [dateArithmetic, Value.kind])

theorem durationMillis_of_ne (h : q.dimension ≠ .base .time) :
    durationMillis q = .error (.unitMismatch "Date" q.units.text) := by
  rw [durationMillis, if_neg]
  rwa [Dimension.isTime, decide_eq_true_iff]

theorem durationMillis_of_eq (h : q.dimension = .base .time) :
    durationMillis q = .ok (q.base * Scalar.ofDecimal ⟨1000, 0⟩) := by
  rw [durationMillis, if_pos]
  · rfl
  · rwa [Dimension.isTime, decide_eq_true_iff]

end Rules

namespace Date

open Rules Double

/-- **What happens to a date when a quantity is added or subtracted.** -/
structure ShiftLaws (apply : Operator → Value Float → Value Float → Except EvalError (Value Float))
    (d : Date) (q : Quantity Float) : Prop where
  /-- What is no duration cannot be added, in either order, nor subtracted. -/
  mismatch : q.dimension ≠ .base .time →
    apply .add (.date d) (.quantity q) = .error (.unitMismatch "Date" q.units.text) ∧
    apply .add (.quantity q) (.date d) = .error (.unitMismatch "Date" q.units.text) ∧
    apply .subtract (.date d) (.quantity q) = .error (.unitMismatch "Date" q.units.text)
  comm : q.dimension = .base .time →
    apply .add (.quantity q) (.date d) = apply .add (.date d) (.quantity q)
  /-- A sum is a date that is later by the milliseconds of the duration, and there is a way back. -/
  sum : q.dimension = .base .time → ∀ v, apply .add (.date d) (.quantity q) = .ok v →
    ∃ e n, v = .date e ∧ Moves q.base n ∧ e.millis = d.millis + n ∧
      apply .subtract (.date e) (.quantity q) = .ok (.date d)
  difference : q.dimension = .base .time → ∀ v, apply .subtract (.date d) (.quantity q) = .ok v →
    ∃ e n, v = .date e ∧ Moves q.base n ∧ e.millis = d.millis - n
  /-- A sum fails because it is out of range, and for no other reason. -/
  failure : q.dimension = .base .time → ∀ error,
    apply .add (.date d) (.quantity q) = .error error ↔ error = .dateOutOfRange ∧
      ((q.base * 1000).isFinite = false ∨
        ∃ n, Moves q.base n ∧ (d.millis + n < firstMillis ∨ lastMillis < d.millis + n))
  /-- The outcome is the same if milliseconds are counted with 64 bits and the smallest count is
  refused. -/
  saturated : ∀ n, ofMillis? (d.millis + saturate n) = ofMillis? (d.millis + n) ∧
    (saturate n = -2 ^ 63 → ofMillis? (d.millis + n) = none)

/-- **A duration that was added to a date can be subtracted again**, for every date and every
quantity. -/
theorem durations_undone (limits : Limits) (d : Date) (q : Quantity Float) :
    ShiftLaws (Engine.standard limits).rules.apply d q := by
  rw [Engine.standard_eq, Engine.rules_standardOver]
  refine
    { mismatch := fun h ↦ ?_
      comm := fun _ ↦ ?_
      sum := fun h v hv ↦ ?_
      difference := fun h v hv ↦ ?_
      failure := fun h error ↦ ?_
      saturated := fun n ↦ ⟨ofMillis?_add_saturate d n, ofMillis?_of_saturate_eq_least d⟩ }
  · rw [apply_add_date_quantity, apply_add_quantity_date, apply_subtract_date_quantity,
      durationMillis_of_ne h]
    exact ⟨rfl, rfl, rfl⟩
  · rw [apply_add_quantity_date, apply_add_date_quantity]
  · rw [apply_add_date_quantity, durationMillis_of_eq h] at hv
    obtain ⟨n, e, hn, he, rfl⟩ := shift_eq_ok_iff.1 hv
    refine ⟨e, n, rfl, moves_iff.2 hn, he, ?_⟩
    rw [apply_subtract_date_quantity, durationMillis_of_eq h]
    refine shift_eq_ok_iff.2 ⟨-n, d, ?_, by omega, rfl⟩
    rw [truncate?_neg, hn]
    rfl
  · rw [apply_subtract_date_quantity, durationMillis_of_eq h] at hv
    obtain ⟨n, e, hn, he, rfl⟩ := shift_eq_ok_iff.1 hv
    rw [truncate?_neg] at hn
    obtain ⟨m, hm, rfl⟩ := Option.map_eq_some_iff.1 hn
    exact ⟨e, m, rfl, moves_iff.2 hm, by omega⟩
  · rw [apply_add_date_quantity, durationMillis_of_eq h]
    have hnone : Scalar.truncate? (q.base * Scalar.ofDecimal ⟨1000, 0⟩) = none ↔
        (q.base * 1000).isFinite = false := truncate?_eq_none_iff
    simp only [moves_iff, ← hnone]
    exact shift_eq_error_iff

/-- A minute that was added to the start of 1970 can be subtracted again. -/
theorem durations_undone_minute :
    let d : Date := ⟨0, by decide⟩
    let q : Quantity Float := ⟨60, .single seconds⟩
    let apply := (Engine.standard {}).rules.apply
    q.dimension = .base .time ∧ ∃ e : Date, e.millis = 60000 ∧
      apply .add (.date d) (.quantity q) = .ok (.date e) ∧
      apply .subtract (.date e) (.quantity q) = .ok (.date d) := by
  intro d q apply
  have hdimension : q.dimension = .base .time := rfl
  have laws : ShiftLaws apply d q := durations_undone {} d q
  have hmillis : Scalar.truncate? ((60 : Float) * Scalar.ofDecimal ⟨1000, 0⟩) = some 60000 := by
    decide
  have hmoves {n : ℤ} (hn : Moves q.base n) : n = 60000 :=
    (Option.some.inj (hmillis.symm.trans (moves_iff.1 hn))).symm
  refine ⟨hdimension, ?_⟩
  cases hsum : apply .add (.date d) (.quantity q) with
  | error error =>
    obtain ⟨-, hinfinite | ⟨n, hn, hout⟩⟩ := (laws.failure hdimension error).1 hsum
    · exact absurd hinfinite (by decide)
    · rw [hmoves hn] at hout
      exact absurd hout (by decide)
  | ok v =>
    obtain ⟨e, n, rfl, hn, he, hback⟩ := laws.sum hdimension v hsum
    rw [hmoves hn] at he
    exact ⟨e, he, rfl, hback⟩

end Date

end Reckoner
