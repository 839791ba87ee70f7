import Mathlib
import Reckoner.Proofs.DateComparison

/-!
# The order of numbers and quantities

Numbers are compared by what they are, quantities of one dimension by their magnitudes in base units
(`ComparedBy`). All six comparisons rest on two questions, whether two doubles count as equal and
whether one is less than the other, and the answers fit together (`OrderLaws`): doubles that do not
count as equal are ordered in exactly one way, and it does not matter on which side they stand.

The order is that of the values as far as these are not nearly equal. Infinities are no part of it:
an infinity counts as equal to every number, and to its opposite.
-/

namespace Reckoner

/-- The comparison that says the same with its sides exchanged. -/
def Operator.converse : Operator → Operator
  | .less => .greater
  | .lessEqual => .greaterEqual
  | .greater => .less
  | .greaterEqual => .lessEqual
  | op => op

namespace Rules

open Double

/-! ### Doubles -/

section

variable {a b : Float} {op : Operator}

theorem nearlyEqual_comm (ha : a.isNaN = false) (hb : b.isNaN = false) :
    Scalar.nearlyEqual a b = Scalar.nearlyEqual b a := by
  by_cases h : a.isInf = true ∨ b.isInf = true
  · rw [nearlyEqual_of_isInf ha hb h, nearlyEqual_of_isInf hb ha h.symm]
  · obtain ⟨v, hv⟩ | ⟨s, hs⟩ := exists_hasValue_or_isInfinity ha
    · obtain ⟨w, hw⟩ | ⟨t, ht⟩ := exists_hasValue_or_isInfinity hb
      · rw [Bool.eq_iff_iff, nearlyEqual_iff hv hw, nearlyEqual_iff hw hv, near_comm]
      · exact absurd (.inr ht.isInf) h
    · exact absurd (.inl hs.isInf) h

/-- Doubles that do not count as equal are ordered in one way. -/
theorem lt_eq_not_lt (ha : a.isNaN = false) (hb : b.isNaN = false)
    (h : Scalar.nearlyEqual a b = false) : Scalar.lt b a = !Scalar.lt a b := by
  obtain ⟨v, hv⟩ | ⟨s, hs⟩ := exists_hasValue_or_isInfinity ha
  · obtain ⟨w, hw⟩ | ⟨t, ht⟩ := exists_hasValue_or_isInfinity hb
    · have hne : v ≠ w := by
        rintro rfl
        rw [(nearlyEqual_iff hv hw).2 (near_self v)] at h
        contradiction
      have hlt : Scalar.lt a b = true ↔ v < w := decide_eq_true_iff.trans (lt_iff hv hw)
      have hgt : Scalar.lt b a = true ↔ w < v := decide_eq_true_iff.trans (lt_iff hw hv)
      rw [Bool.eq_iff_iff, Bool.not_eq_true', ← Bool.not_eq_true, hgt, hlt, not_lt]
      exact hne.symm.le_iff_lt.symm
    · rw [nearlyEqual_of_isInf ha hb (.inr ht.isInf)] at h
      contradiction
  · rw [nearlyEqual_of_isInf ha hb (.inl hs.isInf)] at h
    contradiction

theorem holds_converse (ha : a.isNaN = false) (hb : b.isNaN = false) (op : Operator) :
    holds op.converse b a = holds op a b := by
  cases op <;> simp only [Operator.converse, holds, nearlyEqual_comm hb ha]

/-- Which of three comparisons holds. -/
def outcome (a b : Float) : Operator :=
  if Scalar.nearlyEqual a b then .equal else if Scalar.lt a b then .less else .greater

theorem outcome_mem (a b : Float) : outcome a b ∈ [Operator.less, .equal, .greater] := by
  rw [outcome]
  split
  · decide
  · split <;> decide

/-- **Exactly one of them holds.** -/
theorem holds_iff_eq_outcome (ha : a.isNaN = false) (hb : b.isNaN = false)
    (hop : op ∈ [Operator.less, .equal, .greater]) : holds op a b = true ↔ op = outcome a b := by
  have horder := lt_eq_not_lt ha hb
  simp only [List.mem_cons, List.not_mem_nil, or_false] at hop
  cases hsame : Scalar.nearlyEqual a b with
  | true => rcases hop with rfl | rfl | rfl <;> simp [holds, outcome, hsame]
  | false =>
    rw [hsame] at horder
    cases hlt : Scalar.lt a b <;> rcases hop with rfl | rfl | rfl <;>
      simp [holds, outcome, hsame, hlt, horder]

end

/-! ### Values -/

/-- **What two values are compared by**: numbers by what they are, quantities of one dimension by
their magnitudes in base units. -/
inductive ComparedBy : Value Float → Value Float → Float → Float → Prop
  | number (a b : Float) : ComparedBy (.number a) (.number b) a b
  | quantity {q r : Quantity Float} (h : q.dimension = r.dimension) :
    ComparedBy (.quantity q) (.quantity r) q.base r.base

variable {l r : Value Float} {a b : Float} {op : Operator}

theorem ComparedBy.symm (h : ComparedBy l r a b) : ComparedBy r l b a := by
  cases h with
  | number a b => exact .number b a
  | quantity h => exact .quantity h.symm

theorem converse_mem (hop : op ∈ comparisons) : op.converse ∈ comparisons := by
  revert op
  decide

theorem apply_comparison (limits : Limits) (h : ComparedBy l r a b) (hop : op ∈ comparisons) :
    (Engine.standard limits).rules.apply op l r = .ok (truth (holds op a b)) := by
  rw [Engine.standard_eq, Engine.rules_standardOver]
  cases h with
  | number a b =>
    have hmem : ((op, .number, .number), compareNumbers (K := Float)) ∈ arithmeticRules :=
      mem_arithmeticRules_of_comparison hop (by simp)
    exact apply_standard (a := .number a) (b := .number b) hmem
  | @quantity q r h =>
    have hmem : ((op, .quantity, .quantity), compareQuantities (K := Float)) ∈ arithmeticRules :=
      mem_arithmeticRules_of_comparison hop (by simp)
    rw [apply_standard (a := .quantity q) (b := .quantity r) hmem, compareQuantities,
      Quantity.ensureSameDimension, if_pos h]
    rfl

/-- **The laws of an order** for the comparisons of two values by two doubles. -/
structure OrderLaws (apply : Operator → Value Float → Value Float → Except EvalError (Value Float))
    (l r : Value Float) (a b : Float) : Prop where
  decides : ∀ op ∈ comparisons, ∃ c, apply op l r = .ok (truth c)
  trichotomy : ∃! op, op ∈ [Operator.less, .equal, .greater] ∧ apply op l r = .ok (truth true)
  lessEqual : apply .lessEqual l r = .ok (truth true) ↔
    apply .less l r = .ok (truth true) ∨ apply .equal l r = .ok (truth true)
  greaterEqual : apply .greaterEqual l r = .ok (truth true) ↔
    apply .greater l r = .ok (truth true) ∨ apply .equal l r = .ok (truth true)
  notEqual : apply .notEqual l r = .ok (truth true) ↔ ¬apply .equal l r = .ok (truth true)
  /-- The sides may be exchanged. -/
  converse : ∀ op ∈ comparisons, apply op.converse r l = apply op l r
  equal_iff : ∀ v w, HasValue a v → HasValue b w →
    (apply .equal l r = .ok (truth true) ↔ Near v w)
  less_iff : ∀ v w, HasValue a v → HasValue b w →
    (apply .less l r = .ok (truth true) ↔ v < w ∧ ¬Near v w)
  /-- Infinities are no part of the order. -/
  infinite : a.isInf = true ∨ b.isInf = true → apply .equal l r = .ok (truth true)

/-- A comparison yields one exactly if it holds. -/
theorem apply_eq_ok_true_iff (limits : Limits) (h : ComparedBy l r a b) (hop : op ∈ comparisons) :
    (Engine.standard limits).rules.apply op l r = .ok (truth true) ↔ holds op a b = true := by
  rw [apply_comparison limits h hop]
  exact ⟨fun hok ↦ truth_injective (Except.ok.inj hok), fun hholds ↦ by rw [hholds]⟩

/-- **Comparisons order all that is defined**, but for infinities, which count as equal to
everything. -/
theorem comparisons_order (limits : Limits) (h : ComparedBy l r a b) (ha : a.isNaN = false)
    (hb : b.isNaN = false) : OrderLaws (Engine.standard limits).rules.apply l r a b := by
  have hyields {op : Operator} (hop : op ∈ comparisons) := apply_eq_ok_true_iff limits h hop
  have hequal := hyields (by decide : .equal ∈ comparisons)
  have hless := hyields (by decide : .less ∈ comparisons)
  have hgreater := hyields (by decide : .greater ∈ comparisons)
  refine
    { decides := fun op hop ↦ ⟨_, apply_comparison limits h hop⟩
      trichotomy := ?_
      lessEqual := ?_
      greaterEqual := ?_
      notEqual := ?_
      converse := fun op hop ↦ ?_
      equal_iff := fun v w hv hw ↦ hequal.trans (nearlyEqual_iff hv hw)
      less_iff := fun v w hv hw ↦ ?_
      infinite := fun hinf ↦ hequal.2 (nearlyEqual_of_isInf ha hb hinf) }
  · have hmem {op : Operator} (hop : op ∈ [Operator.less, .equal, .greater]) : op ∈ comparisons := by
      revert op
      decide
    have hone {op : Operator} (hop : op ∈ [Operator.less, .equal, .greater]) :=
      (hyields (hmem hop)).trans (holds_iff_eq_outcome ha hb hop)
    exact ⟨outcome a b, ⟨outcome_mem a b, (hone (outcome_mem a b)).2 rfl⟩,
      fun op hop ↦ (hone hop.1).1 hop.2⟩
  · rw [hyields (by decide), hless, hequal]
    cases hlt : Scalar.lt a b <;> cases hsame : Scalar.nearlyEqual a b <;> simp [holds, hlt, hsame]
  · rw [hyields (by decide), hgreater, hequal]
    cases hlt : Scalar.lt b a <;> cases hsame : Scalar.nearlyEqual a b <;> simp [holds, hlt, hsame]
  · rw [hyields (by decide), hequal]
    simp [holds]
  · rw [apply_comparison limits h.symm (converse_mem hop), apply_comparison limits h hop,
      holds_converse ha hb]
  · have hlt : Scalar.lt a b = true ↔ v < w := decide_eq_true_iff.trans (lt_iff hv hw)
    rw [hless, ← nearlyEqual_iff hv hw, ← hlt]
    simp [holds]

/-- Zero is less than one. -/
theorem comparisons_order_zero_one :
    let apply := (Engine.standard {}).rules.apply
    let zero : Float := Scalar.ofDecimal ⟨0, 0⟩
    OrderLaws apply (.number zero) (.number 1) zero 1 ∧
      apply .less (.number zero) (.number 1) = .ok (truth true) := by
  intro apply zero
  have laws : OrderLaws apply (.number zero) (.number 1) zero 1 :=
    comparisons_order {} (.number zero 1) (by decide) (by decide)
  refine ⟨laws, (laws.less_iff 0 1 hasValue_zero hasValue_one).2 ⟨zero_lt_one, ?_⟩⟩
  have hone : nearestDouble |0 - 1| = 1 := by
    rw [zero_sub, abs_neg, abs_one]
    exact hasValue_one.nearestDouble_eq
  have htolerance : nearestDouble (toleranceValue * max |0| |1|) = toleranceValue := by
    rw [abs_zero, abs_one, max_eq_right zero_le_one, mul_one]
    exact hasValue_tolerance.nearestDouble_eq
  rw [Near, hone, htolerance]
  norm_num [toleranceValue]

/-- The infinity counts as equal to five, and it is not above its opposite. -/
theorem exists_infinity_equal :
    let infinity : Float := 1 / 0
    let apply := (Engine.standard {}).rules.apply
    infinity.isInf = true ∧ (5 : Float).isInf = false ∧ (-infinity).isInf = true ∧
      apply .equal (.number infinity) (.number 5) = .ok (truth true) ∧
      apply .greater (.number infinity) (.number (-infinity)) = .ok (truth false) := by
  intro infinity apply
  have hfive : ComparedBy (.number infinity) (.number 5) infinity 5 := .number _ _
  have hopposite : ComparedBy (.number infinity) (.number (-infinity)) infinity (-infinity) :=
    .number _ _
  have hholds : holds .greater infinity (-infinity) = false := by decide
  have hgreater := apply_comparison {} hopposite (by decide : .greater ∈ comparisons)
  rw [hholds] at hgreater
  exact ⟨by decide, by decide, by decide,
    (apply_eq_ok_true_iff {} hfive (by decide)).2 (by decide), hgreater⟩

end Rules

end Reckoner
