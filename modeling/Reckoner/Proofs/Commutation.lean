import Reckoner.Proofs.DateShifts
import Reckoner.Proofs.DisplayUnits

/-!
# Sums and products in either order

Addition and multiplication commute, for operands of all kinds. The two orders do not take the same
way: a number times a quantity and a quantity times a number have rules of their own, and so have a
date and a duration; a product of units merges the terms of the right factor into those of the left;
and a sum has the units of its left operand. What comes out is alike all the same, and products have
the same terms in some order (`Rules.sums_products_commute`).

Names have to determine units for this, as in everything about products. That doubles commute is not
an assumption: it holds for each pair of constructors of the unpacked operands.
-/

open Float.Model (Format UnpackedFloat)

namespace Reckoner

open Outcome (Agree)

/-! ### Doubles -/

namespace Double

theorem sign_mul_comm (s t : UnpackedFloat.Sign) : s * t = t * s := by
  cases s <;> cases t <;> rfl

theorem unpacked_add_comm (a b : UnpackedFloat) :
    UnpackedFloat.add Format.binary64 a b = UnpackedFloat.add Format.binary64 b a := by
  cases a <;> cases b
  case infinity.infinity s t | zero.zero s t => cases s <;> cases t <;> rfl
  case finite.finite s m e hm t n f hn =>
    simp only [UnpackedFloat.add, min_comm e f, Int.add_comm (s.apply _)]
  all_goals rfl

theorem unpacked_mul_comm (a b : UnpackedFloat) :
    UnpackedFloat.mul Format.binary64 a b = UnpackedFloat.mul Format.binary64 b a := by
  cases a <;> cases b <;>
    simp only [UnpackedFloat.mul, sign_mul_comm, Nat.mul_comm, Int.add_comm]

/-- Doubles are added in either order, -/
theorem sum_comm (x y : Float) : x + y = y + x := by
  change Float.ofModel (.pack (UnpackedFloat.add _ x.toModel.unpack y.toModel.unpack)) = _
  rw [unpacked_add_comm]
  rfl

/-- and multiplied. -/
theorem product_comm (x y : Float) : x * y = y * x := by
  change Float.ofModel (.pack (UnpackedFloat.mul _ x.toModel.unpack y.toModel.unpack)) = _
  rw [unpacked_mul_comm]
  rfl

end Double

/-! ### Units -/

/-- A value whose units, if it has any, are a well-formed product from a set. -/
def Value.UnitsFrom {K : Type} (S : Set (NamedUnit K)) (v : Value K) : Prop :=
  ∀ q, v = .quantity q → q.units.WellFormed ∧ Units.Within S q.units.terms

/-- Values that are alike, and if they have units, then these are the same terms in some order. -/
structure Value.AlikeInTerms {K : Type} (v w : Value K) : Prop where
  alike : v.Alike w
  reordered : ∀ q r, v = .quantity q → w = .quantity r →
    q.units.powerOf = r.units.powerOf ∧ q.units.Reordered r.units

namespace Units

variable {K : Type} {S : Set (NamedUnit K)} {us vs : Units K}

/-- **Units are multiplied in either order**: if there is a product, then the other order has one with
the same power of each name. -/
theorem agree_mul_comm (hS : S.InjOn NamedUnit.name) (hus : us.WellFormed)
    (hwithin : Within S us.terms) (hvs : vs.WellFormed) (hwithin' : Within S vs.terms) :
    Agree False (fun ws ws' ↦ ws.powerOf = ws'.powerOf ∧ ws.Reordered ws')
      (us.mul vs) (vs.mul us) := by
  obtain ⟨dim, hdim⟩ := exists_dimension_of_injOn hS
  have hsound : us.Sound dim := ⟨hus, fun t ht ↦ hdim _ (hwithin t ht)⟩
  have hsound' : vs.Sound dim := ⟨hvs, fun t ht ↦ hdim _ (hwithin' t ht)⟩
  cases hmul : us.mul vs with
  | ok ws =>
    obtain ⟨ws', hmul'⟩ := mul_swap hsound hsound' hmul
    have hpowers : ws.powerOf = ws'.powerOf := funext fun name ↦ by
      rw [powerOf_mul hmul, powerOf_mul hmul', Int.add_comm]
    rw [hmul']
    exact .ok ⟨hpowers, reordered_of_powerOf_eq hS (hsound.mul hsound' hmul).wellFormed
      (hwithin.mul hwithin' hmul) (hsound'.mul hsound hmul').wellFormed
      (hwithin'.mul hwithin hmul') hpowers⟩
  | error e =>
    obtain rfl := onlyOverflows_mul us vs e hmul
    cases hmul' : vs.mul us with
    | ok ws' =>
      obtain ⟨ws, hws⟩ := mul_swap hsound' hsound hmul'
      rw [hmul] at hws
      contradiction
    | error e =>
      obtain rfl := onlyOverflows_mul vs us e hmul'
      exact .error rfl

end Units

namespace Value

variable {K : Type} {v w : Value K}

/-- Quantities in units that are built from a set. -/
theorem unitsFrom_of_built {S : Set (NamedUnit K)} {q : Quantity K} (hS : S.InjOn NamedUnit.name)
    (h : Units.Built S q.units) : (quantity q).UnitsFrom S := by
  rintro _ ⟨⟩
  exact ⟨h.wellFormed hS, h.within⟩

theorem AlikeInTerms.refl (v : Value K) : v.AlikeInTerms v := by
  refine ⟨.refl v, ?_⟩
  rintro q _ rfl ⟨⟩
  exact ⟨rfl, .refl _, rfl⟩

theorem alikeInTerms_ofProduct [Scalar K] {x : K} {us vs : Units K} (h : us.powerOf = vs.powerOf)
    (hreordered : us.Reordered vs) :
    (Rules.ofProduct ⟨x, us⟩).AlikeInTerms (Rules.ofProduct ⟨x, vs⟩) := by
  refine ⟨Rules.ofProduct_alike ⟨rfl, hreordered.dimension_eq⟩, ?_⟩
  have hunits {ws : Units K} {q : Quantity K} (hq : Rules.ofProduct ⟨x, ws⟩ = .quantity q) :
      q.units = ws := by
    rw [Rules.ofProduct, ofNumber, ofQuantity] at hq
    split at hq
    all_goals split at hq
    all_goals cases hq
    rfl
  intro q r hq hr
  rw [hunits hq, hunits hr]
  exact ⟨h, hreordered⟩

end Value

/-! ### Operators -/

namespace Rules

/-- The operators and kinds of all rules. -/
def standardKeys : List RuleKey :=
  arithmeticKeys ++
    [(.add, .date, .quantity), (.add, .quantity, .date), (.subtract, .date, .quantity),
      (.subtract, .date, .date)]

variable {op : Operator} {a b : Value Float} {left right : Kind}

theorem apply_of_notMem (h : (op, a.kind, b.kind) ∉ standardKeys) :
    standard.apply op a b = .error (noRule op a b) := by
  rw [apply]
  split
  · rename_i f hget
    refine absurd ?_ h
    rw [standardKeys, List.mem_append]
    refine (mem_of_get?_standard hget).imp (fun hmem ↦ ?_) fun hmem ↦ ?_
    · rw [← keys_arithmeticRules (K := Float)]
      exact List.mem_map_of_mem hmem
    · exact List.mem_map_of_mem (f := Prod.fst) hmem
  · rfl

/-- The kinds that can be added. -/
theorem add_mem_standardKeys : (.add, left, right) ∈ standardKeys ↔
    (left = .number ∧ right = .number) ∨ (left = .quantity ∧ right = .quantity) ∨
      (left = .date ∧ right = .quantity) ∨ (left = .quantity ∧ right = .date) := by
  cases left <;> cases right <;> decide

/-- The kinds that can be multiplied. -/
theorem multiply_mem_standardKeys : (.multiply, left, right) ∈ standardKeys ↔
    (left = .number ∧ right = .number) ∨ (left = .quantity ∧ right = .quantity) ∨
      (left = .quantity ∧ right = .number) ∨ (left = .number ∧ right = .quantity) := by
  cases left <;> cases right <;> decide

theorem apply_numbers (hop : op ∈ arithmetic) (x y : Float) :
    standard.apply op (.number x) (.number y) = calculate op (.number x) (.number y) := by
  refine apply_standard (a := .number x) (b := .number y) ?_
  rw [arithmeticRules, List.mem_append, List.mem_append]
  exact .inl (.inl (List.mem_map_of_mem hop))

theorem apply_add_quantities (q r : Quantity Float) :
    standard.apply .add (.quantity q) (.quantity r) =
      addQuantities .add (.quantity q) (.quantity r) :=
  apply_standard (a := .quantity q) (b := .quantity r) (by simp [arithmeticRules, Value.kind])

theorem apply_multiply_quantities (q r : Quantity Float) :
    standard.apply .multiply (.quantity q) (.quantity r) =
      multiplyQuantities .multiply (.quantity q) (.quantity r) :=
  apply_standard (a := .quantity q) (b := .quantity r) (by simp [arithmeticRules, Value.kind])

theorem apply_multiply_quantity_number (q : Quantity Float) (x : Float) :
    standard.apply .multiply (.quantity q) (.number x) = scale .multiply q x :=
  apply_standard (a := .quantity q) (b := .number x) (f := scaleQuantity)
    (by simp [arithmeticRules, Value.kind])

theorem apply_multiply_number_quantity (q : Quantity Float) (x : Float) :
    standard.apply .multiply (.number x) (.quantity q) = scale .multiply q x :=
  apply_standard (a := .number x) (b := .quantity q) (f := scaleQuantity)
    (by simp [arithmeticRules, Value.kind])

theorem addQuantities_comm (q r : Quantity Float) :
    Agree False Value.Alike (addQuantities .add (.quantity q) (.quantity r))
      (addQuantities .add (.quantity r) (.quantity q)) := by
  rw [addQuantities, addQuantities, Quantity.ensureSameDimension, Quantity.ensureSameDimension]
  by_cases h : q.dimension = r.dimension
  · rw [if_pos h, if_pos h.symm]
    exact .ok (.ofQuantity ⟨Double.sum_comm q.base r.base, h⟩)
  · rw [if_neg h, if_neg (Ne.symm h)]
    exact .error rfl

/-- **Sums are alike in either order.** -/
theorem add_comm_alike (a b : Value Float) :
    Agree False Value.Alike (standard.apply .add a b) (standard.apply .add b a) := by
  by_cases hkey : (.add, a.kind, b.kind) ∈ standardKeys
  · rcases add_mem_standardKeys.1 hkey with ⟨ha, hb⟩ | ⟨ha, hb⟩ | ⟨ha, hb⟩ | ⟨ha, hb⟩
    · obtain ⟨x, rfl⟩ := Value.exists_number_of_kind ha
      obtain ⟨y, rfl⟩ := Value.exists_number_of_kind hb
      rw [apply_numbers (by decide), apply_numbers (by decide), calculate, calculate,
        Double.sum_comm]
      exact .ok (.refl _)
    · obtain ⟨q, rfl⟩ := Value.exists_quantity_of_kind ha
      obtain ⟨r, rfl⟩ := Value.exists_quantity_of_kind hb
      rw [apply_add_quantities, apply_add_quantities]
      exact addQuantities_comm q r
    · obtain ⟨d, rfl⟩ := Value.exists_date_of_kind ha
      obtain ⟨q, rfl⟩ := Value.exists_quantity_of_kind hb
      rw [apply_add_date_quantity, apply_add_quantity_date]
      exact .refl .refl _
    · obtain ⟨q, rfl⟩ := Value.exists_quantity_of_kind ha
      obtain ⟨d, rfl⟩ := Value.exists_date_of_kind hb
      rw [apply_add_date_quantity, apply_add_quantity_date]
      exact .refl .refl _
  · have hkey' : (.add, b.kind, a.kind) ∉ standardKeys := by
      rw [add_mem_standardKeys] at hkey ⊢
      tauto
    rw [apply_of_notMem hkey, apply_of_notMem hkey']
    exact .error rfl

variable {S : Set (NamedUnit Float)}

theorem multiplyQuantities_comm (hS : S.InjOn NamedUnit.name) {q r : Quantity Float}
    (hq : (Value.quantity q).UnitsFrom S) (hr : (Value.quantity r).UnitsFrom S) :
    Agree False Value.AlikeInTerms (multiplyQuantities .multiply (.quantity q) (.quantity r))
      (multiplyQuantities .multiply (.quantity r) (.quantity q)) := by
  obtain ⟨hqunits, hqwithin⟩ := hq q rfl
  obtain ⟨hrunits, hrwithin⟩ := hr r rfl
  rw [multiplyQuantities, multiplyQuantities, if_neg (by decide), if_neg (by decide),
    Double.product_comm r.base]
  exact (Units.agree_mul_comm hS hqunits hqwithin hrunits hrwithin).map fun _ _ h ↦
    Value.alikeInTerms_ofProduct h.1 h.2

/-- **Products are alike in either order**, terms included. -/
theorem multiply_comm_alike (hS : S.InjOn NamedUnit.name) (ha : a.UnitsFrom S)
    (hb : b.UnitsFrom S) :
    Agree False Value.AlikeInTerms (standard.apply .multiply a b)
      (standard.apply .multiply b a) := by
  by_cases hkey : (.multiply, a.kind, b.kind) ∈ standardKeys
  · rcases multiply_mem_standardKeys.1 hkey with h | h | h | h <;> obtain ⟨hkind, hkind'⟩ := h
    · obtain ⟨x, rfl⟩ := Value.exists_number_of_kind hkind
      obtain ⟨y, rfl⟩ := Value.exists_number_of_kind hkind'
      rw [apply_numbers (by decide), apply_numbers (by decide), calculate, calculate,
        Double.product_comm]
      exact .ok (.refl _)
    · obtain ⟨q, rfl⟩ := Value.exists_quantity_of_kind hkind
      obtain ⟨r, rfl⟩ := Value.exists_quantity_of_kind hkind'
      rw [apply_multiply_quantities, apply_multiply_quantities]
      exact multiplyQuantities_comm hS ha hb
    · obtain ⟨q, rfl⟩ := Value.exists_quantity_of_kind hkind
      obtain ⟨x, rfl⟩ := Value.exists_number_of_kind hkind'
      rw [apply_multiply_quantity_number, apply_multiply_number_quantity]
      exact .refl .refl _
    · obtain ⟨x, rfl⟩ := Value.exists_number_of_kind hkind
      obtain ⟨q, rfl⟩ := Value.exists_quantity_of_kind hkind'
      rw [apply_multiply_quantity_number, apply_multiply_number_quantity]
      exact .refl .refl _
  · have hkey' : (.multiply, b.kind, a.kind) ∉ standardKeys := by
      rw [multiply_mem_standardKeys] at hkey ⊢
      tauto
    rw [apply_of_notMem hkey, apply_of_notMem hkey']
    exact .error rfl

/-- **Addition and multiplication commute**, for values of all kinds whose units are well formed and
determined by their names. In either order there is a result or there is none for the same cause.
The results are alike: sums up to the units in which they are displayed, and products up to the order
of the terms of these. -/
theorem sums_products_commute (limits : Limits) (hS : S.InjOn NamedUnit.name)
    (ha : a.UnitsFrom S) (hb : b.UnitsFrom S) :
    let rules := (Engine.standard limits).rules
    Agree False Value.Alike (rules.apply .add a b) (rules.apply .add b a) ∧
      Agree False Value.AlikeInTerms (rules.apply .multiply a b) (rules.apply .multiply b a) := by
  rw [Engine.standard_eq, Engine.rules_standardOver]
  exact ⟨add_comm_alike a b, multiply_comm_alike hS ha hb⟩

/-- Three metres and two seconds, multiplied and added in either order. -/
theorem sums_products_commute_metre_seconds :
    let m : NamedUnit Float := ⟨"m", .base .length, 1⟩
    let a : Value Float := .quantity (.ofValue 3 (.single m))
    let b : Value Float := .quantity (.ofValue 2 (.single seconds))
    let rules := (Engine.standard {}).rules
    Set.InjOn NamedUnit.name {m, seconds} ∧ a.UnitsFrom {m, seconds} ∧ b.UnitsFrom {m, seconds} ∧
      Agree False Value.Alike (rules.apply .add a b) (rules.apply .add b a) ∧
      Agree False Value.AlikeInTerms (rules.apply .multiply a b) (rules.apply .multiply b a) := by
  intro m a b rules
  have hS : Set.InjOn NamedUnit.name {m, seconds} := by
    rintro u (rfl | rfl) v (rfl | rfl) h
    · rfl
    · exact absurd h (by decide)
    · exact absurd h (by decide)
    · rfl
  have ha : a.UnitsFrom {m, seconds} := Value.unitsFrom_of_built hS (.single (.inl rfl))
  have hb : b.UnitsFrom {m, seconds} := Value.unitsFrom_of_built hS (.single (.inr rfl))
  exact ⟨hS, ha, hb, sums_products_commute {} hS ha hb⟩

end Rules

end Reckoner
