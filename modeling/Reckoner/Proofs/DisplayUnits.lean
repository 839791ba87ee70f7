import Mathlib.Data.List.Forall2
import Reckoner.Proofs.StandardRules
import Reckoner.Proofs.UnitGroup

/-!
# Display units do not influence arithmetic

The units of a quantity are there for display: operators and aggregates look at its magnitude in base
units and at its dimension, and at nothing else. So two quantities that are alike in these two can
stand for each other (`Rules.apply_alike`, `Functions.aggregate_alike`), and a quantity can be replaced
by what any chain of conversions makes of it (`Quantity.conversions_interchangeable`).

Two things do depend on the units. The message about units that do not match names them, so failures
are compared by their causes. And a product merges terms by their names, so it is possible that a power
of one choice of units leaves its range while another choice, in which these units cancel out, has no
such power. This concerns the three operators that combine units, and there it is the only difference
(`Units.agree_mul` and its companions).
-/

namespace Reckoner

/-! ### Outcomes -/

/-- Two failures have the same cause, whatever their messages say about it. -/
def EvalError.SameCause (e f : EvalError) : Prop := e.ctorIdx = f.ctorIdx

/-- **Two outcomes agree**: both are results and these are related, or both are failures with the same
cause. If `overflows` holds, then it is also possible that just one of them is the overflow of an
exponent. -/
inductive Outcome.Agree {α β : Type} (overflows : Prop) (R : α → β → Prop) :
    Except EvalError α → Except EvalError β → Prop
  | ok {a b} : R a b → Agree overflows R (.ok a) (.ok b)
  | error {e f} : e.SameCause f → Agree overflows R (.error e) (.error f)
  | left {b} : overflows → Agree overflows R (.error .exponentOverflow) (.ok b)
  | right {a} : overflows → Agree overflows R (.ok a) (.error .exponentOverflow)

namespace Outcome.Agree

variable {α β γ δ : Type} {overflows : Prop} {R : α → β → Prop} {S : γ → δ → Prop}
  {x : Except EvalError α} {y : Except EvalError β}

theorem refl {R : α → α → Prop} (hR : ∀ a, R a a) (x : Except EvalError α) :
    Agree overflows R x x := by
  cases x with
  | ok a => exact .ok (hR a)
  | error e => exact .error rfl

theorem imp {overflows' : Prop} (h : Agree overflows R x y) (hoverflows : overflows → overflows') :
    Agree overflows' R x y := by
  cases h with
  | ok hab => exact .ok hab
  | error he => exact .error he
  | left h => exact .left (hoverflows h)
  | right h => exact .right (hoverflows h)

/-- Computations that agree go on to outcomes that agree. -/
theorem bind {f : α → Except EvalError γ} {g : β → Except EvalError δ} (h : Agree False R x y)
    (hnext : ∀ a b, R a b → Agree overflows S (f a) (g b)) : Agree overflows S (x >>= f) (y >>= g) := by
  cases h with
  | ok hab => exact hnext _ _ hab
  | error he => exact .error he
  | left h => exact h.elim
  | right h => exact h.elim

/-- A result that is put together from related results is related, with the same overflows. -/
theorem map {f : α → γ} {g : β → δ} (h : Agree overflows R x y) (hnext : ∀ a b, R a b → S (f a) (g b)) :
    Agree overflows S (x >>= fun a ↦ .ok (f a)) (y >>= fun b ↦ .ok (g b)) := by
  cases h with
  | ok hab => exact .ok (hnext _ _ hab)
  | error he => exact .error he
  | left h => exact .left h
  | right h => exact .right h

/-- What fails by overflow only agrees as far as there are results. -/
theorem of_onlyOverflows (hx : OnlyOverflows x) (hy : OnlyOverflows y)
    (h : ∀ a b, x = .ok a → y = .ok b → R a b) : Agree True R x y := by
  cases x with
  | ok a =>
    cases y with
    | ok b => exact .ok (h a b rfl rfl)
    | error f =>
      obtain rfl := hy f rfl
      exact .right trivial
  | error e =>
    obtain rfl := hx e rfl
    cases y with
    | ok b => exact .left trivial
    | error f =>
      obtain rfl := hy f rfl
      exact .error rfl

end Outcome.Agree

open Outcome (Agree)

/-! ### Quantities and values -/

/-- **Quantities that are alike** but for the units in which they are displayed. -/
structure Quantity.Alike {K : Type} (q r : Quantity K) : Prop where
  base_eq : q.base = r.base
  dimension_eq : q.dimension = r.dimension

/-- **Values that are alike**: they are the same, or they are quantities that are alike. -/
inductive Value.Alike {K : Type} : Value K → Value K → Prop
  | refl (v : Value K) : Alike v v
  | quantity {q r : Quantity K} : q.Alike r → Alike (.quantity q) (.quantity r)

section

variable {K : Type} {q r q' r' : Quantity K} {v w : Value K}

theorem Quantity.Alike.refl (q : Quantity K) : q.Alike q := ⟨rfl, rfl⟩

theorem Quantity.Alike.withBase (h : q.Alike r) (x : K) : (q.withBase x).Alike (r.withBase x) :=
  ⟨rfl, h.dimension_eq⟩

namespace Value

theorem Alike.kind_eq (h : v.Alike w) : v.kind = w.kind := by
  cases h <;> rfl

theorem Alike.eq_of_kind_ne (h : v.Alike w) (hkind : v.kind ≠ .quantity) : v = w := by
  cases h with
  | refl => rfl
  | quantity => exact absurd rfl hkind

theorem Alike.exists_quantity (h : v.Alike w) (hkind : v.kind = .quantity) :
    ∃ q r, v = .quantity q ∧ w = .quantity r ∧ q.Alike r := by
  cases h with
  | refl =>
    cases v with
    | quantity q => exact ⟨q, q, rfl, rfl, .refl q⟩
    | _ => contradiction
  | quantity h => exact ⟨_, _, rfl, rfl, h⟩

theorem exists_number_of_kind (h : v.kind = .number) : ∃ x, v = .number x := by
  cases v with
  | number x => exact ⟨x, rfl⟩
  | _ => contradiction

theorem exists_quantity_of_kind (h : v.kind = .quantity) : ∃ q, v = .quantity q := by
  cases v with
  | quantity q => exact ⟨q, rfl⟩
  | _ => contradiction

theorem exists_date_of_kind (h : v.kind = .date) : ∃ d, v = .date d := by
  cases v with
  | date d => exact ⟨d, rfl⟩
  | _ => contradiction

theorem Alike.ofQuantity [Scalar K] (h : q.Alike r) : (ofQuantity q).Alike (ofQuantity r) := by
  rw [Value.ofQuantity, Value.ofQuantity, h.base_eq]
  split
  · exact .refl _
  · exact .quantity h

end Value

/-- Whether two quantities can be compared or added depends on their dimensions. -/
theorem Quantity.agree_ensureSameDimension (hq : q.Alike q') (hr : r.Alike r') :
    Agree False (fun _ _ ↦ True) (q.ensureSameDimension r) (q'.ensureSameDimension r') := by
  rw [ensureSameDimension, ensureSameDimension, hq.dimension_eq, hr.dimension_eq]
  split
  · exact .ok trivial
  · exact .error rfl

end

/-! ### Combined units -/

namespace Units

variable {K : Type} {us us' vs vs' : Units K}

/-- Two products of units have the same dimension. -/
def SameDimension (us vs : Units K) : Prop := us.dimension = vs.dimension

/-- A product has the dimension of its factors, if they and their product exist. -/
theorem agree_mul (hus : us.SameDimension us') (hvs : vs.SameDimension vs') :
    Agree True SameDimension (us.mul vs) (us'.mul vs') := by
  refine .of_onlyOverflows (onlyOverflows_mul us vs) (onlyOverflows_mul us' vs') fun ws ws' h h' ↦ ?_
  refine Dimension.ext_exponent fun i ↦ ?_
  rw [exponent_mul h, exponent_mul h', hus, hvs]

/-- Seconds are alike with and without units in front of them that cancel out, and the square of the
one exists while that of the other has a power that is too large. -/
example :
    let m : NamedUnit ℚ := ⟨"m", .base .length, 1⟩
    let km : NamedUnit ℚ := ⟨"km", .base .length, 1000⟩
    let s : NamedUnit ℚ := ⟨"s", .base .time, 1⟩
    let us : Units ℚ := ⟨[⟨m, 2 ^ 30⟩, ⟨km, -2 ^ 30⟩, ⟨s, 1⟩], .base .time⟩
    us.dimension = (single s).dimension ∧ ((single s).mul (single s)).isOk = true ∧
      (us.mul us).isOk = false := by
  decide

theorem agree_div (hus : us.SameDimension us') (hvs : vs.SameDimension vs') :
    Agree True SameDimension (us.div vs) (us'.div vs') := by
  refine .of_onlyOverflows (onlyOverflows_div us vs) (onlyOverflows_div us' vs') fun ws ws' h h' ↦ ?_
  refine Dimension.ext_exponent fun i ↦ ?_
  rw [exponent_div h, exponent_div h', hus, hvs]

theorem agree_pow (hus : us.SameDimension us') (n : Int) :
    Agree True SameDimension (us.pow n) (us'.pow n) := by
  refine .of_onlyOverflows (onlyOverflows_pow us n) (onlyOverflows_pow us' n) fun ws ws' h h' ↦ ?_
  refine Dimension.ext_exponent fun i ↦ ?_
  rw [exponent_pow h, exponent_pow h', hus]

end Units

/-! ### Operators -/

/-- The operators that combine the units of their operands. -/
def Operator.CombinesUnits (op : Operator) : Prop := op = .multiply ∨ op = .divide ∨ op = .power

namespace Rules

variable {K : Type} {op : Operator} {overflows : Prop}

/-- A rule respects alike operands of its kinds. -/
def Respects (key : RuleKey) (f : Handler K) : Prop :=
  ∀ ⦃a a' b b' : Value K⦄, a.kind = key.2.1 → b.kind = key.2.2 → a.Alike a' → b.Alike b' →
    Agree key.1.CombinesUnits Value.Alike (f key.1 a b) (f key.1 a' b')

theorem respects_of_ne {left right : Kind} (hleft : left ≠ .quantity) (hright : right ≠ .quantity)
    (f : Handler K) : Respects (op, left, right) f := by
  intro a a' b b' ha hb hab hbb
  rw [hab.eq_of_kind_ne (ha ▸ hleft), hbb.eq_of_kind_ne (hb ▸ hright)]
  exact .refl Value.Alike.refl _

theorem respects_quantities {f : Handler K} (hoverflows : overflows → op.CombinesUnits)
    (h : ∀ {q q' r r' : Quantity K}, q.Alike q' → r.Alike r' →
      Agree overflows Value.Alike (f op (.quantity q) (.quantity r))
        (f op (.quantity q') (.quantity r'))) : Respects (op, .quantity, .quantity) f := by
  intro a a' b b' ha hb hab hbb
  obtain ⟨q, q', rfl, rfl, hq⟩ := hab.exists_quantity ha
  obtain ⟨r, r', rfl, rfl, hr⟩ := hbb.exists_quantity hb
  exact (h hq hr).imp hoverflows

/-- A rule for a quantity and something else. -/
theorem respects_quantity_left {f : Handler K} {kind : Kind} (hkind : kind ≠ .quantity)
    (hoverflows : overflows → op.CombinesUnits)
    (h : ∀ {q q' : Quantity K} {b : Value K}, b.kind = kind → q.Alike q' →
      Agree overflows Value.Alike (f op (.quantity q) b) (f op (.quantity q') b)) :
    Respects (op, .quantity, kind) f := by
  intro a a' b b' ha hb hab hbb
  obtain ⟨q, q', rfl, rfl, hq⟩ := hab.exists_quantity ha
  obtain rfl := hbb.eq_of_kind_ne (hb ▸ hkind)
  exact (h hb hq).imp hoverflows

/-- A rule for something else and a quantity. -/
theorem respects_quantity_right {f : Handler K} {kind : Kind} (hkind : kind ≠ .quantity)
    (hoverflows : overflows → op.CombinesUnits)
    (h : ∀ {q q' : Quantity K} {a : Value K}, a.kind = kind → q.Alike q' →
      Agree overflows Value.Alike (f op a (.quantity q)) (f op a (.quantity q'))) :
    Respects (op, kind, .quantity) f := by
  intro a a' b b' ha hb hab hbb
  obtain ⟨q, q', rfl, rfl, hq⟩ := hbb.exists_quantity hb
  obtain rfl := hab.eq_of_kind_ne (ha ▸ hkind)
  exact (h ha hq).imp hoverflows

variable [Scalar K] {q q' r r' : Quantity K}

theorem compareQuantities_alike (op : Operator) (hq : q.Alike q') (hr : r.Alike r') :
    Agree False Value.Alike (compareQuantities op (.quantity q) (.quantity r))
      (compareQuantities op (.quantity q') (.quantity r')) := by
  refine (Quantity.agree_ensureSameDimension hq hr).map fun _ _ _ ↦ ?_
  rw [hq.base_eq, hr.base_eq]
  exact .refl _

theorem addQuantities_alike (op : Operator) (hq : q.Alike q') (hr : r.Alike r') :
    Agree False Value.Alike (addQuantities op (.quantity q) (.quantity r))
      (addQuantities op (.quantity q') (.quantity r')) := by
  refine (Quantity.agree_ensureSameDimension hq hr).map fun _ _ _ ↦ .ofQuantity ?_
  rw [hq.base_eq, hr.base_eq]
  exact hq.withBase _

theorem ofProduct_alike (h : q.Alike r) : (ofProduct q).Alike (ofProduct r) := by
  rw [ofProduct, ofProduct, h.dimension_eq, h.base_eq]
  split
  · exact .refl _
  · exact .ofQuantity h

theorem multiplyQuantities_alike (op : Operator) (hq : q.Alike q') (hr : r.Alike r') :
    Agree True Value.Alike (multiplyQuantities op (.quantity q) (.quantity r))
      (multiplyQuantities op (.quantity q') (.quantity r')) := by
  rw [multiplyQuantities, multiplyQuantities, hq.base_eq, hr.base_eq]
  split
  · split
    · exact .error rfl
    · exact (Units.agree_div hq.dimension_eq hr.dimension_eq).map fun _ _ hunits ↦
        ofProduct_alike ⟨rfl, hunits⟩
  · exact (Units.agree_mul hq.dimension_eq hr.dimension_eq).map fun _ _ hunits ↦
      ofProduct_alike ⟨rfl, hunits⟩

theorem scale_alike (op : Operator) (hq : q.Alike q') (x : K) :
    Agree overflows Value.Alike (scale op q x) (scale op q' x) := by
  rw [scale, scale, hq.base_eq]
  split
  · split
    · exact .error rfl
    · exact .ok (.ofQuantity (hq.withBase _))
  · exact .ok (.ofQuantity (hq.withBase _))

theorem invertQuantity_alike (op : Operator) (hq : q.Alike q') (x : K) :
    Agree True Value.Alike (invertQuantity op (.number x) (.quantity q))
      (invertQuantity op (.number x) (.quantity q')) := by
  rw [invertQuantity, invertQuantity, hq.base_eq]
  split
  · exact .error rfl
  · exact (Units.agree_pow hq.dimension_eq (-1)).map fun _ _ hunits ↦ .ofQuantity ⟨rfl, hunits⟩

theorem powerQuantity_alike (op : Operator) (hq : q.Alike q') (x : K) :
    Agree True Value.Alike (powerQuantity op (.quantity q) (.number x))
      (powerQuantity op (.quantity q') (.number x)) := by
  rw [powerQuantity, powerQuantity]
  split
  · exact .error rfl
  · split
    · exact .ok (.refl _)
    · exact (Units.agree_pow hq.dimension_eq _).map fun _ _ hunits ↦
        .ofQuantity ⟨congrArg (Scalar.powInt · _) hq.base_eq, hunits⟩

theorem durationMillis_alike (hq : q.Alike q') :
    Agree False Eq (durationMillis q) (durationMillis q') := by
  rw [durationMillis, durationMillis, hq.dimension_eq, hq.base_eq]
  split
  · exact .ok rfl
  · exact .error rfl

/-- A date is shifted by the milliseconds of a duration, whatever its units. -/
theorem shift_alike (hq : q.Alike q') (f : K → Except EvalError (Value K)) :
    Agree False Value.Alike (durationMillis q >>= f) (durationMillis q' >>= f) := by
  refine (durationMillis_alike hq).bind fun x y hxy ↦ ?_
  rw [hxy]
  exact .refl Value.Alike.refl _

theorem arithmeticRules_respect : ∀ e ∈ arithmeticRules (K := K), Respects e.1 e.2 := by
  intro e he
  simp only [arithmeticRules, List.mem_append, List.mem_map, List.mem_flatMap, List.mem_cons,
    List.not_mem_nil, or_false] at he
  rcases he with (⟨op, -, rfl⟩ | ⟨op, -, rfl | rfl | rfl⟩) |
    rfl | rfl | rfl | rfl | rfl | rfl | rfl | rfl | rfl
  · exact respects_of_ne (by decide) (by decide) _
  · exact respects_of_ne (by decide) (by decide) _
  · exact respects_quantities False.elim (compareQuantities_alike op)
  · exact respects_of_ne (by decide) (by decide) _
  · exact respects_quantities False.elim (addQuantities_alike .add)
  · exact respects_quantities False.elim (addQuantities_alike .subtract)
  · exact respects_quantities (fun _ ↦ .inl rfl) (multiplyQuantities_alike .multiply)
  · exact respects_quantities (fun _ ↦ .inr (.inl rfl)) (multiplyQuantities_alike .divide)
  · refine respects_quantity_left (by decide) False.elim fun hb hq ↦ ?_
    obtain ⟨x, rfl⟩ := Value.exists_number_of_kind hb
    exact scale_alike .multiply hq x
  · refine respects_quantity_left (by decide) False.elim fun hb hq ↦ ?_
    obtain ⟨x, rfl⟩ := Value.exists_number_of_kind hb
    exact scale_alike .divide hq x
  · refine respects_quantity_right (by decide) False.elim fun ha hq ↦ ?_
    obtain ⟨x, rfl⟩ := Value.exists_number_of_kind ha
    exact scale_alike .multiply hq x
  · refine respects_quantity_right (by decide) (fun _ : True ↦ .inr (.inl rfl)) fun ha hq ↦ ?_
    obtain ⟨x, rfl⟩ := Value.exists_number_of_kind ha
    exact invertQuantity_alike .divide hq x
  · refine respects_quantity_left (by decide) (fun _ : True ↦ .inr (.inr rfl)) fun hb hq ↦ ?_
    obtain ⟨x, rfl⟩ := Value.exists_number_of_kind hb
    exact powerQuantity_alike .power hq x

theorem dateArithmetic_respect : ∀ e ∈ dateArithmetic (K := K), Respects e.1 e.2 := by
  intro e he
  simp only [dateArithmetic, List.mem_cons, List.not_mem_nil, or_false] at he
  rcases he with rfl | rfl | rfl | rfl
  · refine respects_quantity_right nofun False.elim fun ha hq ↦ ?_
    obtain ⟨d, rfl⟩ := Value.exists_date_of_kind ha
    exact shift_alike hq _
  · refine respects_quantity_left nofun False.elim fun hb hq ↦ ?_
    obtain ⟨d, rfl⟩ := Value.exists_date_of_kind hb
    exact shift_alike hq _
  · refine respects_quantity_right nofun False.elim fun ha hq ↦ ?_
    obtain ⟨d, rfl⟩ := Value.exists_date_of_kind ha
    exact shift_alike hq _
  · exact respects_of_ne (by decide) (by decide) _

/-- **Operators take no notice of display units.** Alike operands have alike results, or they fail for
the same cause, unless the units that an operator combines are too many for one of them. -/
theorem apply_alike (op : Operator) {a a' b b' : Value K} (ha : a.Alike a') (hb : b.Alike b') :
    Agree op.CombinesUnits Value.Alike (standard.apply op a b) (standard.apply op a' b') := by
  rw [apply, apply, ← ha.kind_eq, ← hb.kind_eq]
  split
  · rename_i f hget
    rcases mem_of_get?_standard hget with hmem | hmem
    · exact arithmeticRules_respect _ hmem rfl rfl ha hb
    · exact dateArithmetic_respect _ hmem rfl rfl ha hb
  · rw [noRule, noRule, ← ha.kind_eq, ← hb.kind_eq]
    exact .error rfl

end Rules

/-! ### Aggregates -/

namespace Functions

variable {K : Type} {name : String} {args args' : List (Value K)}

theorem expectNumber_alike {v w : Value K} (h : v.Alike w) :
    Agree False Eq (expectNumber name v) (expectNumber name w) := by
  cases h with
  | refl => exact .refl (fun _ ↦ rfl) _
  | quantity => exact .error rfl

theorem foldNumbers_alike (f : K → K → K) (acc : K) (h : List.Forall₂ Value.Alike args args') :
    Agree False Eq (args.foldlM (fun acc v ↦ return f acc (← expectNumber name v)) acc)
      (args'.foldlM (fun acc v ↦ return f acc (← expectNumber name v)) acc) := by
  induction h generalizing acc with
  | nil => exact .ok rfl
  | cons hv _ ih =>
    rw [List.foldlM_cons, List.foldlM_cons]
    refine ((expectNumber_alike hv).map fun x y hxy ↦ congrArg (f acc) hxy).bind ?_
    rintro x _ rfl
    exact ih x

theorem foldQuantities_alike (f : K → K → K) {first first' : Quantity K} (hfirst : first.Alike first')
    (acc : K) (h : List.Forall₂ Value.Alike args args') :
    Agree False Eq (foldQuantities name f first acc args) (foldQuantities name f first' acc args') := by
  induction h generalizing acc with
  | nil => exact .ok rfl
  | @cons v w _ _ hv _ ih =>
    by_cases hkind : v.kind = .quantity
    · obtain ⟨q, r, rfl, rfl, hq⟩ := hv.exists_quantity hkind
      refine (Quantity.agree_ensureSameDimension hfirst hq).bind fun _ _ _ ↦ ?_
      rw [hq.base_eq]
      exact ih _
    · obtain rfl := hv.eq_of_kind_ne hkind
      cases v with
      | quantity => exact absurd rfl hkind
      | _ => exact .error rfl

variable [Scalar K]

/-- **Aggregates take no notice of display units**, in whichever arguments they differ. -/
theorem aggregate_alike (name : String) (f : K → K → K) (h : List.Forall₂ Value.Alike args args') :
    Agree False Value.Alike (aggregate name f args) (aggregate name f args') := by
  cases h with
  | nil => exact .error rfl
  | @cons v w _ _ hv hrest =>
    by_cases hkind : v.kind = .quantity
    · obtain ⟨q, r, rfl, rfl, hq⟩ := hv.exists_quantity hkind
      rw [aggregate, aggregate, hq.base_eq]
      refine (foldQuantities_alike f hq r.base hrest).map ?_
      rintro total _ rfl
      exact .ofQuantity (hq.withBase total)
    · obtain rfl := hv.eq_of_kind_ne hkind
      cases v with
      | number x =>
        refine (foldNumbers_alike f x hrest).map ?_
        rintro total _ rfl
        exact .refl _
      | quantity => exact absurd rfl hkind
      | _ => exact .error rfl

theorem mean_alike (h : List.Forall₂ Value.Alike args args') :
    Agree False Value.Alike (mean args) (mean args') := by
  rw [mean, mean, h.length_eq]
  refine (aggregate_alike "mean" (· + ·) h).bind fun v w hv ↦ ?_
  cases hv with
  | refl => exact .refl Value.Alike.refl _
  | quantity hq =>
    dsimp only
    rw [hq.base_eq]
    exact .ok (.ofQuantity (hq.withBase _))

/-- The aggregates under their names. -/
def aggregates : List (String × BuiltinFunction K) :=
  [("min", minimum), ("max", maximum), ("sum", sum), ("mean", mean)]

theorem aggregates_alike (h : List.Forall₂ Value.Alike args args') :
    ∀ e ∈ aggregates (K := K), Agree False Value.Alike (e.2 args) (e.2 args') := by
  intro e he
  simp only [aggregates, List.mem_cons, List.not_mem_nil, or_false] at he
  rcases he with rfl | rfl | rfl | rfl
  · exact aggregate_alike "min" _ h
  · exact aggregate_alike "max" _ h
  · exact aggregate_alike "sum" _ h
  · exact mean_alike h

/-- The standard functions have the aggregates under these names. -/
theorem call_aggregate {e : String × BuiltinFunction Float} (he : e ∈ aggregates)
    (args : List (Value Float)) : standard.call e.1 args = e.2 args := by
  simp only [aggregates, List.mem_cons, List.not_mem_nil, or_false] at he
  rcases he with rfl | rfl | rfl | rfl <;> rfl

end Functions

/-! ### Conversions -/

/-- Two values are interchangeable in an engine: as operands on either side, and as one of the
arguments of an aggregate. -/
structure Engine.Interchangeable (engine : Engine Float) (v w : Value Float) : Prop where
  left : ∀ op u,
    Agree op.CombinesUnits Value.Alike (engine.rules.apply op v u) (engine.rules.apply op w u)
  right : ∀ op u,
    Agree op.CombinesUnits Value.Alike (engine.rules.apply op u v) (engine.rules.apply op u w)
  argument : ∀ name ∈ ["sum", "mean", "min", "max"], ∀ before after,
    Agree False Value.Alike (engine.functions.call name (before ++ v :: after))
      (engine.functions.call name (before ++ w :: after))

theorem Engine.interchangeable_of_alike (limits : Limits) {v w : Value Float} (h : v.Alike w) :
    (standard limits).Interchangeable v w := by
  rw [standard_eq]
  refine ⟨fun op u ↦ ?_, fun op u ↦ ?_, fun name hname before after ↦ ?_⟩
  · rw [rules_standardOver]
    exact Rules.apply_alike op h (.refl u)
  · rw [rules_standardOver]
    exact Rules.apply_alike op (.refl u) h
  · have hargs : List.Forall₂ Value.Alike (before ++ v :: after) (before ++ w :: after) :=
      List.rel_append (List.forall₂_same.2 fun u _ ↦ .refl u)
        (.cons h (List.forall₂_same.2 fun u _ ↦ .refl u))
    obtain ⟨f, hf⟩ : ∃ f, (name, f) ∈ Functions.aggregates (K := Float) := by
      simp only [List.mem_cons, List.not_mem_nil, or_false] at hname
      rcases hname with rfl | rfl | rfl | rfl <;> simp [Functions.aggregates]
    have hcall := Functions.call_aggregate hf
    have halike := Functions.aggregates_alike hargs _ hf
    rw [← hcall, ← hcall] at halike
    exact halike

namespace Quantity

variable {K : Type}

/-- A quantity after a chain of conversions. -/
def convertAll (q : Quantity K) (targets : List (Units K)) : Except EvalError (Quantity K) :=
  targets.foldlM convert q

theorem convert_of_dimension_eq {q : Quantity K} {target : Units K}
    (h : target.dimension = q.dimension) : q.convert target = .ok ⟨q.base, target⟩ :=
  if_pos h.symm

/-- A chain of conversions within a dimension comes to its last one. -/
theorem convertAll_append {q : Quantity K} {targets : List (Units K)} {last : Units K}
    (h : ∀ us ∈ targets ++ [last], us.dimension = q.dimension) :
    q.convertAll (targets ++ [last]) = .ok ⟨q.base, last⟩ := by
  induction targets generalizing q with
  | nil =>
    rw [List.nil_append, convertAll, List.foldlM_cons,
      convert_of_dimension_eq (h last (List.mem_singleton_self last))]
    rfl
  | cons target targets ih =>
    have htarget : target.dimension = q.dimension := h target List.mem_cons_self
    rw [List.cons_append, convertAll, List.foldlM_cons, convert_of_dimension_eq htarget]
    refine ih (q := ⟨q.base, target⟩) fun us hus ↦ ?_
    exact (h us (List.mem_cons_of_mem target hus)).trans htarget.symm

/-- **Display units do not influence arithmetic.** A chain of conversions to units of its dimension
takes a quantity to what the last conversion alone makes of it, with the same magnitude in base units
and the same dimension. The result can replace the quantity, as either operand of every operator and
as any argument of the aggregates: what comes out is alike or fails for the same cause, unless an
operator combines units and exactly one of the two outcomes is an overflow. -/
theorem conversions_interchangeable (limits : Limits) (q : Quantity Float)
    (targets : List (Units Float)) (last : Units Float)
    (h : ∀ us ∈ targets ++ [last], us.dimension = q.dimension) :
    ∃ r, q.convertAll (targets ++ [last]) = .ok r ∧ q.convert last = .ok r ∧
      r.base = q.base ∧ r.dimension = q.dimension ∧
      (Engine.standard limits).Interchangeable (.quantity q) (.quantity r) := by
  have hlast : last.dimension = q.dimension :=
    h last (List.mem_append_right targets (List.mem_singleton_self last))
  have halike : q.Alike ⟨q.base, last⟩ := ⟨rfl, hlast.symm⟩
  exact ⟨⟨q.base, last⟩, convertAll_append h, convert_of_dimension_eq hlast, rfl, hlast,
    Engine.interchangeable_of_alike limits (.quantity halike)⟩

/-- An hour and a half, given in minutes and converted to hours and on to seconds. -/
theorem conversions_interchangeable_minutes :
    let minute : NamedUnit Float := ⟨"min", .base .time, 60⟩
    let hour : NamedUnit Float := ⟨"h", .base .time, 3600⟩
    let q : Quantity Float := .ofValue 90 (.single minute)
    let targets : List (Units Float) := [.single hour, .single Rules.seconds]
    (∀ us ∈ targets, us.dimension = q.dimension) ∧
      ∃ r, q.convertAll targets = .ok r ∧ r.base = q.base ∧ r.units = .single Rules.seconds ∧
        (Engine.standard {}).Interchangeable (.quantity q) (.quantity r) := by
  intro minute hour q targets
  have hdimension : ∀ us ∈ targets, us.dimension = q.dimension :=
    List.forall_mem_cons.2 ⟨rfl, List.forall_mem_singleton.2 rfl⟩
  obtain ⟨r, hchain, hlast, hbase, -, hinterchangeable⟩ :=
    conversions_interchangeable {} q [.single hour] (.single Rules.seconds) hdimension
  have hdirect : q.convert (.single Rules.seconds) = .ok ⟨q.base, .single Rules.seconds⟩ :=
    convert_of_dimension_eq rfl
  obtain rfl := Except.ok.inj (hdirect.symm.trans hlast)
  exact ⟨hdimension, _, hchain, hbase, rfl, hinterchangeable⟩

end Quantity

end Reckoner
