import Reckoner.Proofs.NamedUnits
import Reckoner.Proofs.Preservation
import Reckoner.Proofs.UnitAlgebra

/-!
# Every value is well formed

A value is well formed if no undefined number occurs in it, but as the one error value that stands for
all of them, and if its units are a well-formed product with a dimension. Evaluation makes no other
values (`Notebook.values_wellFormed`).

Some results pass through `Value.ofNumber` and `Value.ofQuantity`, which look for undefined numbers.
The others are defined for reasons of their own: a truth value is zero or one, the factor of a unit is
defined, and so is a number of milliseconds divided by a thousand.

For the units it is not enough that values are well formed. The terms of two products are merged by
name, which gives a well-formed product only if a name stands for one dimension in both of them. So
this is part of what is kept (`Value.Sound`).
-/

namespace Reckoner

/-! ### What is kept -/

section Definitions

variable {K : Type} [Scalar K]

/-- A quantity is well formed if its magnitude is defined, its units are a well-formed product, and
its dimension is not none. -/
structure Quantity.WellFormed (q : Quantity K) : Prop where
  defined : Scalar.isNaN q.base = false
  units : q.units.WellFormed
  hasDimension : q.dimension.isNone = false

/-- **A value is well formed** if it is no undefined number, no quantity that is not well formed, and
no error but the one of undefined numbers. -/
def Value.WellFormed : Value K → Prop
  | number x => Scalar.isNaN x = false
  | quantity q => q.WellFormed
  | error message => message = "not a number"
  | _ => True

end Definitions

/-- A product whose terms have the dimensions that their names stand for, and that has a dimension
itself. -/
structure Units.Dimensional (us : Units Float) : Prop where
  sound : us.Sound dimensionOf
  hasDimension : us.dimension.isNone = false

/-- A well-formed value in whose units every name stands for its dimension. -/
structure Value.Sound (v : Value Float) : Prop where
  wellFormed : v.WellFormed
  follow : ∀ q, v = .quantity q → Units.Follow Units.dimensionOf q.units.terms

namespace Value

variable {x : Float} {q : Quantity Float}

theorem sound_number (h : x.isNaN = false) : (number x).Sound :=
  ⟨h, nofun⟩

theorem sound_ofNumber (x : Float) : (ofNumber x).Sound := by
  rw [ofNumber]
  split
  · exact ⟨rfl, nofun⟩
  · rename_i h
    exact sound_number (Bool.eq_false_iff.2 h)

theorem sound_quantity (hbase : q.base.isNaN = false) (hunits : q.units.Dimensional) :
    (quantity q).Sound := by
  refine ⟨⟨hbase, hunits.sound.wellFormed, hunits.hasDimension⟩, ?_⟩
  rintro _ ⟨⟩
  exact hunits.sound.follow

theorem sound_ofQuantity (hunits : q.units.Dimensional) : (ofQuantity q).Sound := by
  rw [ofQuantity]
  split
  · exact ⟨rfl, nofun⟩
  · rename_i h
    exact sound_quantity (Bool.eq_false_iff.2 h) hunits

theorem Sound.dimensional (h : (quantity q).Sound) : q.units.Dimensional :=
  ⟨⟨h.wellFormed.units, h.follow q rfl⟩, h.wellFormed.hasDimension⟩

theorem sound_date (d : Date) : (date d).Sound :=
  ⟨trivial, nofun⟩

theorem sound_function (f : Callable Float) : (function f).Sound :=
  ⟨trivial, nofun⟩

theorem sound_undefined : (undefined : Value Float).Sound :=
  ⟨trivial, nofun⟩

end Value

open Value

/-! ### Rules for numbers and quantities -/

theorem Units.Dimensional.pow {us vs : Units Float} {n : Int} (h : us.Dimensional) (hn : n ≠ 0)
    (hpow : us.pow n = .ok vs) : vs.Dimensional :=
  ⟨h.sound.pow hpow, Dimension.isNone_pow? (dimension_pow hpow) h.hasDimension hn⟩

namespace Rules

theorem sound_truth (b : Bool) : (truth b : Value Float).Sound := by
  rw [truth]
  cases b with
  | false => exact sound_number (Double.isNaN_toFloat ⟨0, 0⟩)
  | true => exact sound_number (Double.isNaN_toFloat ⟨1, 0⟩)

theorem compareNumbers_keeps : Handler.Keeps Value.Sound compareNumbers := by
  intro op a b v _ _ h
  unfold compareNumbers at h
  split at h
  · obtain rfl := Except.ok.inj h
    exact sound_truth _
  · contradiction

theorem compareQuantities_keeps : Handler.Keeps Value.Sound compareQuantities := by
  intro op a b v _ _ h
  unfold compareQuantities at h
  split at h
  · obtain ⟨-, -, h⟩ := Outcome.bind_eq_ok.1 h
    obtain rfl := Except.ok.inj h
    exact sound_truth _
  · contradiction

theorem compareDates_keeps : Handler.Keeps Value.Sound compareDates := by
  intro op a b v _ _ h
  unfold compareDates at h
  split at h
  · obtain rfl := Except.ok.inj h
    exact sound_truth _
  · contradiction

/-- Whatever two numbers come to passes through `ofNumber`. -/
theorem exists_of_calculate {op : Operator} {a b v : Value Float} (h : calculate op a b = .ok v) :
    ∃ x, v = ofNumber x := by
  unfold calculate at h
  split at h
  · split at h
    · exact ⟨_, (Except.ok.inj h).symm⟩
    · exact ⟨_, (Except.ok.inj h).symm⟩
    · exact ⟨_, (Except.ok.inj h).symm⟩
    · split at h
      · contradiction
      · exact ⟨_, (Except.ok.inj h).symm⟩
    · split at h
      · contradiction
      · exact ⟨_, (Except.ok.inj h).symm⟩
    · exact ⟨_, (Except.ok.inj h).symm⟩
    · contradiction
  · contradiction

theorem calculate_keeps : Handler.Keeps Value.Sound calculate := by
  intro op a b v _ _ h
  obtain ⟨x, rfl⟩ := exists_of_calculate h
  exact sound_ofNumber x

theorem addQuantities_keeps : Handler.Keeps Value.Sound addQuantities := by
  intro op a b v ha _ h
  unfold addQuantities at h
  split at h
  · obtain ⟨-, -, h⟩ := Outcome.bind_eq_ok.1 h
    obtain rfl := Except.ok.inj h
    exact sound_ofQuantity ha.dimensional
  · contradiction

theorem sound_ofProduct {q : Quantity Float} (h : q.units.Sound Units.dimensionOf) :
    (ofProduct q).Sound := by
  rw [ofProduct]
  split
  · exact sound_ofNumber _
  · rename_i hdimension
    exact sound_ofQuantity ⟨h, Bool.eq_false_iff.2 hdimension⟩

theorem multiplyQuantities_keeps : Handler.Keeps Value.Sound multiplyQuantities := by
  intro op a b v ha hb h
  unfold multiplyQuantities at h
  split at h
  · have hleft := ha.dimensional.sound
    have hright := hb.dimensional.sound
    split at h
    · split at h
      · contradiction
      · obtain ⟨units, hdiv, h⟩ := Outcome.bind_eq_ok.1 h
        obtain rfl := Except.ok.inj h
        exact sound_ofProduct (hleft.div hright hdiv)
    · obtain ⟨units, hmul, h⟩ := Outcome.bind_eq_ok.1 h
      obtain rfl := Except.ok.inj h
      exact sound_ofProduct (hleft.mul hright hmul)
  · contradiction

theorem sound_scale {op : Operator} {q : Quantity Float} {x : Float} {v : Value Float}
    (hq : (quantity q).Sound) (h : scale op q x = .ok v) : v.Sound := by
  unfold scale at h
  split at h
  · split at h
    · contradiction
    · obtain rfl := Except.ok.inj h
      exact sound_ofQuantity hq.dimensional
  · obtain rfl := Except.ok.inj h
    exact sound_ofQuantity hq.dimensional

theorem scaleQuantity_keeps : Handler.Keeps Value.Sound scaleQuantity := by
  intro op a b v ha hb h
  unfold scaleQuantity at h
  split at h
  · exact sound_scale ha h
  · exact sound_scale hb h
  · contradiction

theorem invertQuantity_keeps : Handler.Keeps Value.Sound invertQuantity := by
  intro op a b v _ hb h
  unfold invertQuantity at h
  split at h
  · split at h
    · contradiction
    · obtain ⟨units, hpow, h⟩ := Outcome.bind_eq_ok.1 h
      obtain rfl := Except.ok.inj h
      exact sound_ofQuantity (hb.dimensional.pow (by decide) hpow)
  · contradiction

theorem powerQuantity_keeps : Handler.Keeps Value.Sound powerQuantity := by
  intro op a b v ha _ h
  unfold powerQuantity at h
  split at h
  · split at h
    · contradiction
    · split at h
      · obtain rfl := Except.ok.inj h
        exact sound_truth true
      · rename_i hzero
        obtain ⟨units, hpow, h⟩ := Outcome.bind_eq_ok.1 h
        obtain rfl := Except.ok.inj h
        exact sound_ofQuantity (ha.dimensional.pow hzero hpow)
  · contradiction

/-! ### Rules for dates -/

theorem sound_shift {d : Date} {millis : Float} {v : Value Float} (h : shift d millis = .ok v) :
    v.Sound := by
  unfold shift at h
  split at h
  · obtain rfl := Except.ok.inj h
    exact sound_date _
  · contradiction

theorem addDuration_keeps : Handler.Keeps Value.Sound addDuration := by
  intro op a b v _ _ h
  unfold addDuration at h
  split at h
  · obtain ⟨millis, -, h⟩ := Outcome.bind_eq_ok.1 h
    exact sound_shift h
  · obtain ⟨millis, -, h⟩ := Outcome.bind_eq_ok.1 h
    exact sound_shift h
  · contradiction

theorem subtractDuration_keeps : Handler.Keeps Value.Sound subtractDuration := by
  intro op a b v _ _ h
  unfold subtractDuration at h
  split at h
  · obtain ⟨millis, -, h⟩ := Outcome.bind_eq_ok.1 h
    exact sound_shift h
  · contradiction

theorem known_seconds : NamedUnit.Known "s" seconds := by
  have hlookup : Units.lookup "s" = some (seconds (K := Float)) := rfl
  exact Units.known_of_lookup hlookup

/-- A number of milliseconds is a defined number of seconds. -/
theorem defined_seconds (n : Int) :
    (Quantity.ofValue (Scalar.ofInt n / 1000 : Float) (.single seconds)).base.isNaN = false := by
  have hthousand : Double.isProper (1000 : Float) = true := by decide
  have hfactor : Double.isProper (1 * (1 * 1) : Float) = true := by decide
  rw [Quantity.ofValue, Units.factor_single]
  exact Double.isNaN_mul (Double.isNaN_div (Double.isNaN_ofInt n) hthousand) hfactor

theorem subtractDates_keeps : Handler.Keeps Value.Sound subtractDates := by
  intro op a b v _ _ h
  unfold subtractDates at h
  split at h
  · obtain rfl := Except.ok.inj h
    exact sound_quantity (defined_seconds _) ⟨known_seconds.sound_single, known_seconds.hasDimension⟩
  · contradiction

/-! ### All rules -/

theorem arithmeticRules_keep : ∀ e ∈ arithmeticRules, Handler.Keeps Value.Sound e.2 := by
  intro e he
  simp only [arithmeticRules, List.mem_append, List.mem_map, List.mem_flatMap, List.mem_cons,
    List.not_mem_nil, or_false] at he
  rcases he with (⟨op, -, rfl⟩ | ⟨op, -, rfl | rfl | rfl⟩) |
    rfl | rfl | rfl | rfl | rfl | rfl | rfl | rfl | rfl
  · exact calculate_keeps
  · exact compareNumbers_keeps
  · exact compareQuantities_keeps
  · exact compareDates_keeps
  · exact addQuantities_keeps
  · exact addQuantities_keeps
  · exact multiplyQuantities_keeps
  · exact multiplyQuantities_keeps
  · exact scaleQuantity_keeps
  · exact scaleQuantity_keeps
  · exact scaleQuantity_keeps
  · exact invertQuantity_keeps
  · exact powerQuantity_keeps

theorem dateArithmetic_keep : ∀ e ∈ dateArithmetic, Handler.Keeps Value.Sound e.2 := by
  intro e he
  simp only [dateArithmetic, List.mem_cons, List.not_mem_nil, or_false] at he
  rcases he with rfl | rfl | rfl | rfl
  · exact addDuration_keeps
  · exact addDuration_keeps
  · exact subtractDuration_keeps
  · exact subtractDates_keeps

end Rules

/-! ### Functions -/

namespace Functions

theorem expectOne_eq_ok {name : String} {args : List (Value Float)} {v : Value Float}
    (h : expectOne name args = .ok v) : args = [v] := by
  unfold expectOne at h
  split at h
  · rw [Except.ok.inj h]
  · contradiction

theorem numeric_keeps (name : String) (f : Float → Float) :
    BuiltinFunction.Keeps Value.Sound (numeric name f) := by
  intro args v _ h
  obtain ⟨w, -, h⟩ := Outcome.bind_eq_ok.1 h
  obtain ⟨x, -, h⟩ := Outcome.bind_eq_ok.1 h
  obtain rfl := Except.ok.inj h
  exact sound_ofNumber _

theorem ofAngle_keeps (name : String) (f : Float → Float) :
    BuiltinFunction.Keeps Value.Sound (ofAngle name f) := by
  intro args v _ h
  obtain ⟨w, -, h⟩ := Outcome.bind_eq_ok.1 h
  split at h
  · obtain rfl := Except.ok.inj h
    exact sound_ofNumber _
  · split at h
    · obtain rfl := Except.ok.inj h
      exact sound_ofNumber _
    · contradiction
  · contradiction

theorem sound_mapMagnitude {name : String} {f : Float → Float} {v w : Value Float} (hv : v.Sound)
    (h : mapMagnitude name f v = .ok w) : w.Sound := by
  unfold mapMagnitude at h
  split at h
  · obtain rfl := Except.ok.inj h
    exact sound_ofNumber _
  · obtain rfl := Except.ok.inj h
    exact sound_ofQuantity hv.dimensional
  · contradiction

theorem ofMagnitude_keeps (name : String) (f : Float → Float) :
    BuiltinFunction.Keeps Value.Sound (ofMagnitude name f) := by
  intro args v hargs h
  obtain ⟨w, hone, h⟩ := Outcome.bind_eq_ok.1 h
  obtain rfl := expectOne_eq_ok hone
  exact sound_mapMagnitude (hargs w List.mem_cons_self) h

theorem aggregate_keeps (name : String) (f : Float → Float → Float) :
    BuiltinFunction.Keeps Value.Sound (aggregate name f) := by
  intro args v hargs h
  unfold aggregate at h
  split at h
  · contradiction
  · obtain ⟨total, -, h⟩ := Outcome.bind_eq_ok.1 h
    obtain rfl := Except.ok.inj h
    exact sound_ofNumber _
  · rename_i q rest
    obtain ⟨total, -, h⟩ := Outcome.bind_eq_ok.1 h
    obtain rfl := Except.ok.inj h
    exact sound_ofQuantity (hargs (quantity q) List.mem_cons_self).dimensional
  · contradiction

theorem mean_keeps : BuiltinFunction.Keeps Value.Sound mean := by
  intro args v hargs h
  obtain ⟨w, haggregate, h⟩ := Outcome.bind_eq_ok.1 h
  have hw := aggregate_keeps _ _ args w hargs haggregate
  split at h
  · obtain rfl := Except.ok.inj h
    exact sound_ofNumber _
  · obtain rfl := Except.ok.inj h
    exact sound_ofQuantity hw.dimensional
  · obtain rfl := Except.ok.inj h
    exact hw

theorem logarithm_keeps : BuiltinFunction.Keeps Value.Sound logarithm := by
  intro args v _ h
  unfold logarithm at h
  split at h
  · obtain ⟨x, -, h⟩ := Outcome.bind_eq_ok.1 h
    obtain rfl := Except.ok.inj h
    exact sound_ofNumber _
  · obtain ⟨x, -, h⟩ := Outcome.bind_eq_ok.1 h
    obtain ⟨base, -, h⟩ := Outcome.bind_eq_ok.1 h
    obtain rfl := Except.ok.inj h
    exact sound_ofNumber _
  · contradiction

theorem power_keeps : BuiltinFunction.Keeps Value.Sound power := by
  intro args v _ h
  unfold power at h
  split at h
  · obtain ⟨base, -, h⟩ := Outcome.bind_eq_ok.1 h
    obtain ⟨exponent, -, h⟩ := Outcome.bind_eq_ok.1 h
    obtain rfl := Except.ok.inj h
    exact sound_ofNumber _
  · contradiction

theorem round_keeps : BuiltinFunction.Keeps Value.Sound round := by
  intro args v hargs h
  unfold round at h
  split at h
  · exact sound_mapMagnitude (hargs _ List.mem_cons_self) h
  · obtain ⟨digits, -, h⟩ := Outcome.bind_eq_ok.1 h
    exact sound_mapMagnitude (hargs _ List.mem_cons_self) h
  · contradiction

theorem standard_keep : standard.All (BuiltinFunction.Keeps Value.Sound) := by
  refine Table.all_ofList fun e he ↦ ?_
  simp only [List.mem_cons, List.not_mem_nil, or_false] at he
  rcases he with rfl | rfl | rfl | rfl | rfl | rfl | rfl | rfl | rfl | rfl | rfl | rfl | rfl | rfl |
    rfl | rfl | rfl | rfl | rfl | rfl | rfl
  iterate 8 exact numeric_keeps _ _
  iterate 3 exact ofAngle_keeps _ _
  iterate 3 exact ofMagnitude_keeps _ _
  · exact round_keeps
  · exact logarithm_keeps
  · exact power_keeps
  iterate 3 exact aggregate_keeps _ _
  · exact mean_keeps

end Functions

/-! ### Signs and conversions -/

theorem applySign_keeps {sign : Sign} {a v : Value Float} (ha : a.Sound)
    (h : applySign sign a = .ok v) : v.Sound := by
  unfold applySign at h
  split at h
  · obtain rfl := Except.ok.inj h
    exact ha
  · obtain rfl := Except.ok.inj h
    exact ha
  · obtain rfl := Except.ok.inj h
    exact sound_ofNumber _
  · obtain rfl := Except.ok.inj h
    exact sound_ofQuantity ha.dimensional
  · contradiction

theorem convert_keeps {units : Units Float} {a v : Value Float}
    (hunits : units.Sound Units.dimensionOf) (ha : a.Sound) (h : convert units a = .ok v) :
    v.Sound := by
  unfold convert at h
  split at h
  · obtain ⟨r, hconvert, h⟩ := Outcome.bind_eq_ok.1 h
    obtain rfl := Except.ok.inj h
    rw [Quantity.convert] at hconvert
    split at hconvert
    · rename_i hsame
      obtain rfl := Except.ok.inj hconvert
      have hdimension := ha.dimensional.hasDimension
      refine sound_ofQuantity ⟨hunits, ?_⟩
      rwa [← hsame]
    · contradiction
  · contradiction

/-- The target of a conversion is a product of powers of units with names. -/
theorem Context.sound_target {ctx : Context Float} (hregistry : Registry.Quotes ctx.registry.units)
    {terms : List UnitPower} {units : Units Float} (h : ctx.target terms = .ok units) :
    units.Sound Units.dimensionOf := by
  have hone : Units.Sound Units.dimensionOf (Units.one : Units Float) := Units.sound_one
  rw [target] at h
  generalize Units.one = us at hone h
  induction terms generalizing us with
  | nil =>
    obtain rfl := Except.ok.inj h
    exact hone
  | cons t terms ih =>
    rw [List.foldlM_cons] at h
    obtain ⟨vs, hstep, h⟩ := Outcome.bind_eq_ok.1 h
    refine ih vs ?_ h
    split at hstep
    · rename_i u hunit
      obtain ⟨ws, hpow, hmul⟩ := Outcome.bind_eq_ok.1 hstep
      have hsingle := (known_of_unit? hregistry hunit).sound_single
      exact hone.mul (hsingle.pow hpow) hmul
    · contradiction

/-! ### Lines and documents -/

/-- The standard engine keeps values sound, with any currencies that have been reported to it. -/
theorem Engine.standard_keeps (limits : Limits) (events : List (CurrencyEvent Float)) :
    Context.Keeps ⟨standard limits, Registry.uninitialized.afterAll events⟩ Value.Sound := by
  have hregistry : Registry.Quotes (Registry.uninitialized.afterAll events).units :=
    Registry.quotes_afterAll Registry.quotes_empty events
  constructor
  case number => exact sound_ofNumber
  case function => exact sound_function
  case unit =>
    intro name u hunit
    have hknown := Context.known_of_unit? hregistry hunit
    exact sound_quantity hknown.defined_single ⟨hknown.sound_single, hknown.hasDimension⟩
  case rules =>
    exact Rules.all_addAll (Table.all_ofList Rules.arithmeticRules_keep) Rules.dateArithmetic_keep
  case sign =>
    intro sign a v ha h
    exact applySign_keeps ha h
  case convert =>
    intro terms units a v htarget ha h
    exact convert_keeps (Context.sound_target hregistry htarget) ha h
  case functions => exact Functions.standard_keep

theorem Statement.sound_execute {limits : Limits} {events : List (CurrencyEvent Float)}
    {scope after : Scope Float} {s : Statement Float} {v : Value Float}
    (hscope : scope.All Value.Sound)
    (h : s.execute ⟨.standard limits, Registry.uninitialized.afterAll events⟩ scope =
      .ok (v, after)) :
    v.Sound ∧ after.All Value.Sound :=
  Statement.execute_keeps (Engine.standard_keeps limits events) sound_undefined hscope h

theorem Scope.sound_atInstant (now : Date) : (atInstant now).All Value.Sound := by
  refine Table.all_ofList fun e he ↦ ?_
  simp only [List.mem_cons, List.not_mem_nil, or_false] at he
  rcases he with rfl | rfl
  · exact sound_date _
  · exact sound_date _

theorem Notebook.sound_evaluateFrom (limits : Limits) (events : Nat → List (CurrencyEvent Float))
    (reader : LineReader Float) (now : Date) (lines : List String) :
    let after := evaluateFrom (.standard limits)
      (fun index ↦ Registry.uninitialized.afterAll (events index)) 0 reader (Scope.atInstant now) lines
    (∀ e ∈ after.results, e.2.Sound) ∧ after.scope.All Value.Sound :=
  evaluateFrom_keeps (fun index ↦ Engine.standard_keeps limits (events index)) sound_undefined
    (Scope.sound_atInstant now) 0 reader lines

theorem wellFormed_of_all_sound {scope : Scope Float} (h : scope.All Value.Sound) :
    scope.All Value.WellFormed :=
  fun e he ↦ (h e he).wellFormed

/-- **Every value that evaluation produces is well formed.** If all values in a scope are well formed,
with the dimensions that the names of their units stand for, then so are the value of a line and all
values in the scope after it. Hence the values in the scope after any lines of a document are well
formed, and so are the value of the next line and the values in the scope after that. Any events of
loading may have come before each line. -/
theorem Notebook.values_wellFormed (limits : Limits) :
    (∀ (events : List (CurrencyEvent Float)) (scope : Scope Float) (s : Statement Float) v after,
      scope.All Value.Sound →
        s.execute ⟨.standard limits, Registry.uninitialized.afterAll events⟩ scope = .ok (v, after) →
          v.Sound ∧ after.All Value.Sound) ∧
    ∀ (events : Nat → List (CurrencyEvent Float)) (reader : LineReader Float) (now : Date)
      (above : List String),
      let registry := fun index ↦ Registry.uninitialized.afterAll (events index)
      let scope :=
        (evaluateFrom (.standard limits) registry 0 reader (Scope.atInstant now) above).scope
      scope.All Value.WellFormed ∧
        ∀ (s : Statement Float) v after,
          s.execute ⟨.standard limits, registry above.length⟩ scope = .ok (v, after) →
            v.WellFormed ∧ after.All Value.WellFormed := by
  constructor
  · intro events scope s v after hscope h
    exact Statement.sound_execute hscope h
  · intro events reader now above registry scope
    have hscope : scope.All Value.Sound := (sound_evaluateFrom limits events reader now above).2
    refine ⟨wellFormed_of_all_sound hscope, ?_⟩
    intro s v after h
    obtain ⟨hvalue, hafter⟩ := Statement.sound_execute hscope h
    exact ⟨hvalue.wellFormed, wellFormed_of_all_sound hafter⟩

end Reckoner
