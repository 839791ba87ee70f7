import Mathlib
import Reckoner.Proofs.DateComparison
import Reckoner.Proofs.UnitGroup

/-!
# When exponents leave their range

A product or a power of a dimension has no result exactly if an exponent of it would not be in
range (`Dimension.mul?_eq_none_iff`, `Dimension.pow?_eq_none_iff`). A quotient is calculated as the
product with the inverse, and the range is not symmetric: the least exponent, -128, has no
counterpart. So a quotient has no result either if the divisor has this exponent, whatever the
quotient is (`Dimension.div?_eq_none_iff`).

The same holds of products of units, whose powers have a range of their own. A product with a least
exponent or power is not invertible, and that is all that can make a quotient fail although it fits
(`Units.Built.div_eq_overflow_iff`). A quotient of a quantity by itself always fits. So it is one if
the units are invertible, and it overflows if they are not.
-/

namespace Reckoner

/-! ### Dimensions -/

namespace Dimension

variable {d e f : Dimension} {n : Int} {g : Fin 10 → Int}

/-- Whether all of ten integers can be exponents. -/
def InRange (g : Fin 10 → Int) : Prop := ∀ i, -128 ≤ g i ∧ g i ≤ 127

theorem inRange_exponent (d : Dimension) : InRange d.exponent := fun i ↦ d.exponents[i].property

theorem ofInts?_eq_some_iff : ofInts? g = some d ↔ ∀ i, d.exponent i = g i := by
  refine ⟨exponent_ofInts?, fun h ↦ ?_⟩
  rw [ofInts?]
  split
  · exact congrArg some (ext_exponent fun i ↦ (exponent_ofFn _ i).trans (h i).symm)
  · rename_i hrange
    exact absurd (fun i ↦ h i ▸ d.inRange_exponent i) hrange

theorem ofInts?_eq_none_iff : ofInts? g = .none ↔ ¬InRange g := by
  rw [ofInts?]
  split
  · rename_i hrange
    exact iff_of_false (Option.some_ne_none _) (not_not.2 hrange)
  · rename_i hrange
    exact iff_of_true rfl hrange

theorem mul?_eq_some_iff : d.mul? e = some f ↔ ∀ i, f.exponent i = d.exponent i + e.exponent i :=
  ofInts?_eq_some_iff

theorem mul?_eq_none_iff : d.mul? e = .none ↔ ¬InRange fun i ↦ d.exponent i + e.exponent i :=
  ofInts?_eq_none_iff

theorem pow?_eq_some_iff : d.pow? n = some f ↔ ∀ i, f.exponent i = d.exponent i * n :=
  ofInts?_eq_some_iff

theorem pow?_eq_none_iff : d.pow? n = .none ↔ ¬InRange fun i ↦ d.exponent i * n :=
  ofInts?_eq_none_iff

/-- There is an inverse unless an exponent is the least one. -/
theorem inRange_mul_neg_one : (InRange fun i ↦ d.exponent i * -1) ↔ ∀ i, d.exponent i ≠ -128 := by
  refine forall_congr' fun i ↦ ?_
  have hrange := d.inRange_exponent i
  dsimp only
  omega

theorem exists_pow?_neg_one (h : ∀ i, d.exponent i ≠ -128) :
    ∃ inverse, d.pow? (-1) = some inverse := by
  rw [← Option.ne_none_iff_exists', Ne, pow?_eq_none_iff, not_not]
  exact inRange_mul_neg_one.2 h

/-- **When a quotient of dimensions has a result**, and which: the divisor has no least exponent,
and the exponents of the result are the differences. -/
theorem div?_eq_some_iff : d.div? e = some f ↔
    (∀ i, e.exponent i ≠ -128) ∧ ∀ i, f.exponent i = d.exponent i - e.exponent i := by
  rw [div?, Option.bind_eq_some_iff]
  constructor
  · rintro ⟨inverse, hinverse, hmul⟩
    refine ⟨fun i hi ↦ ?_, fun i ↦ ?_⟩
    · have hrange := inverse.inRange_exponent i
      rw [exponent_pow? hinverse, hi] at hrange
      omega
    · rw [exponent_mul? hmul, exponent_pow? hinverse]
      ring
  · rintro ⟨hleast, hdifference⟩
    obtain ⟨inverse, hinverse⟩ := exists_pow?_neg_one hleast
    refine ⟨inverse, hinverse, mul?_eq_some_iff.2 fun i ↦ ?_⟩
    rw [hdifference, exponent_pow? hinverse]
    ring

/-- **When it has none**: a difference is out of range, or the divisor has the least exponent. -/
theorem div?_eq_none_iff : d.div? e = .none ↔
    (¬InRange fun i ↦ d.exponent i - e.exponent i) ∨ ∃ i, e.exponent i = -128 := by
  rw [or_iff_not_imp_left, not_not, Option.eq_none_iff_forall_ne_some]
  constructor
  · intro hnone hrange
    by_contra! hleast
    obtain ⟨f, hf⟩ : ∃ f, ofInts? (fun i ↦ d.exponent i - e.exponent i) = some f := by
      rw [← Option.ne_none_iff_exists', Ne, ofInts?_eq_none_iff, not_not]
      exact hrange
    exact hnone f (div?_eq_some_iff.2 ⟨hleast, exponent_ofInts? hf⟩)
  · intro hleast f hf
    obtain ⟨hne, hdifference⟩ := div?_eq_some_iff.1 hf
    have hrange : InRange fun i ↦ d.exponent i - e.exponent i := by
      rw [← funext hdifference]
      exact f.inRange_exponent
    obtain ⟨i, hi⟩ := hleast hrange
    exact hne i hi

end Dimension

/-! ### Products of units -/

namespace Units

variable {K : Type} {us vs ws : Units K} {t : UnitTerm K} {ts ts' rs : List (UnitTerm K)}
  {S : Set (NamedUnit K)}

theorem fitsPower_iff {n : Int} : fitsPower n = true ↔ -2 ^ 31 ≤ n ∧ n < 2 ^ 31 := by
  have hmin : Int32.minValue.toInt = -2 ^ 31 := by decide
  have hmax : Int32.maxValue.toInt = 2 ^ 31 - 1 := by decide
  rw [fitsPower, Bool.and_eq_true, decide_eq_true_iff, decide_eq_true_iff, hmin, hmax]
  omega

/-- All powers in a row of terms are within the limits. -/
def Limited (ts : List (UnitTerm K)) : Prop := ∀ t ∈ ts, fitsPower t.power = true

theorem Limited.addTerm (hts : Limited ts) (ht : fitsPower t.power = true)
    (h : addTerm t ts = .ok ts') : Limited ts' := by
  induction ts generalizing ts' with
  | nil =>
    obtain rfl := Except.ok.inj h
    exact List.forall_mem_singleton.2 ht
  | cons u rest ih =>
    obtain ⟨hu, hrest⟩ := List.forall_mem_cons.1 hts
    rw [Units.addTerm] at h
    split at h
    · split at h
      · rename_i hfits
        obtain rfl := Except.ok.inj h
        exact List.forall_mem_cons.2 ⟨hfits, hrest⟩
      · contradiction
    · obtain ⟨rest', hadd, rfl⟩ := Outcome.map_eq_ok.1 h
      exact List.forall_mem_cons.2 ⟨hu, ih hrest hadd⟩

theorem Limited.foldlM_addTerm (hts : Limited ts) (hrs : Limited rs)
    (h : rs.foldlM (fun ts t ↦ Units.addTerm t ts) ts = .ok ts') : Limited ts' := by
  induction rs generalizing ts with
  | nil =>
    obtain rfl := Except.ok.inj h
    exact hts
  | cons v rs ih =>
    obtain ⟨hv, hrs⟩ := List.forall_mem_cons.1 hrs
    rw [List.foldlM_cons] at h
    obtain ⟨us, hadd, h⟩ := Outcome.bind_eq_ok.1 h
    exact ih (hts.addTerm hv hadd) hrs h

theorem Limited.mul (hus : Limited us.terms) (hvs : Limited vs.terms) (h : us.mul vs = .ok ws) :
    Limited ws.terms := by
  obtain ⟨-, ts, hfold, hterms⟩ := mul_eq_ok h
  rw [hterms]
  exact fun t ht ↦ hus.foldlM_addTerm hvs hfold t (List.mem_of_mem_filter ht)

/-- A power is within the limits because its powers have been looked at. -/
theorem limited_pow {n : Int} (h : us.pow n = .ok vs) : Limited vs.terms := by
  obtain ⟨-, hmap, hterms⟩ := pow_eq_ok h
  rw [hterms]
  intro t ht
  obtain ⟨u, hu, rfl⟩ := List.mem_map.1 (List.mem_of_mem_filter ht)
  exact fits_of_mapM_powTerm hmap u hu

/-- **No power of a product of units leaves the limits.** -/
theorem Built.limited (h : Built S us) : Limited us.terms := by
  induction h with
  | one => exact nofun
  | single _ =>
    have hone : fitsPower 1 = true := by decide
    exact List.forall_mem_singleton.2 hone
  | mul _ _ h hus hvs => exact hus.mul hvs h
  | div _ _ h hus _ =>
    obtain ⟨inverse, hinverse, h⟩ := Outcome.bind_eq_ok.1 h
    exact hus.mul (limited_pow hinverse) h
  | pow _ h _ => exact limited_pow h

/-- **A product that can be inverted**: it has neither the least exponent nor the least power. -/
structure Invertible (us : Units K) : Prop where
  exponent_ne : ∀ i, us.dimension.exponent i ≠ -128
  power_ne : ∀ t ∈ us.terms, t.power ≠ -2 ^ 31

/-- **A quotient that fits**: its exponents and its powers, which are differences, are in range. -/
structure QuotientFits (us vs : Units K) : Prop where
  exponents : Dimension.InRange fun i ↦ us.dimension.exponent i - vs.dimension.exponent i
  powers : ∀ name, fitsPower (us.powerOf name - vs.powerOf name) = true

theorem quotientFits_self (us : Units K) : us.QuotientFits us := by
  refine ⟨fun i ↦ ?_, fun name ↦ ?_⟩
  · beta_reduce
    rw [sub_self]
    decide
  · rw [sub_self]
    decide

/-- The inverse exists if nothing in the product is the least of its kind. -/
theorem exists_pow_neg_one_iff (hus : Limited us.terms) :
    (∃ inverse, us.pow (-1) = .ok inverse) ↔ us.Invertible := by
  constructor
  · rintro ⟨inverse, hinverse⟩
    obtain ⟨-, hmap, -⟩ := pow_eq_ok hinverse
    refine ⟨fun i hi ↦ ?_, fun t ht hpower ↦ ?_⟩
    · have hrange := inverse.dimension.inRange_exponent i
      rw [exponent_pow hinverse, hi] at hrange
      omega
    · have hfits := fits_of_mapM_powTerm hmap t ht
      rw [hpower, fitsPower_iff] at hfits
      omega
  · rintro ⟨hexponent, hpower⟩
    obtain ⟨d, hd⟩ := Dimension.exists_pow?_neg_one hexponent
    have hfits : ∀ t ∈ us.terms, fitsPower (t.power * -1) = true := by
      intro t ht
      have hlimit := fitsPower_iff.1 (hus t ht)
      have hne := hpower t ht
      rw [fitsPower_iff]
      omega
    exact ⟨_, pow_of_mapM hd (mapM_powTerm hfits)⟩

section Built

variable (hS : S.InjOn NamedUnit.name) (hus : Built S us) (hvs : Built S vs)
include hS hus

/-- The power of a name is within the limits, whether the name occurs or not. -/
theorem Built.fitsPower_powerOf (name : String) : fitsPower (us.powerOf name) = true := by
  by_cases hname : name ∈ names us.terms
  · obtain ⟨t, ht, rfl⟩ := List.mem_map.1 hname
    rw [powerOf, powerIn_of_mem (hus.wellFormed hS).nodup ht]
    exact hus.limited t ht
  · rw [powerOf, powerIn_eq_zero hname]
    decide

include hvs

/-- **When there is a quotient**: it fits and the divisor is invertible. -/
theorem Built.exists_div_iff :
    (∃ ws, us.div vs = .ok ws) ↔ us.QuotientFits vs ∧ vs.Invertible := by
  constructor
  · rintro ⟨ws, hdiv⟩
    have hws : Built S ws := hus.div hvs hdiv
    refine ⟨⟨fun i ↦ ?_, fun name ↦ ?_⟩, ?_⟩
    · beta_reduce
      rw [← exponent_div hdiv]
      exact ws.dimension.inRange_exponent i
    · rw [← powerOf_div hdiv]
      exact hws.fitsPower_powerOf hS name
    · obtain ⟨inverse, hinverse, -⟩ := Outcome.bind_eq_ok.1 hdiv
      exact (exists_pow_neg_one_iff hvs.limited).1 ⟨inverse, hinverse⟩
  · rintro ⟨⟨hexponents, hpowers⟩, hinvertible⟩
    obtain ⟨inverse, hinverse⟩ := (exists_pow_neg_one_iff hvs.limited).2 hinvertible
    obtain ⟨dim, hdim⟩ := exists_dimension_of_injOn hS
    have hsound := hus.sound hdim
    have hsound' := (hvs.pow hinverse).sound hdim
    obtain ⟨d, hd⟩ : ∃ d, us.dimension.mul? inverse.dimension = some d := by
      rw [← Option.ne_none_iff_exists', Ne, Dimension.mul?_eq_none_iff, not_not]
      intro i
      beta_reduce
      rw [exponent_pow hinverse, mul_neg_one, ← sub_eq_add_neg]
      exact hexponents i
    have hfit : PowersFit us.terms inverse.terms := by
      intro t ht v hv hname
      have ht' := powerIn_of_mem hsound.wellFormed.nodup ht
      have hv' := powerIn_of_mem hsound'.wellFormed.nodup hv
      have hpower := powerOf_pow hinverse v.unit.name
      have hdifference := hpowers t.unit.name
      rw [powerOf, hv'] at hpower
      rw [powerOf, ht', hname] at hdifference
      rwa [hpower, mul_neg_one, ← sub_eq_add_neg]
    obtain ⟨ts, hfold⟩ := exists_foldlM_addTerm hsound.follow hsound.wellFormed.nodup hsound'.follow
      hsound'.wellFormed.nodup hfit
    exact ⟨_, Outcome.bind_eq_ok.2 ⟨inverse, hinverse, mul_of_foldlM hd hfold⟩⟩

/-- **When a quotient overflows**: it does not fit, or the divisor is not invertible. -/
theorem Built.div_eq_overflow_iff :
    us.div vs = .error .exponentOverflow ↔ ¬us.QuotientFits vs ∨ ¬vs.Invertible := by
  rw [← not_and_or, ← hus.exists_div_iff hS hvs]
  cases hdiv : us.div vs with
  | ok ws => exact iff_of_false nofun (not_not.2 ⟨ws, rfl⟩)
  | error e =>
    obtain rfl := onlyOverflows_div us vs e hdiv
    exact iff_of_true rfl (by rintro ⟨ws, h⟩; contradiction)

end Built

end Units

/-! ### A quantity divided by itself -/

/-- The units that names stand for: the built-in ones and, once there are rates, the currencies. -/
def Context.units (ctx : Context Float) : Set (NamedUnit Float) :=
  {u | ∃ name, ctx.unit? name = some u}

/-- A name determines its unit. -/
theorem Context.injOn_units {ctx : Context Float} (h : Registry.Quotes ctx.registry.units) :
    ctx.units.InjOn NamedUnit.name := by
  rintro u ⟨name, hu⟩ v ⟨name', hv⟩ hname
  rw [(known_of_unit? h hu).name_eq, (known_of_unit? h hv).name_eq] at hname
  rw [hname, hv] at hu
  exact (Option.some.inj hu).symm

namespace Rules

open Reckoner.Units

/-- A quotient of quantities, as far as their units have one. -/
theorem apply_divide {K : Type} [Scalar K] {q r : Quantity K} (hr : (r.base == 0) = false) :
    standard.apply .divide (.quantity q) (.quantity r) =
      (q.units.div r.units).map fun us ↦ ofProduct ⟨q.base / r.base, us⟩ := by
  have hmem : ((.divide, .quantity, .quantity), multiplyQuantities (K := K)) ∈ arithmeticRules := by
    simp [arithmeticRules]
  rw [apply_standard (a := .quantity q) (b := .quantity r) hmem, multiplyQuantities, if_pos rfl,
    if_neg (Bool.eq_false_iff.1 hr)]
  cases q.units.div r.units <;> rfl

variable {S : Set (NamedUnit Float)} {us : Units Float} {x : Float}

theorem ofProduct_one (h : ∀ i, us.dimension.exponent i = 0) :
    ofProduct ⟨(1 : Float), us⟩ = .number 1 := by
  have hnone : (Quantity.mk (1 : Float) us).dimension.isNone = true := Dimension.isNone_iff.2 h
  have hdefined : ¬Scalar.isNaN (1 : Float) = true := by decide
  rw [ofProduct, if_pos hnone, Value.ofNumber, if_neg hdefined]

theorem apply_divide_self (hS : S.InjOn NamedUnit.name) (hus : Built S us)
    (hfinite : x.isFinite = true) (hx : (x == 0) = false) :
    (us.Invertible →
      standard.apply .divide (.quantity ⟨x, us⟩) (.quantity ⟨x, us⟩) = .ok (.number 1)) ∧
    (¬us.Invertible → standard.apply .divide (.quantity ⟨x, us⟩) (.quantity ⟨x, us⟩) =
      .error .exponentOverflow) := by
  have hquotient : x / x = 1 := by
    obtain ⟨v, hv⟩ := Double.exists_hasValue hfinite
    refine Double.div_self_eq_one hv fun hzero ↦ ?_
    have hbeq : (x == 0) = true := (Double.beq_iff hv Double.hasValue_zero).2 hzero
    rw [hx] at hbeq
    contradiction
  rw [apply_divide hx]
  dsimp only
  rw [hquotient]
  constructor
  · intro hinvertible
    obtain ⟨ws, hdiv⟩ := (hus.exists_div_iff hS hus).2 ⟨quotientFits_self us, hinvertible⟩
    have hnone (i : Fin 10) : ws.dimension.exponent i = 0 := by rw [exponent_div hdiv, sub_self]
    rw [hdiv, ← ofProduct_one hnone]
    rfl
  · intro hleast
    rw [(hus.div_eq_overflow_iff hS hus).2 (.inr hleast)]
    rfl

end Rules

namespace Context

open Reckoner.Units

/-- **When exponents overflow**, where names stand for the units of a context. Products and powers
of dimensions have a result exactly if it is in range. Quotients have one exactly if it is in range
and the divisor has no least exponent, and for products of units exactly if it is in range and the
divisor is invertible. -/
structure OverflowLaws (ctx : Context Float) : Prop where
  mul : ∀ d e f : Dimension,
    d.mul? e = some f ↔ ∀ i, f.exponent i = d.exponent i + e.exponent i
  mul_none : ∀ d e : Dimension,
    d.mul? e = none ↔ ¬Dimension.InRange fun i ↦ d.exponent i + e.exponent i
  pow : ∀ (d f : Dimension) (n : Int), d.pow? n = some f ↔ ∀ i, f.exponent i = d.exponent i * n
  pow_none : ∀ (d : Dimension) (n : Int),
    d.pow? n = none ↔ ¬Dimension.InRange fun i ↦ d.exponent i * n
  div : ∀ d e f : Dimension, d.div? e = some f ↔
    (∀ i, e.exponent i ≠ -128) ∧ ∀ i, f.exponent i = d.exponent i - e.exponent i
  div_none : ∀ d e : Dimension, d.div? e = none ↔
    (¬Dimension.InRange fun i ↦ d.exponent i - e.exponent i) ∨ ∃ i, e.exponent i = -128
  quotient : ∀ us vs, Built ctx.units us → Built ctx.units vs →
    (us.div vs = .error .exponentOverflow ↔ ¬us.QuotientFits vs ∨ ¬vs.Invertible)
  self_quotient : ∀ us x, Built ctx.units us → x.isFinite = true → (x == 0) = false →
    us.Invertible →
      ctx.engine.rules.apply .divide (.quantity ⟨x, us⟩) (.quantity ⟨x, us⟩) = .ok (.number 1)
  self_overflow : ∀ us x, Built ctx.units us → x.isFinite = true → (x == 0) = false →
    ¬us.Invertible → ctx.engine.rules.apply .divide (.quantity ⟨x, us⟩) (.quantity ⟨x, us⟩) =
      .error .exponentOverflow

/-- **Exponents overflow exactly by these laws** in the standard engine, whatever has been reported
about currencies. -/
theorem overflow_exact (limits : Limits) (events : List (CurrencyEvent Float)) :
    OverflowLaws ⟨.standard limits, Registry.uninitialized.afterAll events⟩ := by
  have hquotes : Registry.Quotes ((Registry.uninitialized (K := Float)).afterAll events).units :=
    Registry.quotes_afterAll Registry.quotes_empty events
  let ctx : Context Float := ⟨.standard limits, Registry.uninitialized.afterAll events⟩
  have hS : (units ctx).InjOn NamedUnit.name := injOn_units hquotes
  exact
    { mul := fun _ _ _ ↦ Dimension.mul?_eq_some_iff
      mul_none := fun _ _ ↦ Dimension.mul?_eq_none_iff
      pow := fun _ _ _ ↦ Dimension.pow?_eq_some_iff
      pow_none := fun _ _ ↦ Dimension.pow?_eq_none_iff
      div := fun _ _ _ ↦ Dimension.div?_eq_some_iff
      div_none := fun _ _ ↦ Dimension.div?_eq_none_iff
      quotient := fun _ _ hus hvs ↦ hus.div_eq_overflow_iff hS hvs
      self_quotient := fun _ _ hus hfinite hx ↦ (Rules.apply_divide_self hS hus hfinite hx).1
      self_overflow := fun _ _ hus hfinite hx ↦ (Rules.apply_divide_self hS hus hfinite hx).2 }

/-- A second is invertible, and divided by itself it is one. -/
theorem overflow_exact_seconds :
    let ctx : Context Float := ⟨.standard {}, Registry.uninitialized.afterAll []⟩
    let us := single Rules.seconds
    Built ctx.units us ∧ us.Invertible ∧
      ctx.engine.rules.apply .divide (.quantity ⟨1, us⟩) (.quantity ⟨1, us⟩) = .ok (.number 1) := by
  intro ctx us
  have hbuilt : Built ctx.units us := .single ⟨"s", rfl⟩
  have hinvertible : us.Invertible :=
    ⟨by decide, List.forall_mem_singleton.2 (by decide : (1 : Int) ≠ -2 ^ 31)⟩
  exact ⟨hbuilt, hinvertible,
    (overflow_exact {} []).self_quotient us 1 hbuilt (by decide) (by decide) hinvertible⟩

/-- A quantity of `s^-128`, the product of `s^-64` with itself, cannot be divided by itself,
although its quotient has no exponents left; nor can its dimension. -/
theorem exists_self_quotient_overflows :
    let ctx : Context Float := ⟨.standard {}, .uninitialized⟩
    ∃ s root us, ctx.unit? "s" = some s ∧ (single s).pow (-64) = .ok root ∧ root.mul root = .ok us ∧
      us.QuotientFits us ∧ us.dimension.div? us.dimension = none ∧
      ctx.engine.rules.apply .divide (.quantity ⟨1, us⟩) (.quantity ⟨1, us⟩) =
        .error .exponentOverflow := by
  refine ⟨Rules.seconds, _, _, rfl, rfl, rfl, quotientFits_self _, ?_, ?_⟩
  · decide
  · rfl

end Context

end Reckoner
