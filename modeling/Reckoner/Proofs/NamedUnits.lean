import Reckoner.Engine.Evaluation
import Reckoner.Proofs.DefinedDoubles
import Reckoner.Proofs.RegistryView
import Reckoner.Proofs.UnitAlgebra

/-!
# What the names of units stand for

A name that stands for a unit stands for one dimension, before and after exchange rates have arrived:
a symbol that names a built-in unit never becomes a currency, and every other unit is one. This is
what a product of units relies on when it merges terms by their names.

The factors are defined, too. Those of built-in units are finite and not zero, and so are the scales
of prefixes. That of a currency is the reciprocal of a finite rate, and so perhaps infinite.
-/

namespace Reckoner

/-- The dimension that a name stands for, if it stands for any unit. -/
def Units.dimensionOf (name : String) : Dimension :=
  ((lookup (K := Float) name).map (·.dimension)).getD (.base .currency)

/-- **What is known about the unit of a name**: it bears the name and has the dimension that the name
stands for, which is not none, and its factor is defined. -/
structure NamedUnit.Known (name : String) (u : NamedUnit Float) : Prop where
  name_eq : u.name = name
  dimension_eq : u.dimension = Units.dimensionOf name
  hasDimension : u.dimension.isNone = false
  defined : u.factor.isNaN = false

/-! ### Built-in units -/

namespace Units

theorem dimensionOf_eq_of_lookup {name : String} {u : NamedUnit Float} (h : lookup name = some u) :
    dimensionOf name = u.dimension := by
  rw [dimensionOf, h, Option.map_some, Option.getD_some]

theorem dimensionOf_eq_currency {name : String} (h : lookup (K := Float) name = none) :
    dimensionOf name = .base .currency := by
  rw [dimensionOf, h, Option.map_none, Option.getD_none]

theorem hasDimension_of_mem_builtin :
    ∀ d ∈ builtin (K := Float), d.dimension.isNone = false := by
  decide +kernel

theorem isProper_of_mem_builtin :
    ∀ d ∈ builtin (K := Float), Double.isProper d.factor = true := by
  decide

theorem isProper_of_mem_shortPrefixes :
    ∀ e ∈ shortPrefixes (K := Float), Double.isProper e.2 = true := by
  decide

theorem isProper_of_mem_longPrefixes :
    ∀ e ∈ longPrefixes (K := Float), Double.isProper e.2 = true := by
  decide

theorem of_definition? {K : Type} [Scalar K] {name : String} {d : UnitDefinition K}
    (h : definition? name = some d) : d ∈ builtin ∧ name ∈ d.names := by
  rw [definition?] at h
  have hcontains := List.find?_some h
  exact ⟨List.mem_of_find?_eq_some h, List.contains_iff_mem.1 hcontains⟩

theorem afterPrefix?_eq_some {lead name rest : String} (h : afterPrefix? lead name = some rest) :
    name.toList = lead.toList ++ rest.toList := by
  rw [afterPrefix?] at h
  split at h
  · rename_i hprefix
    obtain rfl := Option.some.inj h
    obtain ⟨cs, hcs⟩ := List.isPrefixOf_iff_prefix.1 hprefix
    rw [String.toList_ofList, ← hcs, ← String.length_toList, List.drop_left]
  · contradiction

/-- A unit whose name is a prefix and one of the names of a built-in unit. -/
def IsPrefixed {K : Type} [Scalar K] (prefixes : List (String × K)) (name : String)
    (u : NamedUnit K) : Prop :=
  ∃ d ∈ builtin, ∃ e ∈ prefixes, ∃ rest ∈ d.names, name.toList = e.1.toList ++ rest.toList ∧
    u = ⟨name, d.dimension, d.factor * e.2⟩

theorem of_prefixed? {K : Type} [Scalar K] {kind : Prefixes} {prefixes : List (String × K)}
    {name : String} {u : NamedUnit K} (h : prefixed? kind prefixes name = some u) :
    IsPrefixed prefixes name u := by
  obtain ⟨e, he, h⟩ := List.exists_of_findSome?_eq_some h
  obtain ⟨rest, hrest, h⟩ := Option.bind_eq_some_iff.1 h
  obtain ⟨d, hd, h⟩ := Option.bind_eq_some_iff.1 h
  obtain ⟨hmem, hname⟩ := of_definition? hd
  split at h
  · exact ⟨d, hmem, e, he, rest, hname, afterPrefix?_eq_some hrest, (Option.some.inj h).symm⟩
  · contradiction

/-- **What is found under a name**: a built-in unit, as it stands or scaled by a prefix. -/
theorem lookup_cases {K : Type} [Scalar K] {name : String} {u : NamedUnit K}
    (h : lookup name = some u) :
    (∃ d ∈ builtin, name ∈ d.names ∧ u = ⟨name, d.dimension, d.factor⟩) ∨
      IsPrefixed shortPrefixes name u ∨ IsPrefixed longPrefixes name u := by
  rw [lookup] at h
  split at h
  · rename_i d hd
    obtain ⟨hmem, hname⟩ := of_definition? hd
    exact .inl ⟨d, hmem, hname, (Option.some.inj h).symm⟩
  · rw [Option.orElse_eq_orElse, Option.orElse_eq_or] at h
    rcases Option.or_eq_some_iff.1 h with h | ⟨-, h⟩
    · exact .inr (.inl (of_prefixed? h))
    · exact .inr (.inr (of_prefixed? h))

/-- A unit with a prefix has the dimension of the unit behind it, and a factor that is scaled. -/
theorem IsPrefixed.known {prefixes : List (String × Float)} {name : String} {u : NamedUnit Float}
    (hprefixes : ∀ e ∈ prefixes, Double.isProper e.2 = true) (h : IsPrefixed prefixes name u) :
    u.name = name ∧ u.dimension.isNone = false ∧ u.factor.isNaN = false := by
  obtain ⟨d, hd, e, he, -, -, -, rfl⟩ := h
  have hfactor := Double.isNaN_of_isProper (isProper_of_mem_builtin d hd)
  exact ⟨rfl, hasDimension_of_mem_builtin d hd, Double.isNaN_mul hfactor (hprefixes e he)⟩

theorem known_of_lookup {name : String} {u : NamedUnit Float} (h : lookup name = some u) :
    u.Known name := by
  have hdimension := dimensionOf_eq_of_lookup h
  suffices u.name = name ∧ u.dimension.isNone = false ∧ u.factor.isNaN = false from
    ⟨this.1, hdimension.symm, this.2.1, this.2.2⟩
  rcases lookup_cases h with ⟨d, hd, -, rfl⟩ | h | h
  · exact ⟨rfl, hasDimension_of_mem_builtin d hd,
      Double.isNaN_of_isProper (isProper_of_mem_builtin d hd)⟩
  · exact h.known isProper_of_mem_shortPrefixes
  · exact h.known isProper_of_mem_longPrefixes

end Units

/-! ### Currencies -/

namespace Registry

/-- A table in which the units are known under their symbols. -/
def Quotes (units : Table String (NamedUnit Float)) : Prop :=
  ∀ symbol u, units.get? symbol = some u → u.Known symbol

theorem quotes_empty : Quotes .empty :=
  nofun

theorem Quotes.insert {units : Table String (NamedUnit Float)} (h : Quotes units) {symbol : String}
    {u : NamedUnit Float} (hu : u.Known symbol) : Quotes (units.insert symbol u) := by
  intro symbol' u' hget
  rw [Table.get?_insert] at hget
  split at hget
  · rename_i heq
    obtain rfl := Option.some.inj hget
    rwa [heq]
  · exact h symbol' u' hget

/-- A currency under a free symbol is known. -/
theorem known_currency {symbol : String} {factor : Float}
    (hfree : (Units.lookup (K := Float) symbol).isNone = true) (hfactor : factor.isNaN = false) :
    NamedUnit.Known symbol ⟨symbol, .base .currency, factor⟩ := by
  have hdimension : (Dimension.base .currency).isNone = false := by decide +kernel
  have hcurrency := Units.dimensionOf_eq_currency (Option.isNone_iff_eq_none.1 hfree)
  exact ⟨rfl, hcurrency.symm, hdimension, hfactor⟩

theorem quotes_defined (data : ExchangeRates Float) : Quotes (defined data) := by
  rw [defined]
  dsimp only
  generalize hstart : (if (Units.lookup (K := Float) data.base).isNone then _ else _) = start
  have hquotes : Quotes start := by
    rw [← hstart]
    split
    · rename_i hfree
      exact quotes_empty.insert (known_currency hfree (Double.isNaN_of_isProper Double.isProper_one))
    · exact quotes_empty
  clear hstart
  induction data.rates.entries generalizing start with
  | nil => exact hquotes
  | cons e entries ih =>
    obtain ⟨symbol, rate⟩ := e
    rw [List.foldl_cons]
    refine ih _ ?_
    dsimp only
    split
    · exact hquotes
    · rename_i hskip
      simp only [Bool.or_eq_true, Bool.not_eq_true', not_or, Bool.not_eq_false] at hskip
      obtain ⟨⟨⟨-, hfinite⟩, -⟩, hfree⟩ := hskip
      exact hquotes.insert (known_currency hfree
        (Double.isNaN_div_of_left Double.isProper_one (Double.isNaN_of_isFinite hfinite)))

theorem quotes_after {registry : Registry Float} (h : Quotes registry.units)
    (event : CurrencyEvent Float) : Quotes (registry.after event).units := by
  cases event with
  | begin =>
    rw [after, begin]
    split <;> exact h
  | complete data =>
    rw [after, register]
    split
    · exact h
    · exact quotes_defined data
  | fail reason =>
    rw [after, fail]
    split <;> exact h

/-- **Whatever has been reported**, the registry quotes currencies under their symbols. -/
theorem quotes_afterAll {registry : Registry Float} (h : Quotes registry.units)
    (events : List (CurrencyEvent Float)) : Quotes (registry.afterAll events).units := by
  rw [afterAll]
  induction events generalizing registry with
  | nil => exact h
  | cons event events ih => exact ih (quotes_after h event)

end Registry

/-! ### All units -/

/-- **The unit of a name is known.** -/
theorem Context.known_of_unit? {ctx : Context Float} (h : Registry.Quotes ctx.registry.units)
    {name : String} {u : NamedUnit Float} (hunit : ctx.unit? name = some u) : u.Known name := by
  rcases Option.or_eq_some_iff.1 hunit with hunit | ⟨-, hunit⟩
  · exact Units.known_of_lookup hunit
  · rw [Registry.lookup] at hunit
    split at hunit
    · exact h name u hunit
    · contradiction

theorem Scalar.powInt_one {K : Type} [Scalar K] (x : K) : powInt x 1 = 1 * x := by
  rw [powInt, Int.natAbs_one, powBySquaring]
  rfl

theorem Units.factor_single {K : Type} [Scalar K] (u : NamedUnit K) :
    (single u).factor = 1 * (1 * u.factor) :=
  congrArg (1 * ·) (Scalar.powInt_one u.factor)

namespace NamedUnit.Known

variable {name : String} {u : NamedUnit Float}

theorem sound_single (h : u.Known name) : (Units.single u).Sound Units.dimensionOf := by
  refine Units.sound_single ?_
  rw [h.dimension_eq, h.name_eq]

/-- One of a unit is a defined number of base units. -/
theorem defined_single (h : u.Known name) :
    (Quantity.ofValue 1 (.single u)).base.isNaN = false := by
  rw [Quantity.ofValue, Units.factor_single]
  -- The factor of a single unit is multiplied by one twice, and then the value one by it.
  have hone : ∀ {x : Float}, x.isNaN = false → (1 * x).isNaN = false :=
    Double.isNaN_mul_of_left Double.isProper_one
  exact hone (hone (hone h.defined))

end NamedUnit.Known

end Reckoner
