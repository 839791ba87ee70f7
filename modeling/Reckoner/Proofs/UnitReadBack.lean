import Reckoner.Proofs.EvaluationLimits
import Reckoner.Proofs.NamedUnits
import Reckoner.Proofs.StandardRules
import Reckoner.Proofs.UnitGroup
import Reckoner.Proofs.UnitText

/-!
# Displayed units read back as the same quantity

A literal with the text of some units is evaluated to the quantity of this value in these units, in
exact arithmetic (`Units.readsBack`). The text is evaluated in an order of its own: from left to
right, and what stands behind a slash in parentheses before it is divided by. On the way dimensions may
cancel, and then a product is a plain number; and an intermediate dimension or power may leave its
range, although that of the whole product does not.

So a value is followed by two things that no intermediate form changes: how many base units it is, and
the exponents of its dimension as integers (`Value.Measures`). A plain number has the exponents zero.
Each operator multiplies, divides or raises the one and adds, subtracts or multiplies the other, or it
fails because an exponent overflows. The exponents of the whole product are those of the units, which
are not all zero, so the result is a quantity.
-/

namespace Reckoner

/-! ### Units of the table -/

namespace Units

/-- The units that are found in the table of built-in units. -/
def listed (K : Type) [Scalar K] : Set (NamedUnit K) := {u | ∃ name, lookup name = some u}

theorem spelled_of_mem_builtin : ∀ d ∈ builtin (K := ℚ), d.factor ≠ 0 ∧
    ∀ name ∈ d.names, name.toList ≠ [] ∧ name.toList.all isNameStart = true := by
  decide +kernel

theorem spelled_of_mem_prefixes : ∀ e ∈ shortPrefixes (K := ℚ) ++ longPrefixes, e.2 ≠ 0 ∧
    e.1.toList.all isNameStart = true := by
  decide +kernel

section

variable {name : String} {u : NamedUnit ℚ}

/-- Factors of units are not zero, and their names consist of characters that start names. -/
theorem spelled_of_lookup (h : lookup name = some u) :
    u.factor ≠ 0 ∧ name.toList ≠ [] ∧ name.toList.all isNameStart = true := by
  have hprefixed {prefixes : List (String × ℚ)} (hsubset : prefixes ⊆ shortPrefixes ++ longPrefixes)
      (h : IsPrefixed prefixes name u) :
      u.factor ≠ 0 ∧ name.toList ≠ [] ∧ name.toList.all isNameStart = true := by
    obtain ⟨d, hd, e, he, rest, hrest, hname, rfl⟩ := h
    obtain ⟨hfactor, hnames⟩ := spelled_of_mem_builtin d hd
    obtain ⟨hscale, hprefix⟩ := spelled_of_mem_prefixes e (hsubset he)
    obtain ⟨hne, hstarts⟩ := hnames rest hrest
    rw [hname, List.all_append, hprefix, hstarts]
    exact ⟨mul_ne_zero hfactor hscale, List.append_ne_nil_of_right_ne_nil _ hne, rfl⟩
  rcases lookup_cases h with ⟨d, hd, hname, rfl⟩ | h | h
  · obtain ⟨hfactor, hnames⟩ := spelled_of_mem_builtin d hd
    exact ⟨hfactor, hnames name hname⟩
  · exact hprefixed (List.subset_append_left _ _) h
  · exact hprefixed (List.subset_append_right _ _) h

theorem name_of_lookup (h : lookup name = some u) : u.name = name := by
  rcases lookup_cases h with ⟨d, hd, -, rfl⟩ | ⟨d, hd, e, he, -, -, -, rfl⟩ |
    ⟨d, hd, e, he, -, -, -, rfl⟩ <;> rfl

/-- A name that stands for a unit is none of some words that stand for none. -/
theorem ne_of_lookup (h : lookup name = some u) {word : String}
    (hword : (lookup (K := ℚ) word).isNone = true) : name ≠ word := by
  rintro rfl
  rw [h] at hword
  contradiction

theorem isName_of_lookup (h : lookup name = some u) : isName name = true := by
  obtain ⟨-, hne, hstarts⟩ := spelled_of_lookup h
  rw [List.all_eq_true] at hstarts
  have hto : name ≠ "to" := ne_of_lookup h (by decide)
  have hin : name ≠ "in" := ne_of_lookup h (by decide)
  obtain ⟨c, cs, hcs⟩ := List.exists_cons_of_ne_nil hne
  have hhead : name.toList.head?.any isNameStart = true := by
    rw [hcs]
    exact hstarts c (hcs ▸ List.mem_cons_self)
  have hparts : name.toList.all isNamePart = true :=
    List.all_eq_true.2 fun d hd ↦ isNamePart_of_isNameStart (hstarts d hd)
  rw [isName, hhead, hparts, bne_iff_ne.2 hto, bne_iff_ne.2 hin]
  rfl

/-- No unit has the name of a constant. -/
theorem constant?_of_lookup (h : lookup name = some u) : constant? (K := ℚ) name = none := by
  rw [constant?] <;> exact ne_of_lookup h (by decide)

theorem factor_ne_zero_of_lookup (h : lookup name = some u) : u.factor ≠ 0 :=
  (spelled_of_lookup h).1

end

theorem lookup_of_mem_listed {u : NamedUnit ℚ} (h : u ∈ listed ℚ) : lookup u.name = some u := by
  obtain ⟨name, hu⟩ := h
  rwa [name_of_lookup hu]

/-- A name in the table determines its unit. -/
theorem injOn_listed : (listed ℚ).InjOn NamedUnit.name := by
  intro u hu v hv hname
  have hlookup := lookup_of_mem_listed hu
  rw [hname, lookup_of_mem_listed hv] at hlookup
  exact (Option.some.inj hlookup).symm

end Units

/-! ### What values measure -/

/-- Exponents of the base dimensions, which may be of any size. -/
abbrev Exponents := Fin 10 → ℤ

namespace Value

/-- **What a value measures**: so many base units of the dimension with these exponents. A plain number
has the exponents zero. -/
def Measures : Value ℚ → ℚ → Exponents → Prop
  | .number y, x, f => y = x ∧ ∀ i, f i = 0
  | .quantity q, x, f => q.base = x ∧ ∀ i, q.dimension.exponent i = f i
  | _, _, _ => False

/-- The value of a product measures the same as a number and as a quantity. -/
theorem measures_ofProduct {q : Quantity ℚ} {x : ℚ} {f : Exponents} (hx : q.base = x)
    (hf : ∀ i, q.dimension.exponent i = f i) : (Rules.ofProduct q).Measures x f := by
  rw [Rules.ofProduct]
  split
  · rename_i hnone
    refine ⟨hx, fun i ↦ ?_⟩
    rw [← hf]
    exact Dimension.isNone_iff.1 hnone i
  · exact ⟨hx, hf⟩

end Value

/-- The outcome of an expression with units: a value with this measure, or an error. An exponent
overflows, or a power of a unit is too large; the latter is possible only if `big` holds. -/
def Yields (big : Prop) (o : Except EvalError (Value ℚ)) (x : ℚ) (f : Exponents) : Prop :=
  (∃ v, o = .ok v ∧ v.Measures x f) ∨ o = .error .exponentOverflow ∨
    (big ∧ ∃ text, o = .error (.invalidArgument (.unitExponent text)))

namespace Yields

variable {big : Prop} {x y : ℚ} {f g : Exponents} {a b v : Value ℚ}

theorem of_measures (h : v.Measures x f) : Yields big (.ok v) x f := .inl ⟨v, rfl, h⟩

/-- Units that are calculated are calculated, or an exponent overflows. -/
theorem of_units {us : Except EvalError (Units ℚ)} {value : Units ℚ → Value ℚ}
    (hus : OnlyOverflows us) (hvalue : ∀ ws, us = .ok ws → (value ws).Measures x f) :
    Yields big (us >>= fun ws ↦ .ok (value ws)) x f := by
  cases us with
  | ok ws => exact of_measures (hvalue ws rfl)
  | error error => exact .inr (.inl (congrArg Except.error (hus error rfl)))

end Yields

namespace Rules

open Yields (of_measures of_units)

variable {big : Prop} {x y : ℚ} {f g : Exponents} {a b : Value ℚ}

/-- What is not zero is not equal to the numeral zero of scalars. -/
theorem not_beq_zero (hx : x ≠ 0) :
    ¬(@BEq.beq ℚ Scalar.toBEq x (@OfNat.ofNat ℚ 0 Scalar.instOfNat) = true) := by
  intro h
  have hzero : x = Scalar.ofDecimal ⟨0, 0⟩ := eq_of_beq h
  exact hx (hzero.trans ((Scalar.ofNat_eq 0).trans Nat.cast_zero))

/-- A product measures the product of the measures. -/
theorem multiply_yields (ha : a.Measures x f) (hb : b.Measures y g) :
    Yields big (standard.apply .multiply a b) (x * y) (f + g) := by
  cases a with
  | number p =>
    obtain ⟨rfl, hf⟩ := ha
    cases b with
    | number q =>
      obtain ⟨rfl, hg⟩ := hb
      rw [apply_standard (f := calculate) (by simp [arithmeticRules, arithmetic, Value.kind])]
      exact of_measures ⟨rfl, fun i ↦ by rw [Pi.add_apply, hf, hg, add_zero]⟩
    | quantity r =>
      obtain ⟨rfl, hg⟩ := hb
      rw [apply_standard (f := scaleQuantity) (by simp [arithmeticRules, arithmetic, Value.kind])]
      exact of_measures ⟨mul_comm _ _, fun i ↦ by rw [Pi.add_apply, hf, zero_add]; exact hg i⟩
    | _ => exact hb.elim
  | quantity q =>
    obtain ⟨rfl, hf⟩ := ha
    cases b with
    | number r =>
      obtain ⟨rfl, hg⟩ := hb
      rw [apply_standard (f := scaleQuantity) (by simp [arithmeticRules, arithmetic, Value.kind])]
      exact of_measures ⟨rfl, fun i ↦ by rw [Pi.add_apply, hg, add_zero]; exact hf i⟩
    | quantity r =>
      obtain ⟨rfl, hg⟩ := hb
      rw [apply_standard (f := multiplyQuantities)
        (by simp [arithmeticRules, arithmetic, Value.kind])]
      refine of_units (Units.onlyOverflows_mul _ _) fun ws hws ↦ ?_
      refine Value.measures_ofProduct rfl fun i ↦ ?_
      rw [Pi.add_apply, ← hf, ← hg]
      exact Units.exponent_mul hws i
    | _ => exact hb.elim
  | _ => exact ha.elim

/-- A quotient measures the quotient of the measures. -/
theorem divide_yields (ha : a.Measures x f) (hb : b.Measures y g) (hy : y ≠ 0) :
    Yields big (standard.apply .divide a b) (x / y) (f - g) := by
  cases a with
  | number p =>
    obtain ⟨rfl, hf⟩ := ha
    cases b with
    | number q =>
      obtain ⟨rfl, hg⟩ := hb
      rw [apply_standard (f := calculate) (by simp [arithmeticRules, arithmetic, Value.kind]),
        calculate, if_neg (not_beq_zero hy)]
      exact of_measures ⟨rfl, fun i ↦ by rw [Pi.sub_apply, hf, hg, sub_zero]⟩
    | quantity r =>
      obtain ⟨rfl, hg⟩ := hb
      rw [apply_standard (f := invertQuantity) (by simp [arithmeticRules, arithmetic, Value.kind]),
        invertQuantity, if_neg (not_beq_zero hy)]
      refine of_units (Units.onlyOverflows_pow _ _) fun ws hws ↦ ⟨rfl, fun i ↦ ?_⟩
      rw [Pi.sub_apply, hf, ← hg, zero_sub, ← mul_neg_one]
      exact Units.exponent_pow hws i
    | _ => exact hb.elim
  | quantity q =>
    obtain ⟨rfl, hf⟩ := ha
    cases b with
    | number r =>
      obtain ⟨rfl, hg⟩ := hb
      rw [apply_standard (f := scaleQuantity) (by simp [arithmeticRules, arithmetic, Value.kind]),
        scaleQuantity, scale, if_pos rfl, if_neg (not_beq_zero hy)]
      exact of_measures ⟨rfl, fun i ↦ by rw [Pi.sub_apply, hg, sub_zero]; exact hf i⟩
    | quantity r =>
      obtain ⟨rfl, hg⟩ := hb
      rw [apply_standard (f := multiplyQuantities)
        (by simp [arithmeticRules, arithmetic, Value.kind]),
        multiplyQuantities, if_pos rfl, if_neg (not_beq_zero hy)]
      refine of_units (Units.onlyOverflows_div _ _) fun ws hws ↦ ?_
      refine Value.measures_ofProduct rfl fun i ↦ ?_
      rw [Pi.sub_apply, ← hf, ← hg]
      exact Units.exponent_div hws i
    | _ => exact hb.elim
  | _ => exact ha.elim

/-- A whole number is its own integer part. -/
theorem integer?_intCast (n : ℤ) : Scalar.integer? (n : ℚ) = some n := by
  have htruncate : Scalar.truncate? (n : ℚ) = some n := congrArg some (Int.tdiv_one n)
  have hsame : (Scalar.ofInt n == (n : ℚ)) = true := beq_of_eq (Scalar.ofInt_eq n)
  rw [Scalar.integer?, htruncate, Option.filter_some, if_pos hsame]

/-- A power of a quantity measures the power of the measure, unless it is too large. -/
theorem power_yields {q : Quantity ℚ} {n : ℤ} (hn : n ≠ 0) (hbig : maxPower < n.natAbs → big) :
    Yields big (standard.apply .power (.quantity q) (.number (n : ℚ))) (q.base ^ n)
      (fun i ↦ q.dimension.exponent i * n) := by
  rw [apply_standard (f := powerQuantity) (by simp [arithmeticRules, arithmetic, Value.kind]),
    powerQuantity, integer?_intCast, Option.filter_some]
  by_cases hle : n.natAbs ≤ maxPower
  · rw [if_pos (decide_eq_true hle)]
    dsimp only
    rw [if_neg hn, Scalar.powInt_eq_zpow]
    refine of_units (Units.onlyOverflows_pow _ _) fun ws hws ↦ ⟨rfl, fun i ↦ ?_⟩
    exact Units.exponent_pow hws i
  · rw [if_neg (by simpa using hle)]
    exact .inr (.inr ⟨hbig (not_le.1 hle), _, rfl⟩)

end Rules

/-! ### Evaluation -/

/-- Where expressions are evaluated: by the rules of the standard engine, with exact numbers. -/
def Context.exact (limits : Limits) (functions : Functions ℚ) (registry : Registry ℚ) : Context ℚ :=
  ⟨.standardOver limits functions, registry⟩

/-- One of a unit, which is what its name stands for. -/
def NamedUnit.quantity {K : Type} [Scalar K] (u : NamedUnit K) : Quantity K := .ofValue 1 (.single u)

/-- One of a unit is as many base units as its factor says. -/
theorem NamedUnit.base_quantity (u : NamedUnit ℚ) : u.quantity.base = u.factor := by
  have hfactor : (Units.single u).factor = u.factor := by
    rw [Units.factor_eq_prod, Units.single, Units.factorProduct_cons, Units.factorProduct_nil,
      zpow_one, mul_one]
  change Scalar.ofDecimal ⟨1, 0⟩ * (Units.single u).factor = u.factor
  rw [hfactor, Scalar.ofNat_eq, Nat.cast_one, one_mul]

section Evaluation

variable (functions : Functions ℚ) (registry : Registry ℚ)

/-- The outcome of an expression in the empty scope. It is the same under all limits and whatever has
been visited before, and no function is called for it. -/
def Finds (e : Expr ℚ) (o : Except EvalError (Value ℚ)) : Prop :=
  ∀ u, ∃ v, v.frames = u.frames ∧
    ∀ limits, Evaluates (.exact limits functions registry) .empty .unlimited [] e u o v

/-- The outcome of an expression has this measure, or it is one of the errors of `Yields`. -/
def Comes (big : Prop) (e : Expr ℚ) (x : ℚ) (f : Exponents) : Prop :=
  ∃ o, Finds functions registry e o ∧ Yields big o x f

variable {functions registry} {big : Prop} {e e' : Expr ℚ} {x y : ℚ} {f g : Exponents}

theorem frames_visit (u : Usage) : (u.visit ([] : List (Frame ℚ)).length).frames = u.frames :=
  Nat.max_zero u.frames

theorem finds_of_node {o : Except EvalError (Value ℚ)}
    (h : ∀ u, ∃ v, v.frames = u.frames ∧ ∀ limits,
      EvaluatesNode (.exact limits functions registry) .empty .unlimited [] e u o v) :
    Finds functions registry e o := by
  intro u
  obtain ⟨v, hframes, hv⟩ := h (u.visit ([] : List (Frame ℚ)).length)
  exact ⟨v, hframes.trans (frames_visit u), fun limits ↦ .visit nofun (hv limits)⟩

theorem finds_number (x : ℚ) : Finds functions registry (.number x) (.ok (.number x)) :=
  finds_of_node fun u ↦ ⟨u, rfl, fun _ ↦ .number x⟩

theorem finds_symbol {name : String} {u : NamedUnit ℚ} (h : Units.lookup name = some u) :
    Finds functions registry (.symbol name) (.ok (.quantity u.quantity)) := by
  refine finds_of_node fun usage ↦ ⟨usage, rfl, fun limits ↦ ?_⟩
  have hresolve : (Context.exact limits functions registry).resolve .empty [] name =
      .ok (.quantity u.quantity) := by
    have hbinding : binding? (.empty : Scope ℚ) [] name = none := rfl
    have hunit : (Context.exact limits functions registry).unit? name = some u := by
      rw [Context.unit?, h, Option.some_or]
    rw [Context.resolve, hbinding]
    dsimp only
    rw [Units.constant?_of_lookup h]
    dsimp only
    rw [hunit]
    rfl
  rw [← hresolve]
  exact .symbol name

theorem Finds.negated {n : ℚ} (h : Finds functions registry e (.ok (.number n))) :
    Finds functions registry (.signed .minus e) (.ok (.number (-n))) := by
  refine finds_of_node fun u ↦ ?_
  obtain ⟨v, hframes, hv⟩ := h u
  exact ⟨v, hframes, fun limits ↦ .signed (hv limits)⟩

theorem Finds.binary {op : Operator} {a : Value ℚ} {o : Except EvalError (Value ℚ)}
    (h : Finds functions registry e (.ok a)) (h' : Finds functions registry e' o) :
    Finds functions registry (.binary op e e') (o.bind (Rules.standard.apply op a)) := by
  refine finds_of_node fun u ↦ ?_
  obtain ⟨v, hframes, hv⟩ := h u
  obtain ⟨w, hframes', hw⟩ := h' v
  refine ⟨w, hframes'.trans hframes, fun limits ↦ ?_⟩
  have hbinary : EvaluatesNode (.exact limits functions registry) .empty .unlimited []
      (.binary op e e') u _ w := .binary (hv limits) (hw limits)
  rwa [Context.exact, Engine.rules_standardOver] at hbinary

theorem Finds.binary_error {op : Operator} {error : EvalError}
    (h : Finds functions registry e (.error error)) :
    Finds functions registry (.binary op e e') (.error error) := by
  refine finds_of_node fun u ↦ ?_
  obtain ⟨v, hframes, hv⟩ := h u
  exact ⟨v, hframes, fun limits ↦ .binary_error (hv limits)⟩

theorem Finds.comes {v : Value ℚ} (h : Finds functions registry e (.ok v)) (hv : v.Measures x f) :
    Comes functions registry big e x f :=
  ⟨.ok v, h, .of_measures hv⟩

theorem Comes.congr (h : Comes functions registry big e x f) (hx : x = y) (hf : ∀ i, f i = g i) :
    Comes functions registry big e y g := by
  rwa [hx, funext hf] at h

/-- An operation comes to what its rule yields for operands with these measures. -/
theorem Comes.binary {op : Operator} {z : ℚ} {k : Exponents}
    (h : Comes functions registry big e x f) (h' : Comes functions registry big e' y g)
    (hrule : ∀ a b : Value ℚ, a.Measures x f → b.Measures y g →
      Yields big (Rules.standard.apply op a b) z k) :
    Comes functions registry big (.binary op e e') z k := by
  obtain ⟨o, ho, ⟨a, rfl, ha⟩ | herror⟩ := h
  · obtain ⟨o', ho', ⟨b, rfl, hb⟩ | herror⟩ := h'
    · exact ⟨_, ho.binary ho', hrule a b ha hb⟩
    · rcases herror with rfl | ⟨hbig, text, rfl⟩
      · exact ⟨_, ho.binary ho', .inr (.inl rfl)⟩
      · exact ⟨_, ho.binary ho', .inr (.inr ⟨hbig, text, rfl⟩)⟩
  · rcases herror with rfl | ⟨hbig, text, rfl⟩
    · exact ⟨_, ho.binary_error, .inr (.inl rfl)⟩
    · exact ⟨_, ho.binary_error, .inr (.inr ⟨hbig, text, rfl⟩)⟩

namespace Units

variable {t : UnitTerm ℚ} {ts : List (UnitTerm ℚ)} {us : Units ℚ}

theorem finds_exponent (n : ℤ) (hn : n ≠ 1) :
    ∃ e, powerExpr t.unit.name n = .binary .power (.symbol t.unit.name) e ∧
      Finds functions registry e (.ok (.number (n : ℚ))) := by
  rw [powerExpr, if_neg hn]
  by_cases hneg : n < 0
  · rw [if_pos hneg]
    refine ⟨_, rfl, ?_⟩
    rw [Scalar.ofInt_eq, Int.cast_neg]
    have hnegated : Finds functions registry _ (.ok (.number (-(-n : ℚ)))) :=
      (finds_number (-n : ℚ)).negated
    rwa [neg_neg] at hnegated
  · rw [if_neg hneg]
    refine ⟨_, rfl, ?_⟩
    rw [Scalar.ofInt_eq]
    exact finds_number _

/-- A power of a unit measures the power of the factor. -/
theorem comes_powerExpr (hunit : t.unit ∈ listed ℚ) {n : ℤ} (hn : n ≠ 0)
    (hbig : 64 < n.natAbs → big) :
    Comes functions registry big (powerExpr t.unit.name n) (t.unit.factor ^ n)
      (fun i ↦ t.unit.dimension.exponent i * n) := by
  have hsymbol : Finds functions registry (.symbol t.unit.name) (.ok (.quantity t.unit.quantity)) :=
    finds_symbol (lookup_of_mem_listed hunit)
  by_cases hone : n = 1
  · rw [hone, powerExpr, if_pos rfl, zpow_one]
    exact hsymbol.comes ⟨t.unit.base_quantity, fun i ↦ (mul_one _).symm⟩
  · obtain ⟨e, he, hfinds⟩ := finds_exponent (t := t) n hone
    rw [he]
    rw [← t.unit.base_quantity]
    exact ⟨_, hsymbol.binary hfinds, Rules.power_yields hn hbig⟩

/-- A row of terms multiplies by the power of each. -/
theorem comes_rowExpr (sign : ℤ) (hunits : Within (listed ℚ) ts)
    (hpower : ∀ t ∈ ts, sign * t.power ≠ 0 ∧ (64 < (sign * t.power).natAbs → big))
    (h : Comes functions registry big e x f) :
    Comes functions registry big (rowExpr e ts sign) (x * factorProduct ts ^ sign)
      (f + fun i ↦ exponentSum ts i * sign) := by
  induction ts generalizing e x f with
  | nil =>
    rw [factorProduct_nil, one_zpow, mul_one]
    have hzero : (f + fun i ↦ exponentSum ([] : List (UnitTerm ℚ)) i * sign) = f :=
      funext fun i ↦ (congrArg (f i + ·) (zero_mul sign)).trans (add_zero (f i))
    rwa [hzero]
  | cons t ts ih =>
    obtain ⟨hne, hbig⟩ := hpower t List.mem_cons_self
    have hterm := h.binary (comes_powerExpr (hunits t List.mem_cons_self) hne hbig)
      fun a b ↦ Rules.multiply_yields
    have hrow := ih (fun u hu ↦ hunits u (List.mem_cons_of_mem t hu))
      (fun u hu ↦ hpower u (List.mem_cons_of_mem t hu)) hterm
    have hfactor : x * t.unit.factor ^ (sign * t.power) * factorProduct ts ^ sign =
        x * factorProduct (t :: ts) ^ sign := by
      rw [factorProduct_cons, mul_zpow, ← zpow_mul, mul_comm t.power, mul_assoc]
    have hexponent : ((f + fun i ↦ t.unit.dimension.exponent i * (sign * t.power)) +
        fun i ↦ exponentSum ts i * sign) = f + fun i ↦ exponentSum (t :: ts) i * sign := by
      funext i
      simp only [Pi.add_apply, exponentSum_cons]
      ring
    rwa [hfactor, hexponent] at hrow

/-- The factors on both sides of the slash make up the whole, if no power is zero. -/
theorem factorProduct_filter_mul (hpower : ∀ t ∈ ts, t.power ≠ 0) :
    factorProduct (ts.filter (·.power > 0)) * factorProduct (ts.filter (·.power < 0)) =
      factorProduct ts := by
  induction ts with
  | nil => exact mul_one 1
  | cons t ts ih =>
    have ih := ih fun u hu ↦ hpower u (List.mem_cons_of_mem t hu)
    rw [factorProduct_cons, ← ih]
    rcases lt_or_gt_of_ne (hpower t List.mem_cons_self) with hneg | hpos
    · rw [List.filter_cons_of_neg (by simpa using hneg.le),
        List.filter_cons_of_pos (by simpa using hneg), factorProduct_cons]
      ring
    · rw [List.filter_cons_of_pos (by simpa using hpos),
        List.filter_cons_of_neg (by simpa using hpos.le), factorProduct_cons]
      ring

theorem exponentSum_filter_add (hpower : ∀ t ∈ ts, t.power ≠ 0) (i : Fin 10) :
    exponentSum (ts.filter (·.power > 0)) i + exponentSum (ts.filter (·.power < 0)) i =
      exponentSum ts i := by
  induction ts with
  | nil => rfl
  | cons t ts ih =>
    have ih := ih fun u hu ↦ hpower u (List.mem_cons_of_mem t hu)
    rw [exponentSum_cons, ← ih]
    rcases lt_or_gt_of_ne (hpower t List.mem_cons_self) with hneg | hpos
    · rw [List.filter_cons_of_neg (by simpa using hneg.le),
        List.filter_cons_of_pos (by simpa using hneg), exponentSum_cons]
      ring
    · rw [List.filter_cons_of_pos (by simpa using hpos),
        List.filter_cons_of_neg (by simpa using hpos.le), exponentSum_cons]
      ring

theorem factorProduct_ne_zero (hunits : Within (listed ℚ) ts) : factorProduct ts ≠ 0 := by
  induction ts with
  | nil => exact one_ne_zero
  | cons t ts ih =>
    have hfactor := factor_ne_zero_of_lookup (lookup_of_mem_listed (hunits t List.mem_cons_self))
    rw [factorProduct_cons]
    exact mul_ne_zero (zpow_ne_zero _ hfactor)
      (ih fun u hu ↦ hunits u (List.mem_cons_of_mem t hu))

/-- **A value with units comes to the value in these units.** -/
theorem comes_expr (hunits : Within (listed ℚ) us.terms) (hus : us.WellFormed)
    (hbig : ∀ t ∈ us.terms, 64 < t.power.natAbs → big) (value : ℚ) :
    Comes functions registry big (us.expr value) (value * us.factor) us.dimension.exponent := by
  have hrow {sign : ℤ} (hsign : sign = 1 ∨ sign = -1) {t : UnitTerm ℚ} (ht : t ∈ us.terms) :
      sign * t.power ≠ 0 ∧ (64 < (sign * t.power).natAbs → big) := by
    have hne := hus.power_ne_zero t ht
    have hbig := hbig t ht
    rcases hsign with rfl | rfl
    · rw [one_mul]
      exact ⟨hne, hbig⟩
    · rw [neg_one_mul, Int.natAbs_neg]
      exact ⟨neg_ne_zero.2 hne, hbig⟩
  have habove : ∀ t ∈ us.above, t ∈ us.terms := fun t ht ↦ List.mem_of_mem_filter ht
  have hbelow : ∀ t ∈ us.below, t ∈ us.terms := fun t ht ↦ List.mem_of_mem_filter ht
  have hfactor : us.factor = factorProduct us.above * factorProduct us.below := by
    rw [factor_eq_prod]
    exact (factorProduct_filter_mul hus.power_ne_zero).symm
  have hexponent (i : Fin 10) :
      us.dimension.exponent i = exponentSum us.above i + exponentSum us.below i := by
    rw [hus.exponent_eq]
    exact (exponentSum_filter_add hus.power_ne_zero i).symm
  have hvalue : Comes functions registry big (.number value) value 0 :=
    (finds_number value).comes ⟨rfl, fun _ ↦ rfl⟩
  -- A row in front of the slash, and one without a slash, multiplies the value.
  have hproduct {ts : List (UnitTerm ℚ)} (hts : ∀ t ∈ ts, t ∈ us.terms) :
      Comes functions registry big (rowExpr (.number value) ts 1) (value * factorProduct ts)
        (exponentSum ts) :=
    (comes_rowExpr 1 (fun t ht ↦ hunits t (hts t ht)) (fun t ht ↦ hrow (.inl rfl) (hts t ht))
      hvalue).congr (by rw [zpow_one]) fun i ↦ (zero_add _).trans (mul_one _)
  rw [expr, hfactor]
  generalize us.above = above at habove hexponent ⊢
  generalize us.below = below at hbelow hexponent ⊢
  rcases above with - | ⟨t, above⟩
  · refine (hproduct hbelow).congr (by rw [factorProduct_nil, one_mul]) fun i ↦ ?_
    exact ((hexponent i).trans (zero_add _)).symm
  rcases below with - | ⟨u, below⟩
  · refine (hproduct habove).congr (by rw [factorProduct_nil, mul_one]) fun i ↦ ?_
    exact ((hexponent i).trans (add_zero _)).symm
  -- Behind the slash powers have changed their signs, and the row is divided by.
  have hu : u ∈ us.terms := hbelow u List.mem_cons_self
  have hts : ∀ t ∈ below, t ∈ us.terms := fun t ht ↦ hbelow t (List.mem_cons_of_mem u ht)
  have hwithin : Within (listed ℚ) below := fun t ht ↦ hunits t (hts t ht)
  obtain ⟨hne, hlarge⟩ := hrow (.inr rfl) hu
  have hpower : Comes functions registry big (powerExpr u.unit.name (-1 * u.power)) _ _ :=
    comes_powerExpr (hunits u hu) hne hlarge
  have hdivisor := comes_rowExpr (-1) hwithin (fun t ht ↦ hrow (.inr rfl) (hts t ht)) hpower
  have hzero : u.unit.factor ^ (-1 * u.power) * factorProduct below ^ (-1 : ℤ) ≠ 0 :=
    mul_ne_zero (zpow_ne_zero _ (factor_ne_zero_of_lookup (lookup_of_mem_listed (hunits u hu))))
      (zpow_ne_zero _ (factorProduct_ne_zero hwithin))
  refine ((hproduct habove).binary hdivisor fun a b ha hb ↦
    Rules.divide_yields ha hb hzero).congr ?_ fun i ↦ ?_
  · rw [factorProduct_cons u, neg_one_mul, zpow_neg, zpow_neg_one, div_eq_mul_inv, mul_inv, inv_inv,
      inv_inv, mul_assoc]
  · rw [hexponent, exponentSum_cons u, Pi.sub_apply, Pi.add_apply]
    ring

end Units

end Evaluation

/-! ### Lines -/

namespace Units

/-- **A literal with units is read back.** From some limit of depth on the line is read, and from some
budget on its execution is a quantity with the dimension of the units and as many base units as the
value times their factor; or an exponent overflows on the way, or some power is larger than powers may
be. -/
def ReadsBack (functions : Functions ℚ) (registry : Registry ℚ) (l : Decimal.Literal)
    (us : Units ℚ) : Prop :=
  ∃ (s : Statement ℚ) (r : Except EvalError (Value ℚ × Scope ℚ)),
    (∃ depth, ∀ limit ≥ depth, Statement.ofText limit (l.text ++ " " ++ us.text) = .ok s) ∧
    (∃ budget, ∀ limits : Limits, budget ≤ limits.stepBudget →
      s.execute (.exact limits functions registry) .empty = r) ∧
    ((∃ q, r = .ok (.quantity q, .empty) ∧ q.dimension = us.dimension ∧
        q.base = l.value.toRat * us.factor) ∨
      r = .error .exponentOverflow ∨
      ((∃ t ∈ us.terms, 64 < t.power.natAbs) ∧
        ∃ given, r = .error (.invalidArgument (.unitExponent given))))

/-- An expression that comes to an outcome does so when it is executed, if the budget is not too
small. -/
theorem exists_execute_eq {functions : Functions ℚ} {registry : Registry ℚ} {e : Expr ℚ}
    {o : Except EvalError (Value ℚ)} (h : Finds functions registry e o) :
    ∃ budget, ∀ limits : Limits, budget ≤ limits.stepBudget →
      Statement.execute (.exact limits functions registry) .empty ⟨.expression e, false⟩ =
        o.map fun v ↦ (v, .empty) := by
  obtain ⟨v, hframes, hv⟩ := h .zero
  refine ⟨v.steps, fun limits hbudget ↦ ?_⟩
  let ctx := Context.exact limits functions registry
  have hexecutes : Statement.Executes ctx .empty .unlimited ⟨.expression e, false⟩
      ((o.map fun v ↦ (v, (.empty : Scope ℚ))).map fun (v, after) ↦ (v, after)) v :=
    ⟨_, .expression (hv limits), rfl⟩
  have hlimits := (Statement.limits_exact ctx .empty ⟨.expression e, false⟩ limits.stepBudget
    limits.maxCallDepth).2.1 _ v hexecutes hbudget (hframes.trans_le (Nat.zero_le _))
  have hsame : (o.map fun v ↦ (v, (.empty : Scope ℚ))).map (fun (v, after) ↦ (v, after)) =
      o.map fun v ↦ (v, .empty) := by
    cases o <;> rfl
  rw [hsame] at hlimits
  exact hlimits.1

end Units

end Reckoner
