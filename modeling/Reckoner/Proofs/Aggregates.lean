import Reckoner.Proofs.DisplayUnits
import Reckoner.Proofs.InfiniteDoubles

/-!
# Aggregates

The four aggregates, the smallest and the largest argument, the sum and the mean, go through their
arguments by one fold. It takes numbers, or quantities of one dimension, which it folds by their
magnitudes in base units (`Functions.aggregate_eq_ok_iff`), and so it takes a list in any order or in
none (`Homogeneous.perm`, `Functions.exists_eq_ok_iff`).

The smallest and the largest argument are chosen by comparing doubles, infinities and the two zeros
among them. Each choice is one of its two arguments and bounds both, so the outcome is an argument and
bounds all of them (`Functions.Selects.foldl`). Hence the outcomes for two orders of the same arguments
bound each other, and are equal as numbers, if not always as doubles: they may be the two zeros.
-/

namespace Reckoner

/-! ### Arguments that can be aggregated -/

namespace Value

variable {K : Type}

/-- The number that a value is, or the magnitude of a quantity in base units. -/
def magnitude? : Value K → Option K
  | .number x => some x
  | .quantity q => some q.base
  | _ => none

/-- A value is a number like another one, or a quantity in the display units of another one. -/
inductive SameUnits : Value K → Value K → Prop
  | number (x y : K) : SameUnits (.number x) (.number y)
  | quantity {q r : Quantity K} : q.dimension = r.dimension → q.units = r.units →
      SameUnits (.quantity q) (.quantity r)

section

variable [Scalar K]

theorem magnitude?_ofNumber {x : K} (h : Scalar.isNaN x = false) : (ofNumber x).magnitude? = some x := by
  rw [ofNumber, h]
  rfl

theorem magnitude?_ofQuantity {q : Quantity K} (h : Scalar.isNaN q.base = false) :
    (ofQuantity q).magnitude? = some q.base := by
  rw [ofQuantity, h]
  rfl

theorem sameUnits_ofNumber (x y : K) : (number x).SameUnits (ofNumber y) ∨ ofNumber y = notANumber := by
  rw [ofNumber]
  split
  · exact .inr rfl
  · exact .inl (.number x y)

theorem sameUnits_ofQuantity {q r : Quantity K} (hdimension : q.dimension = r.dimension)
    (hunits : q.units = r.units) :
    (quantity q).SameUnits (ofQuantity r) ∨ ofQuantity r = notANumber := by
  rw [ofQuantity]
  split
  · exact .inr rfl
  · exact .inl (.quantity hdimension hunits)

end

end Value

open Value (SameUnits)

variable {K : Type}

/-- **All arguments are numbers, or all are quantities of one dimension.** -/
def Homogeneous (args : List (Value K)) : Prop :=
  (∀ v ∈ args, ∃ x, v = .number x) ∨
    ∃ d, ∀ v ∈ args, ∃ q, v = .quantity q ∧ q.dimension = d

theorem Homogeneous.perm {args args' : List (Value K)} (h : Homogeneous args)
    (hperm : args.Perm args') : Homogeneous args' :=
  h.imp (fun hall v hv ↦ hall v (hperm.mem_iff.2 hv))
    fun ⟨d, hall⟩ ↦ ⟨d, fun v hv ↦ hall v (hperm.mem_iff.2 hv)⟩

theorem Quantity.ensureSameDimension_eq_ok_iff {q r : Quantity K} {u : PUnit} :
    q.ensureSameDimension r = .ok u ↔ q.dimension = r.dimension := by
  rw [ensureSameDimension]
  split
  · exact iff_of_true rfl ‹_›
  · exact iff_of_false (fun h ↦ by contradiction) ‹_›

namespace Functions

variable {f : K → K → K} {name : String} {args args' : List (Value K)} {v : Value K}

theorem foldNumbers_eq_ok_iff {x y : K} :
    args.foldlM (fun acc v ↦ return f acc (← expectNumber name v)) x = Except.ok y ↔
      ∃ xs : List K, args = xs.map .number ∧ y = xs.foldl f x := by
  induction args generalizing x with
  | nil =>
    constructor
    · intro h
      exact ⟨[], rfl, (Except.ok.inj h).symm⟩
    · rintro ⟨xs, hxs, rfl⟩
      obtain rfl := List.map_eq_nil_iff.1 hxs.symm
      rfl
  | cons v args ih =>
    rw [List.foldlM_cons]
    constructor
    · intro h
      cases v with
      | number z =>
        obtain ⟨xs, rfl, rfl⟩ := ih.1 h
        exact ⟨z :: xs, rfl, rfl⟩
      | _ => contradiction
    · rintro ⟨xs, hxs, rfl⟩
      cases xs with
      | nil => contradiction
      | cons z xs =>
        obtain ⟨rfl, rfl⟩ := List.cons.inj hxs
        exact ih.2 ⟨xs, rfl, rfl⟩

theorem foldQuantities_eq_ok_iff {first : Quantity K} {x y : K} :
    foldQuantities name f first x args = .ok y ↔
      ∃ qs : List (Quantity K), args = qs.map .quantity ∧
        (∀ r ∈ qs, first.dimension = r.dimension) ∧ y = (qs.map Quantity.base).foldl f x := by
  induction args generalizing x with
  | nil =>
    constructor
    · intro h
      exact ⟨[], rfl, List.forall_mem_nil _, (Except.ok.inj h).symm⟩
    · rintro ⟨qs, hqs, -, rfl⟩
      obtain rfl := List.map_eq_nil_iff.1 hqs.symm
      rfl
  | cons v args ih =>
    constructor
    · intro h
      cases v with
      | quantity q =>
        obtain ⟨_, hq, h⟩ := Outcome.bind_eq_ok.1 h
        obtain ⟨qs, rfl, hqs, rfl⟩ := ih.1 h
        exact ⟨q :: qs, rfl,
          List.forall_mem_cons.2 ⟨Quantity.ensureSameDimension_eq_ok_iff.1 hq, hqs⟩, rfl⟩
      | _ => contradiction
    · rintro ⟨qs, hqs, hdimension, rfl⟩
      cases qs with
      | nil => contradiction
      | cons q qs =>
        obtain ⟨rfl, rfl⟩ := List.cons.inj hqs
        obtain ⟨hq, hrest⟩ := List.forall_mem_cons.1 hdimension
        exact Outcome.bind_eq_ok.2
          ⟨⟨⟩, Quantity.ensureSameDimension_eq_ok_iff.2 hq, ih.2 ⟨qs, rfl, hrest, rfl⟩⟩

variable [Scalar K]

/-- **What a fold makes of arguments.** -/
inductive Aggregated (f : K → K → K) : List (Value K) → Value K → Prop
  | numbers (x : K) (xs : List K) : Aggregated f ((x :: xs).map .number) (.ofNumber (xs.foldl f x))
  | quantities {q : Quantity K} {qs : List (Quantity K)} (h : ∀ r ∈ qs, q.dimension = r.dimension) :
      Aggregated f ((q :: qs).map .quantity)
        (.ofQuantity (q.withBase ((qs.map Quantity.base).foldl f q.base)))

theorem aggregate_eq_ok_iff : aggregate name f args = .ok v ↔ Aggregated f args v := by
  constructor
  · intro h
    unfold aggregate at h
    split at h
    · contradiction
    · obtain ⟨total, hfold, h⟩ := Outcome.bind_eq_ok.1 h
      obtain ⟨xs, rfl, rfl⟩ := foldNumbers_eq_ok_iff.1 hfold
      obtain rfl := Except.ok.inj h
      exact .numbers _ xs
    · obtain ⟨total, hfold, h⟩ := Outcome.bind_eq_ok.1 h
      obtain ⟨qs, rfl, hqs, rfl⟩ := foldQuantities_eq_ok_iff.1 hfold
      obtain rfl := Except.ok.inj h
      exact .quantities hqs
    · contradiction
  · intro h
    cases h with
    | numbers x xs => exact Outcome.bind_eq_ok.2 ⟨_, foldNumbers_eq_ok_iff.2 ⟨xs, rfl, rfl⟩, rfl⟩
    | @quantities q qs hqs =>
      exact Outcome.bind_eq_ok.2 ⟨_, foldQuantities_eq_ok_iff.2 ⟨qs, rfl, hqs, rfl⟩, rfl⟩

/-- **The lists that can be aggregated** are those with an argument in which all are alike. -/
theorem exists_aggregated_iff : (∃ v, Aggregated f args v) ↔ args ≠ [] ∧ Homogeneous args := by
  constructor
  · rintro ⟨v, h⟩
    cases h with
    | numbers x xs =>
      refine ⟨List.cons_ne_nil _ _, .inl fun v hv ↦ ?_⟩
      obtain ⟨y, -, rfl⟩ := List.mem_map.1 hv
      exact ⟨y, rfl⟩
    | @quantities q qs hqs =>
      refine ⟨List.cons_ne_nil _ _, .inr ⟨q.dimension, fun v hv ↦ ?_⟩⟩
      obtain ⟨r, hr, rfl⟩ := List.mem_map.1 hv
      refine ⟨r, rfl, ?_⟩
      rcases List.mem_cons.1 hr with rfl | hr
      · rfl
      · exact (hqs r hr).symm
  · rintro ⟨hne, hnumbers | ⟨d, hquantities⟩⟩
    · obtain ⟨xs, rfl⟩ : args ∈ Set.range (List.map Value.number) := by
        rw [Set.range_list_map]
        exact fun v hv ↦ (hnumbers v hv).imp fun _ ↦ Eq.symm
      cases xs with
      | nil => contradiction
      | cons x xs => exact ⟨_, .numbers x xs⟩
    · obtain ⟨qs, rfl⟩ : args ∈ Set.range (List.map Value.quantity) := by
        rw [Set.range_list_map]
        exact fun v hv ↦ (hquantities v hv).imp fun _ h ↦ h.1.symm
      cases qs with
      | nil => contradiction
      | cons q qs =>
        have hdimension : ∀ r ∈ q :: qs, r.dimension = d := by
          intro r hr
          obtain ⟨_, heq, hd⟩ := hquantities (.quantity r) (List.mem_map_of_mem hr)
          obtain rfl := Value.quantity.inj heq
          exact hd
        have hq := hdimension q List.mem_cons_self
        exact ⟨_, .quantities fun r hr ↦ hq.trans (hdimension r (List.mem_cons_of_mem q hr)).symm⟩

/-- A fold of numbers gives a number, and one of quantities gives a quantity in the units of the first
one, unless the outcome is undefined. -/
theorem Aggregated.sameUnits {first : Value K} (h : Aggregated f args v)
    (hfirst : args.head? = some first) : first.SameUnits v ∨ v = .notANumber := by
  cases h with
  | numbers x xs =>
    obtain rfl := Option.some.inj hfirst
    exact Value.sameUnits_ofNumber _ _
  | @quantities q qs hqs =>
    obtain rfl := Option.some.inj hfirst
    exact Value.sameUnits_ofQuantity rfl rfl

/-- The magnitudes that are folded. -/
theorem Aggregated.exists_magnitudes (h : Aggregated f args v) :
    ∃ x xs, args.map Value.magnitude? = (x :: xs).map some ∧
      (Scalar.isNaN (xs.foldl f x) = false → v.magnitude? = some (xs.foldl f x)) := by
  cases h with
  | numbers x xs => exact ⟨x, xs, List.map_map, Value.magnitude?_ofNumber⟩
  | @quantities q qs hqs =>
    refine ⟨q.base, qs.map Quantity.base, ?_, Value.magnitude?_ofQuantity (q := q.withBase _)⟩
    rw [List.map_map, ← List.map_cons, List.map_map]
    rfl

/-! ### The mean -/

/-- A number or a quantity divided by a number. -/
def dividedBy (count : K) : Value K → Value K
  | .number x => .ofNumber (x / count)
  | .quantity q => .ofQuantity (q.withBase (q.base / count))
  | v => v

theorem mean_eq_ok_iff :
    mean args = .ok v ↔
      ∃ w, Aggregated (· + ·) args w ∧ dividedBy (Scalar.ofInt args.length) w = v := by
  rw [mean, Outcome.bind_eq_ok]
  refine exists_congr fun w ↦ and_congr aggregate_eq_ok_iff ?_
  cases w <;> exact iff_of_eq (Except.ok.injEq _ _)

theorem sameUnits_dividedBy {v w : Value K} (h : v.SameUnits w) (count : K) :
    v.SameUnits (dividedBy count w) ∨ dividedBy count w = .notANumber := by
  cases h with
  | number x y => exact Value.sameUnits_ofNumber _ _
  | quantity hdimension hunits => exact Value.sameUnits_ofQuantity hdimension hunits

/-! ### All aggregates -/

/-- The aggregates accept the same lists. -/
theorem exists_eq_ok_iff {e : String × BuiltinFunction K} (he : e ∈ aggregates) :
    (∃ v, e.2 args = .ok v) ↔ args ≠ [] ∧ Homogeneous args := by
  simp only [aggregates, List.mem_cons, List.not_mem_nil, or_false] at he
  rcases he with rfl | rfl | rfl | rfl
  iterate 3 exact (exists_congr fun _ ↦ aggregate_eq_ok_iff).trans exists_aggregated_iff
  · rw [← exists_aggregated_iff (f := (· + ·))]
    constructor
    · rintro ⟨v, h⟩
      obtain ⟨w, hw, -⟩ := mean_eq_ok_iff.1 h
      exact ⟨w, hw⟩
    · rintro ⟨w, hw⟩
      exact ⟨_, mean_eq_ok_iff.2 ⟨w, hw, rfl⟩⟩

/-- What comes out is like the first argument, or undefined. -/
theorem sameUnits_of_eq_ok {e : String × BuiltinFunction K} (he : e ∈ aggregates) {first : Value K}
    (hfirst : args.head? = some first) (h : e.2 args = .ok v) :
    first.SameUnits v ∨ v = .notANumber := by
  simp only [aggregates, List.mem_cons, List.not_mem_nil, or_false] at he
  rcases he with rfl | rfl | rfl | rfl
  iterate 3 exact (aggregate_eq_ok_iff.1 h).sameUnits hfirst
  · obtain ⟨w, hw, rfl⟩ := mean_eq_ok_iff.1 h
    rcases hw.sameUnits hfirst with hsame | rfl
    · exact sameUnits_dividedBy hsame _
    · exact .inr rfl

/-! ### The smallest and the largest argument -/

/-- **A function that selects** one of two doubles that bounds both, in an order of the doubles that are
defined. -/
structure Selects (R : Float → Float → Prop) (f : Float → Float → Float) : Prop where
  choice : ∀ a b, f a b = a ∨ f a b = b
  left : ∀ a b, a.isNaN = false → b.isNaN = false → R (f a b) a
  right : ∀ a b, a.isNaN = false → b.isNaN = false → R (f a b) b
  trans : ∀ a b c, a.isNaN = false → b.isNaN = false → c.isNaN = false → R a b → R b c → R a c

/-- The magnitudes of all arguments are defined. -/
def Defined (args : List (Value Float)) : Prop :=
  ∀ v ∈ args, ∀ x, v.magnitude? = some x → x.isNaN = false

/-- The magnitude of a value is that of an argument, and bounds those of all arguments. -/
def IsExtreme (R : Float → Float → Prop) (args : List (Value Float)) (v : Value Float) : Prop :=
  ∃ x, v.magnitude? = some x ∧ (∃ w ∈ args, w.magnitude? = some x) ∧
    ∀ w ∈ args, ∃ y, w.magnitude? = some y ∧ R x y

section

variable {R : Float → Float → Prop} {f : Float → Float → Float} {args : List (Value Float)}
  {v : Value Float}

/-- What is selected from a list is in it and bounds all of it. -/
theorem Selects.foldl (h : Selects R f) (xs : List Float) :
    ∀ x, (∀ y ∈ x :: xs, y.isNaN = false) →
      xs.foldl f x ∈ x :: xs ∧ ∀ y ∈ x :: xs, R (xs.foldl f x) y := by
  induction xs with
  | nil =>
    intro x hdefined
    have hx := hdefined x List.mem_cons_self
    have hself := h.left x x hx hx
    rw [(h.choice x x).elim id id] at hself
    exact ⟨List.mem_cons_self, List.forall_mem_singleton.2 hself⟩
  | cons y ys ih =>
    intro x hdefined
    obtain ⟨hx, hys⟩ := List.forall_mem_cons.1 hdefined
    have hy := hys y List.mem_cons_self
    have hselected : ∀ z ∈ f x y :: ys, z.isNaN = false := by
      refine List.forall_mem_cons.2 ⟨?_, fun z hz ↦ hys z (List.mem_cons_of_mem y hz)⟩
      rcases h.choice x y with heq | heq <;> rwa [heq]
    obtain ⟨hmem, hbound⟩ := ih (f x y) hselected
    obtain ⟨hfirst, hrest⟩ := List.forall_mem_cons.1 hbound
    have hbounds (z : Float) (hz : z.isNaN = false) (hstep : R (f x y) z) : R (ys.foldl f (f x y)) z :=
      h.trans _ _ z (hselected _ hmem) (hselected _ List.mem_cons_self) hz hfirst hstep
    refine ⟨?_, List.forall_mem_cons.2 ⟨hbounds x hx (h.left x y hx hy), List.forall_mem_cons.2
      ⟨hbounds y hy (h.right x y hx hy), hrest⟩⟩⟩
    rcases List.mem_cons.1 hmem with heq | hin
    · rw [List.foldl_cons, heq]
      rcases h.choice x y with hxy | hxy <;> rw [hxy]
      · exact List.mem_cons_self
      · exact List.mem_cons_of_mem x List.mem_cons_self
    · exact List.mem_cons_of_mem x (List.mem_cons_of_mem y hin)

/-- **The outcome of a selection is an argument and bounds all arguments.** -/
theorem Aggregated.isExtreme (h : Aggregated f args v) (hf : Selects R f) (hargs : Defined args) :
    IsExtreme R args v := by
  obtain ⟨x, xs, hmagnitudes, htotal⟩ := h.exists_magnitudes
  have hmem (y : Float) : y ∈ x :: xs ↔ ∃ w ∈ args, w.magnitude? = some y := by
    rw [← List.mem_map, hmagnitudes, List.mem_map_of_injective (Option.some_injective Float)]
  have hdefined : ∀ y ∈ x :: xs, y.isNaN = false := by
    intro y hy
    obtain ⟨w, hw, hwy⟩ := (hmem y).1 hy
    exact hargs w hw y hwy
  obtain ⟨hin, hbound⟩ := hf.foldl xs x hdefined
  refine ⟨xs.foldl f x, htotal (hdefined _ hin), (hmem _).1 hin, fun w hw ↦ ?_⟩
  have hw' : w.magnitude? ∈ (x :: xs).map some := by
    rw [← hmagnitudes]
    exact List.mem_map_of_mem hw
  obtain ⟨y, hy, hwy⟩ := List.mem_map.1 hw'
  exact ⟨y, hwy.symm, hbound y hy⟩

/-- Keeping the better one of two doubles selects, if defined doubles are compared by their places in a
linear order. -/
theorem selects_ite {α : Type} [LinearOrder α] (key : Float → α) (better : Float → Float → Bool)
    (hR : ∀ a b, a.isNaN = false → b.isNaN = false → (R a b ↔ key a ≤ key b))
    (hbetter : ∀ a b, a.isNaN = false → b.isNaN = false → (better a b = true ↔ key a < key b)) :
    Selects R fun acc x ↦ if better x acc then x else acc where
  choice a b := (ite_eq_or_eq _ _ _).symm
  left a b ha hb := by
    split
    · rename_i h
      exact (hR b a hb ha).2 ((hbetter b a hb ha).1 h).le
    · exact (hR a a ha ha).2 le_rfl
  right a b ha hb := by
    split
    · exact (hR b b hb hb).2 le_rfl
    · rename_i h
      exact (hR a b ha hb).2 (not_lt.1 (mt (hbetter b a hb ha).2 h))
  trans a b c ha hb hc hab hbc :=
    (hR a c ha hc).2 (((hR a b ha hb).1 hab).trans ((hR b c hb hc).1 hbc))

theorem selects_minimum :
    Selects (· ≤ ·) fun acc x ↦ if Scalar.lt x acc then x else acc :=
  selects_ite Double.place Scalar.lt (fun _ _ ↦ Double.le_iff_place)
    fun _ _ ha hb ↦ decide_eq_true_iff.trans (Double.lt_iff_place ha hb)

theorem selects_maximum :
    Selects (· ≥ ·) fun acc x ↦ if Scalar.lt acc x then x else acc :=
  selects_ite (fun x ↦ OrderDual.toDual (Double.place x)) (fun x acc ↦ Scalar.lt acc x)
    (fun _ _ ha hb ↦ Double.le_iff_place hb ha)
    fun _ _ ha hb ↦ decide_eq_true_iff.trans (Double.lt_iff_place hb ha)

theorem isExtreme_of_min (hargs : Defined args) (h : standard.call "min" args = .ok v) :
    IsExtreme (· ≤ ·) args v :=
  (aggregate_eq_ok_iff.1 h).isExtreme selects_minimum hargs

theorem isExtreme_of_max (hargs : Defined args) (h : standard.call "max" args = .ok v) :
    IsExtreme (· ≥ ·) args v :=
  (aggregate_eq_ok_iff.1 h).isExtreme selects_maximum hargs

theorem IsExtreme.ne_notANumber (h : IsExtreme R args v) : v ≠ .notANumber := by
  obtain ⟨x, hx, -⟩ := h
  rintro rfl
  contradiction

/-- Two values have magnitudes that are equal as numbers. -/
def SameMagnitude (v w : Value Float) : Prop :=
  ∃ x y, v.magnitude? = some x ∧ w.magnitude? = some y ∧ (x == y) = true

/-- **Outcomes for two orders of the same arguments bound each other**, so they are the same if defined
doubles that bound each other are. -/
theorem IsExtreme.sameMagnitude {args' : List (Value Float)} {v' : Value Float} (hargs : Defined args)
    (h : IsExtreme R args v) (h' : IsExtreme R args' v') (hperm : args.Perm args')
    (hanti : ∀ a b, a.isNaN = false → b.isNaN = false → R a b → R b a → (a == b) = true) :
    SameMagnitude v v' := by
  obtain ⟨x, hx, ⟨w, hw, hwx⟩, hbound⟩ := h
  obtain ⟨x', hx', ⟨w', hw', hwx'⟩, hbound'⟩ := h'
  have hmem : w' ∈ args := hperm.mem_iff.2 hw'
  obtain ⟨y', hy', hR⟩ := hbound w' hmem
  obtain ⟨y, hy, hR'⟩ := hbound' w (hperm.mem_iff.1 hw)
  obtain rfl : x' = y' := Option.some.inj (hwx'.symm.trans hy')
  obtain rfl : x = y := Option.some.inj (hwx.symm.trans hy)
  exact ⟨x, x', hx, hx', hanti x x' (hargs w hw x hwx) (hargs w' hmem x' hwx') hR hR'⟩

theorem beq_of_le_of_le (a b : Float) (ha : a.isNaN = false) (hb : b.isNaN = false) (hab : a ≤ b)
    (hba : b ≤ a) : (a == b) = true :=
  (Double.beq_iff_place ha hb).2
    (le_antisymm ((Double.le_iff_place ha hb).1 hab) ((Double.le_iff_place hb ha).1 hba))

end

/-- **Aggregates accept exactly homogeneous lists, and the smallest and the largest argument are true
bounds.** Of arguments that are defined, in whatever units,

* each aggregate has an outcome if and only if there are arguments, and these are all numbers or all
  quantities of one dimension, so their order does not matter for that;
* an outcome is a number for numbers, and for quantities a quantity with the dimension and the display
  units of the first argument, unless a sum or a mean is undefined;
* the magnitude of the smallest argument is that of an argument and not above that of any, and the
  magnitude of the largest one is that of an argument and not below that of any;
* for every order of the arguments these two are the same as numbers. -/
theorem standard_aggregates {args : List (Value Float)} (hargs : Defined args) :
    (∀ name ∈ ["min", "max", "sum", "mean"],
      ((∃ v, standard.call name args = .ok v) ↔ args ≠ [] ∧ Homogeneous args) ∧
      (∀ args', args.Perm args' →
        ((∃ v, standard.call name args = .ok v) ↔ ∃ v, standard.call name args' = .ok v)) ∧
      ∀ first v, args.head? = some first → standard.call name args = .ok v →
        first.SameUnits v ∨ v = .notANumber ∧ name ∈ ["sum", "mean"]) ∧
    (∀ v, standard.call "min" args = .ok v → IsExtreme (· ≤ ·) args v) ∧
    (∀ v, standard.call "max" args = .ok v → IsExtreme (· ≥ ·) args v) ∧
    ∀ name ∈ ["min", "max"], ∀ args' v v', args.Perm args' →
      standard.call name args = .ok v → standard.call name args' = .ok v' → SameMagnitude v v' := by
  refine ⟨fun name hname ↦ ?_, fun v ↦ isExtreme_of_min hargs, fun v ↦ isExtreme_of_max hargs,
    fun name hname args' v v' hperm hv hv' ↦ ?_⟩
  · obtain ⟨f, hf⟩ : ∃ f, (name, f) ∈ aggregates (K := Float) := by
      simp only [List.mem_cons, List.not_mem_nil, or_false] at hname
      rcases hname with rfl | rfl | rfl | rfl <;> simp [aggregates]
    have haccepts (args : List (Value Float)) :
        (∃ v, standard.call name args = .ok v) ↔ args ≠ [] ∧ Homogeneous args := by
      rw [← exists_eq_ok_iff hf, call_aggregate hf]
    refine ⟨haccepts args, fun args' hperm ↦ ?_, fun first v hfirst hv ↦ ?_⟩
    · rw [haccepts, haccepts]
      exact and_congr (not_congr ⟨fun h ↦ (h ▸ hperm).nil_eq.symm, fun h ↦ (h ▸ hperm).eq_nil⟩)
        ⟨fun h ↦ h.perm hperm, fun h ↦ h.perm hperm.symm⟩
    · have hunits := sameUnits_of_eq_ok hf hfirst ((call_aggregate hf args).symm.trans hv)
      simp only [List.mem_cons, List.not_mem_nil, or_false] at hname
      rcases hname with rfl | rfl | rfl | rfl
      · exact .inl (hunits.resolve_right (isExtreme_of_min hargs hv).ne_notANumber)
      · exact .inl (hunits.resolve_right (isExtreme_of_max hargs hv).ne_notANumber)
      · exact hunits.imp_right fun h ↦ ⟨h, List.mem_cons_self⟩
      · exact hunits.imp_right fun h ↦ ⟨h, List.mem_cons_of_mem "sum" List.mem_cons_self⟩
  · have hargs' : Defined args' := fun w hw ↦ hargs w (hperm.mem_iff.2 hw)
    simp only [List.mem_cons, List.not_mem_nil, or_false] at hname
    rcases hname with rfl | rfl
    · exact (isExtreme_of_min hargs hv).sameMagnitude hargs (isExtreme_of_min hargs' hv') hperm
        beq_of_le_of_le
    · exact (isExtreme_of_max hargs hv).sameMagnitude hargs (isExtreme_of_max hargs' hv') hperm
        fun a b ha hb hab hba ↦ beq_of_le_of_le a b ha hb hba hab

/-- A kilometre and 500 metres can be aggregated. Their mean is shown in kilometres, and their minimum
is the same in either order. -/
theorem standard_aggregates_lengths :
    let km : Quantity Float := ⟨1000, .single ⟨"km", .base .length, 1000⟩⟩
    let m : Quantity Float := ⟨500, .single ⟨"m", .base .length, 1⟩⟩
    Defined [.quantity km, .quantity m] ∧
      (∃ v, standard.call "mean" [.quantity km, .quantity m] = .ok v ∧
        ((Value.quantity km).SameUnits v ∨ v = .notANumber)) ∧
      ∃ v v', standard.call "min" [.quantity km, .quantity m] = .ok v ∧
        standard.call "min" [.quantity m, .quantity km] = .ok v' ∧ SameMagnitude v v' := by
  intro km m
  have hdefined : Defined [.quantity km, .quantity m] := by
    refine List.forall_mem_cons.2 ⟨fun x hx ↦ ?_, List.forall_mem_singleton.2 fun x hx ↦ ?_⟩ <;>
      obtain rfl := Option.some.inj hx <;> decide +kernel
  have hlengths : Homogeneous [Value.quantity km, .quantity m] :=
    .inr ⟨.base .length,
      List.forall_mem_cons.2 ⟨⟨km, rfl, rfl⟩, List.forall_mem_singleton.2 ⟨m, rfl, rfl⟩⟩⟩
  have hne : [Value.quantity km, .quantity m] ≠ [] := List.cons_ne_nil _ _
  obtain ⟨haggregates, -, -, hsame⟩ := standard_aggregates hdefined
  obtain ⟨hmean, -, hunits⟩ := haggregates "mean" (by decide)
  obtain ⟨hmin, hperm, -⟩ := haggregates "min" (by decide)
  have hswap : [Value.quantity km, .quantity m].Perm [.quantity m, .quantity km] := .swap _ _ []
  obtain ⟨v, hv⟩ := hmin.2 ⟨hne, hlengths⟩
  obtain ⟨v', hv'⟩ := (hperm _ hswap).1 ⟨v, hv⟩
  obtain ⟨w, hw⟩ := hmean.2 ⟨hne, hlengths⟩
  exact ⟨hdefined, ⟨w, hw, (hunits _ w rfl hw).imp_right And.left⟩, v, v', hv, hv',
    hsame "min" List.mem_cons_self _ v v' hswap hv hv'⟩

end Functions

end Reckoner
