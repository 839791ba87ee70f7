import Mathlib.Data.List.Nodup
import Reckoner.Engine.Basic

/-!
# Which rule applies

A rule that has been added stays the rule of its operator and kinds (`Rules.get?_addAll`), and a list
of rules that is added without a conflict is added as a whole (`Rules.get?_addAll_of_mem`). So the
standard engine applies every built-in rule, and every rule for dates, to the operator and kinds that
stand beside it in the list.

The rules do not depend on the kind of numbers. The standard engine is the one over doubles with the
standard functions (`Engine.standard_eq`).
-/

namespace Reckoner

namespace Table

variable {α β : Type} [DecidableEq α] {pairs : List (α × β)} {a : α} {b : β}

/-- Insertions under other keys do not change what a key stands for. -/
theorem get?_foldl_insert_of_notMem (h : a ∉ pairs.map Prod.fst) (t : Table α β) :
    (pairs.foldl (fun t (a, b) ↦ t.insert a b) t).get? a = t.get? a := by
  induction pairs generalizing t with
  | nil => rfl
  | cons e pairs ih =>
    rw [List.map_cons, List.mem_cons, not_or] at h
    rw [List.foldl_cons, ih h.2, get?_insert, if_neg h.1]

theorem get?_foldl_insert_of_mem (hnodup : (pairs.map Prod.fst).Nodup) (h : (a, b) ∈ pairs)
    (t : Table α β) : (pairs.foldl (fun t (a, b) ↦ t.insert a b) t).get? a = some b := by
  induction pairs generalizing t with
  | nil => contradiction
  | cons e pairs ih =>
    rw [List.map_cons, List.nodup_cons] at hnodup
    rw [List.foldl_cons]
    rcases List.mem_cons.1 h with rfl | h
    · rw [get?_foldl_insert_of_notMem hnodup.1, get?_insert_self]
    · exact ih hnodup.2 h _

/-- What insertions put under a key is one of the pairs, unless it was there before. -/
theorem mem_of_get?_foldl_insert {t : Table α β}
    (h : (pairs.foldl (fun t (a, b) ↦ t.insert a b) t).get? a = some b) :
    t.get? a = some b ∨ (a, b) ∈ pairs := by
  induction pairs generalizing t with
  | nil => exact .inl h
  | cons e pairs ih =>
    rw [List.foldl_cons] at h
    rcases ih h with hget | hmem
    · rw [get?_insert] at hget
      by_cases heq : a = e.1
      · rw [if_pos heq, Option.some.injEq] at hget
        obtain rfl := heq
        obtain rfl := hget
        exact .inr List.mem_cons_self
      · rw [if_neg heq] at hget
        exact .inl hget
    · exact .inr (List.mem_cons_of_mem e hmem)

/-- A table of pairs with different keys has all of them. -/
theorem get?_ofList (hnodup : (pairs.map Prod.fst).Nodup) (h : (a, b) ∈ pairs) :
    (ofList pairs).get? a = some b :=
  get?_foldl_insert_of_mem hnodup h empty

end Table

namespace Rules

variable {K : Type} {rules : Rules K} {more : List (RuleKey × Handler K)} {key : RuleKey}
  {f : Handler K}

/-- What adding a rule can do. -/
theorem add_eq_ok {op : Operator} {left right : Kind} {rules' : Rules K}
    (h : rules.add op left right f = .ok rules') :
    rules.table.get? (op, left, right) = none ∧
      rules' = ⟨rules.table.insert (op, left, right) f⟩ := by
  rw [add] at h
  split at h
  · contradiction
  · rename_i hhas
    refine ⟨?_, (Except.ok.inj h).symm⟩
    rw [has, Table.contains, Bool.not_eq_true, Option.isSome_eq_false_iff] at hhas
    exact Option.isNone_iff_eq_none.1 hhas

/-- **A rule is never replaced** by adding others. -/
theorem get?_addAll (h : rules.table.get? key = some f) :
    (rules.addAll more).1.table.get? key = some f := by
  induction more generalizing rules with
  | nil => exact h
  | cons rule more ih =>
    obtain ⟨⟨op, left, right⟩, g⟩ := rule
    rw [addAll]
    split
    · rename_i rules' hadd
      obtain ⟨hnone, rfl⟩ := add_eq_ok hadd
      refine ih ?_
      rw [Table.get?_insert, if_neg, h]
      rintro rfl
      rw [hnone] at h
      contradiction
    · exact h

/-- Rules that are added without a conflict are all there. -/
theorem get?_addAll_of_mem (hconflict : (rules.addAll more).2 = none) (h : (key, f) ∈ more) :
    (rules.addAll more).1.table.get? key = some f := by
  induction more generalizing rules with
  | nil => contradiction
  | cons rule more ih =>
    obtain ⟨⟨op, left, right⟩, g⟩ := rule
    rw [addAll] at hconflict ⊢
    split
    · rename_i rules' hadd
      rw [hadd] at hconflict
      rcases List.mem_cons.1 h with hfirst | h
      · obtain ⟨rfl, rfl⟩ := Prod.mk.inj hfirst
        obtain ⟨-, rfl⟩ := add_eq_ok hadd
        exact get?_addAll (Table.get?_insert_self _ _ _)
      · exact ih hconflict h
    · rename_i hadd
      rw [hadd] at hconflict
      contradiction

/-- And adding rules adds no others. -/
theorem mem_of_get?_addAll (h : (rules.addAll more).1.table.get? key = some f) :
    rules.table.get? key = some f ∨ (key, f) ∈ more := by
  induction more generalizing rules with
  | nil => exact .inl h
  | cons rule more ih =>
    obtain ⟨⟨op, left, right⟩, g⟩ := rule
    rw [addAll] at h
    split at h
    · rename_i rules' hadd
      obtain ⟨-, rfl⟩ := add_eq_ok hadd
      rcases ih h with hget | hmem
      · rw [Table.get?_insert] at hget
        by_cases heq : key = (op, left, right)
        · rw [if_pos heq, Option.some.injEq] at hget
          obtain rfl := heq
          obtain rfl := hget
          exact .inr List.mem_cons_self
        · rw [if_neg heq] at hget
          exact .inl hget
      · exact .inr (List.mem_cons_of_mem _ hmem)
    · exact .inl h

theorem apply_of_get? {op : Operator} {a b : Value K}
    (h : rules.table.get? (op, a.kind, b.kind) = some f) : rules.apply op a b = f op a b := by
  rw [apply, h]

variable [Scalar K]

/-- The rules of the standard engine, over any numbers. -/
def standard : Rules K := (builtin.addAll dateArithmetic).1

/-- The operators and kinds of the rules that calculate with quantities. -/
def quantityKeys : List RuleKey :=
  [(.add, .quantity, .quantity), (.subtract, .quantity, .quantity),
    (.multiply, .quantity, .quantity), (.divide, .quantity, .quantity),
    (.multiply, .quantity, .number), (.divide, .quantity, .number),
    (.multiply, .number, .quantity), (.divide, .number, .quantity), (.power, .quantity, .number)]

/-- The operators and kinds of the rules that compare. -/
def comparisonKeys : List RuleKey :=
  comparisons.flatMap fun op ↦
    [(op, .number, .number), (op, .quantity, .quantity), (op, .date, .date)]

/-- The operators and kinds of the rules for numbers and quantities. -/
def arithmeticKeys : List RuleKey :=
  (arithmetic.map fun op ↦ (op, .number, .number)) ++ comparisonKeys ++ quantityKeys

theorem keys_arithmeticRules : (arithmeticRules (K := K)).map Prod.fst = arithmeticKeys := by
  simp only [arithmeticRules, arithmeticKeys, comparisonKeys, quantityKeys, List.map_append,
    List.map_map, List.map_flatMap, List.map_cons, List.map_nil, Function.comp_def]

/-- No two rules for numbers and quantities are for the same operator and kinds. -/
theorem nodup_keys_arithmeticRules : ((arithmeticRules (K := K)).map Prod.fst).Nodup := by
  rw [keys_arithmeticRules]
  decide

/-- **The rules for numbers and quantities apply** to what stands beside them in the list. -/
theorem apply_standard {op : Operator} {f : Handler K} {a b : Value K}
    (h : ((op, a.kind, b.kind), f) ∈ arithmeticRules (K := K)) :
    (standard (K := K)).apply op a b = f op a b := by
  have hbuiltin : (builtin (K := K)).table.get? (op, a.kind, b.kind) = some f := by
    rw [builtin]
    exact Table.get?_ofList nodup_keys_arithmeticRules h
  rw [standard]
  exact apply_of_get? (get?_addAll hbuiltin)

theorem mem_arithmeticRules_of_comparison {op : Operator} {key : RuleKey} {f : Handler K}
    (hop : op ∈ comparisons)
    (h : (key, f) ∈ [((op, .number, .number), compareNumbers),
      ((op, .quantity, .quantity), compareQuantities), ((op, .date, .date), compareDates)]) :
    (key, f) ∈ arithmeticRules := by
  rw [arithmeticRules, List.mem_append, List.mem_append, List.mem_flatMap]
  exact .inl (.inr ⟨op, hop, h⟩)

/-- **And so do the rules for dates**, none of which is in conflict with the others. -/
theorem apply_dateArithmetic {op : Operator} {f : Handler Float} {a b : Value Float}
    (h : ((op, a.kind, b.kind), f) ∈ dateArithmetic) : standard.apply op a b = f op a b := by
  have hconflict : ((builtin (K := Float)).addAll dateArithmetic).2 = none := by decide
  rw [standard]
  exact apply_of_get? (get?_addAll_of_mem hconflict h)

/-- **The standard engine has these rules and no others.** -/
theorem mem_of_get?_standard {key : RuleKey} {f : Handler K}
    (h : (standard (K := K)).table.get? key = some f) :
    (key, f) ∈ arithmeticRules ∨ (key, f) ∈ dateArithmetic := by
  rw [standard] at h
  refine (mem_of_get?_addAll h).imp_left fun hbuiltin ↦ ?_
  rw [builtin] at hbuiltin
  rcases Table.mem_of_get?_foldl_insert hbuiltin with hempty | hmem
  · exact absurd hempty.symm (Option.some_ne_none f)
  · exact hmem

end Rules

namespace Engine

variable {K : Type} [Scalar K]

/-- The engine with the rules of the standard one, over any numbers and with any functions. -/
def standardOver (limits : Limits) (functions : Functions K) : Engine K :=
  { basic limits functions with
    rules := .standard
    extensions := [(dateArithmetic (K := K)).name] }

theorem rules_standardOver (limits : Limits) (functions : Functions K) :
    (standardOver limits functions).rules = .standard := by
  rw [standardOver]

theorem standard_eq (limits : Limits) : standard limits = standardOver limits Functions.standard :=
  rfl

end Engine

end Reckoner
