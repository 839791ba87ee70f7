import Reckoner.Proofs.CrossRates
import Reckoner.Proofs.StandardRules

/-!
# Extensions never change what an operator means

A table of rules grows by single rules and by extensions, each of which may fail: a rule is not added if
its key is taken, and an extension stops there, with the rules before it already added. Whatever is
tried, and in whatever order, the table is then the one at the start with the rules that have been added
(`Rules.get?_addAll_iff`), each under a key that was free. So what an operator did for operands of some
kinds it still does (`Rules.extensions_conservative`).

Which rules an extension adds depends on keys alone: those in front of the first conflict
(`upToConflict`). A single rule is an extension of one rule (`RuleStep.perform_eq`), so there is one
statement for both.
-/

namespace Reckoner

variable {K : Type}

/-! ### Steps -/

/-- The rules of a list in front of the first whose key is taken, or belongs to a rule before it. -/
def upToConflict (taken : List RuleKey) : List (RuleKey × Handler K) → List (RuleKey × Handler K)
  | [] => []
  | (key, f) :: more =>
    if key ∈ taken then [] else (key, f) :: upToConflict (taken ++ [key]) more

/-- A step by which a table of rules may grow. -/
inductive RuleStep (K : Type) where
  | add (op : Operator) (left right : Kind) (handler : Handler K)
  | install (extension : Extension K)

namespace RuleStep

/-- The rules that a step is to add, in this order. -/
def rules : RuleStep K → List (RuleKey × Handler K)
  | add op left right handler => [((op, left, right), handler)]
  | install extension => extension.rules

/-- The table after a step, and the conflict that has ended the step. -/
def perform (rules : Rules K) : RuleStep K → Rules K × Option RuleError
  | add op left right handler =>
    match rules.add op left right handler with
    | .ok more => (more, none)
    | .error e => (rules, some e)
  | install extension => rules.addAll extension.rules

end RuleStep

/-- A step that has been tried. -/
structure RuleAttempt (K : Type) where
  step : RuleStep K
  before : Rules K
  after : Rules K
  error? : Option RuleError

/-- The rules that the step has added. -/
def RuleAttempt.added (attempt : RuleAttempt K) : List (RuleKey × Handler K) :=
  upToConflict (attempt.before.table.entries.map Prod.fst) attempt.step.rules

namespace Rules

/-- The table after some steps, whether they succeed or fail. -/
def afterSteps (rules : Rules K) (steps : List (RuleStep K)) : Rules K :=
  steps.foldl (fun rules step ↦ (step.perform rules).1) rules

/-- The steps one after the other, each with what has come of it. -/
def attempts (rules : Rules K) : List (RuleStep K) → List (RuleAttempt K)
  | [] => []
  | step :: more =>
    ⟨step, rules, (step.perform rules).1, (step.perform rules).2⟩ ::
      (step.perform rules).1.attempts more

/-- **Steps conserve a table**: what it says they leave alone, and they add what they say. -/
structure ConservedBy (start : Rules K) (steps : List (RuleStep K)) : Prop where
  /-- A rule once present keeps its handler. -/
  keeps : ∀ earlier, earlier <+: steps → ∀ key f,
    (start.afterSteps earlier).table.get? key = some f →
      (start.afterSteps steps).table.get? key = some f
  /-- A single rule is in conflict exactly if its key is taken, and then it changes nothing. -/
  conflicts : ∀ attempt ∈ start.attempts steps, ∀ op left right f,
    attempt.step = .add op left right f →
      (attempt.before.has op left right = true ∧
        attempt.error? = some (.conflict op left right) ∧ attempt.after = attempt.before) ∨
      (attempt.before.has op left right = false ∧ attempt.error? = none)
  /-- A step that fails says at which of its rules it stops: the first that it has not added. -/
  stops : ∀ attempt ∈ start.attempts steps,
    attempt.error? = (attempt.step.rules.drop attempt.added.length).head?.map
      fun ((op, left, right), _) ↦ .conflict op left right
  /-- The rules are those at the start and those that have been added, -/
  exact : ∀ key f, (start.afterSteps steps).table.get? key = some f ↔
    start.table.get? key = some f ∨ ∃ attempt ∈ start.attempts steps, (key, f) ∈ attempt.added
  /-- and each of them is there once. -/
  size : (start.afterSteps steps).size =
    start.size + ((start.attempts steps).map (·.added.length)).sum
  /-- What the table at the start has a rule for has the same result. -/
  applies : ∀ op a b, start.has op a.kind b.kind = true →
    (start.afterSteps steps).apply op a b = start.apply op a b
  /-- What has no rule fails. -/
  refuses : ∀ op a b, (start.afterSteps steps).has op a.kind b.kind = false →
    (start.afterSteps steps).apply op a b = .error (.noRule op a.kind b.kind)

/-! ### One step -/

section Step

variable {rules : Rules K} {key : RuleKey} {op : Operator} {left right : Kind} {f : Handler K}

theorem has_iff : rules.has op left right = true ↔
    (op, left, right) ∈ rules.table.entries.map Prod.fst :=
  Table.isSome_get?_iff

theorem get?_eq_none_iff : rules.table.get? key = none ↔ key ∉ rules.table.entries.map Prod.fst :=
  Table.lookup_eq_none_iff

/-- Rules are added until one has a key that is taken. -/
theorem addAll_cons (rules : Rules K) (op : Operator) (left right : Kind) (f : Handler K)
    (more : List (RuleKey × Handler K)) :
    rules.addAll (((op, left, right), f) :: more) =
      if (op, left, right) ∈ rules.table.entries.map Prod.fst then
        (rules, some (.conflict op left right))
      else addAll ⟨rules.table.insert (op, left, right) f⟩ more := by
  rw [addAll, add]
  by_cases htaken : (op, left, right) ∈ rules.table.entries.map Prod.fst
  · rw [if_pos (has_iff.2 htaken), if_pos htaken]
  · rw [if_neg (mt has_iff.1 htaken), if_neg htaken]

/-- A rule under a key that is free puts this key behind the others. -/
theorem keys_insert (h : key ∉ rules.table.entries.map Prod.fst) (f : Handler K) :
    (rules.table.insert key f).entries.map Prod.fst = rules.table.entries.map Prod.fst ++ [key] := by
  rw [Table.insert, Table.keys_insertEntry, if_neg h]

/-- **What adding rules comes to**: the rules that were there, and those in front of the first
conflict. -/
theorem get?_addAll_iff (rules : Rules K) (more : List (RuleKey × Handler K)) :
    (rules.addAll more).1.table.get? key = some f ↔
      rules.table.get? key = some f ∨
        (key, f) ∈ upToConflict (rules.table.entries.map Prod.fst) more := by
  induction more generalizing rules with
  | nil => rw [upToConflict, or_iff_left List.not_mem_nil]; rfl
  | cons rule more ih =>
    obtain ⟨⟨op, left, right⟩, g⟩ := rule
    rw [addAll_cons, upToConflict]
    by_cases htaken : (op, left, right) ∈ rules.table.entries.map Prod.fst
    · rw [if_pos htaken, if_pos htaken, or_iff_left List.not_mem_nil]
    · rw [if_neg htaken, if_neg htaken, ih, keys_insert htaken, Table.get?_insert, List.mem_cons,
        ← or_assoc]
      refine or_congr_left ?_
      by_cases heq : key = (op, left, right)
      · have hnone := get?_eq_none_iff.2 (heq ▸ htaken)
        rw [if_pos heq, hnone, Option.some.injEq]
        simp [heq, eq_comm]
      · rw [if_neg heq]
        simp [heq]

theorem size_addAll (rules : Rules K) (more : List (RuleKey × Handler K)) :
    (rules.addAll more).1.size =
      rules.size + (upToConflict (rules.table.entries.map Prod.fst) more).length := by
  induction more generalizing rules with
  | nil => rfl
  | cons rule more ih =>
    obtain ⟨⟨op, left, right⟩, g⟩ := rule
    rw [addAll_cons, upToConflict]
    by_cases htaken : (op, left, right) ∈ rules.table.entries.map Prod.fst
    · rw [if_pos htaken, if_pos htaken]
      rfl
    · have hsize : size ⟨rules.table.insert (op, left, right) g⟩ = rules.size + 1 := by
        have hkeys := congrArg List.length (keys_insert htaken g)
        rwa [List.length_append, List.length_map, List.length_map] at hkeys
      rw [if_neg htaken, if_neg htaken, ih, keys_insert htaken, hsize, List.length_cons]
      omega

/-- The error names the first rule that has not been added. -/
theorem error_addAll (rules : Rules K) (more : List (RuleKey × Handler K)) :
    (rules.addAll more).2 =
      (more.drop (upToConflict (rules.table.entries.map Prod.fst) more).length).head?.map
        fun ((op, left, right), _) ↦ .conflict op left right := by
  induction more generalizing rules with
  | nil => rfl
  | cons rule more ih =>
    obtain ⟨⟨op, left, right⟩, g⟩ := rule
    rw [addAll_cons, upToConflict]
    by_cases htaken : (op, left, right) ∈ rules.table.entries.map Prod.fst
    · rw [if_pos htaken, if_pos htaken]
      rfl
    · rw [if_neg htaken, if_neg htaken, ih, keys_insert htaken, List.length_cons,
        List.drop_succ_cons]

end Step

end Rules

/-- A single rule is added like an extension of one rule. -/
theorem RuleStep.perform_eq (step : RuleStep K) (rules : Rules K) :
    step.perform rules = rules.addAll step.rules := by
  cases step with
  | add op left right f =>
    rw [perform, RuleStep.rules, Rules.addAll]
    cases rules.add op left right f <;> rfl
  | install extension => rfl

/-! ### Whole runs -/

namespace Rules

/-- **A rule is never replaced** by steps. -/
theorem get?_afterSteps {rules : Rules K} {key : RuleKey} {f : Handler K}
    (h : rules.table.get? key = some f) (steps : List (RuleStep K)) :
    (rules.afterSteps steps).table.get? key = some f := by
  induction steps generalizing rules with
  | nil => exact h
  | cons step steps ih =>
    rw [afterSteps, List.foldl_cons, step.perform_eq]
    exact ih (get?_addAll h)

/-- Every attempt is a step from some table on. -/
theorem of_mem_attempts {rules : Rules K} {steps : List (RuleStep K)} {attempt : RuleAttempt K}
    (h : attempt ∈ rules.attempts steps) :
    (attempt.after, attempt.error?) = attempt.before.addAll attempt.step.rules := by
  induction steps generalizing rules with
  | nil => contradiction
  | cons step steps ih =>
    rcases List.mem_cons.1 h with rfl | h
    · exact step.perform_eq rules
    · exact ih h

theorem get?_afterSteps_iff (start : Rules K) (steps : List (RuleStep K)) (key : RuleKey)
    (f : Handler K) : (start.afterSteps steps).table.get? key = some f ↔
      start.table.get? key = some f ∨
        ∃ attempt ∈ start.attempts steps, (key, f) ∈ attempt.added := by
  induction steps generalizing start with
  | nil => simp [afterSteps, attempts]
  | cons step steps ih =>
    rw [afterSteps, List.foldl_cons, ← afterSteps, ih, step.perform_eq, get?_addAll_iff, or_assoc]
    refine or_congr_right ?_
    rw [attempts, List.exists_mem_cons_iff, step.perform_eq]
    rfl

theorem size_afterSteps (start : Rules K) (steps : List (RuleStep K)) :
    (start.afterSteps steps).size =
      start.size + ((start.attempts steps).map (·.added.length)).sum := by
  induction steps generalizing start with
  | nil => rfl
  | cons step steps ih =>
    rw [afterSteps, List.foldl_cons, ← afterSteps, ih, step.perform_eq, size_addAll, attempts,
      List.map_cons, List.sum_cons, step.perform_eq, Nat.add_assoc]
    rfl

/-- **Extensions are conservative**: whatever rules and extensions are added to a table of rules, with
or without success, and in whatever order. -/
theorem extensions_conservative (start : Rules K) (steps : List (RuleStep K)) :
    start.ConservedBy steps where
  keeps := by
    rintro earlier ⟨later, rfl⟩ key f h
    rw [afterSteps, List.foldl_append]
    exact get?_afterSteps h later
  conflicts := by
    intro attempt hattempt op left right f hstep
    obtain ⟨hafter, herror⟩ := Prod.mk.inj (of_mem_attempts hattempt)
    rw [hstep, RuleStep.rules, addAll_cons] at hafter herror
    cases hhas : attempt.before.has op left right with
    | true =>
      rw [if_pos (has_iff.1 hhas)] at hafter herror
      exact .inl ⟨rfl, herror, hafter⟩
    | false =>
      rw [if_neg (mt has_iff.2 (Bool.not_eq_true _ ▸ hhas))] at herror
      exact .inr ⟨rfl, herror⟩
  stops attempt hattempt :=
    (Prod.mk.inj (of_mem_attempts hattempt)).2.trans (error_addAll _ _)
  exact := get?_afterSteps_iff start steps
  size := size_afterSteps start steps
  applies := by
    intro op a b hhas
    obtain ⟨f, hf⟩ := Option.isSome_iff_exists.1 hhas
    rw [apply_of_get? (get?_afterSteps hf steps), apply_of_get? hf]
  refuses := by
    intro op a b hhas
    rw [has, Table.contains, Option.isSome_eq_false_iff, Option.isNone_iff_eq_none] at hhas
    rw [apply, hhas, noRule]

/-- Dates cannot be installed twice: the first of their rules is in conflict, and nothing is added. -/
example : (((builtin (K := Float)).attempts [.install Engine.dateArithmetic,
    .install Engine.dateArithmetic]).map fun attempt ↦ (attempt.added.length, attempt.error?)) =
      [(4, none), (0, some (.conflict .add .date .quantity))] := by
  decide

end Rules

end Reckoner
