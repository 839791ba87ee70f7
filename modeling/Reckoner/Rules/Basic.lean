import Reckoner.Table
import Reckoner.Value.Basic

/-!
# Rules of operators

What an operator does depends on the kinds of its operands. A table of rules maps an operator and two
kinds to a handler. Tables grow by adding rules and a rule is never replaced: adding a second one for
the same operator and kinds is a conflict.
-/

namespace Reckoner

/-- What a rule is selected by: an operator and the kinds of its operands. -/
abbrev RuleKey := Operator × Kind × Kind

/-- What a rule does. -/
abbrev Handler (K : Type) := Operator → Value K → Value K → Except EvalError (Value K)

/-- Why a rule cannot be added. -/
inductive RuleError where
  | conflict (op : Operator) (left right : Kind)
deriving DecidableEq, Repr

/-- The message for the user. -/
def RuleError.message : RuleError → String
  | conflict op left right =>
    s!"a rule for {op.name}({left.name}, {right.name}) is already registered"

/-- A table of rules. -/
structure Rules (K : Type) where
  table : Table RuleKey (Handler K)

namespace Rules

variable {K : Type}

/-- No rules at all. -/
def empty : Rules K := ⟨.empty⟩

/-- Whether there is a rule. -/
def has (rules : Rules K) (op : Operator) (left right : Kind) : Bool :=
  rules.table.contains (op, left, right)

/-- The number of rules. -/
def size (rules : Rules K) : Nat := rules.table.size

/-- Adds a rule for which there is none yet. -/
def add (rules : Rules K) (op : Operator) (left right : Kind) (handler : Handler K) :
    Except RuleError (Rules K) :=
  if rules.has op left right then .error (.conflict op left right)
  else .ok ⟨rules.table.insert (op, left, right) handler⟩

/-- Adds rules one by one up to the first conflict; the ones before it stay. -/
def addAll (rules : Rules K) : List (RuleKey × Handler K) → Rules K × Option RuleError
  | [] => (rules, none)
  | ((op, left, right), handler) :: more =>
    match rules.add op left right handler with
    | .ok rules => rules.addAll more
    | .error e => (rules, some e)

/-- The rules by operator and then by kinds. -/
def keys (rules : Rules K) : List RuleKey :=
  (Operator.all.flatMap fun op ↦ Kind.all.flatMap fun left ↦ Kind.all.map fun right ↦
    (op, left, right)).filter fun (op, left, right) ↦ rules.has op left right

end Rules

/-- The failure of an operator that has no rule for its operands. -/
def noRule {K : Type} (op : Operator) (left right : Value K) : EvalError :=
  .noRule op left.kind right.kind

/-- **Applies an operator** by the rule for the kinds of the operands. -/
def Rules.apply {K : Type} (rules : Rules K) (op : Operator) (left right : Value K) :
    Except EvalError (Value K) :=
  match rules.table.get? (op, left.kind, right.kind) with
  | some handler => handler op left right
  | none => .error (noRule op left right)

end Reckoner
