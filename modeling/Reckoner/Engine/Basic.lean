import Reckoner.Currency.Registry
import Reckoner.Functions.Standard
import Reckoner.Rules.Arithmetic
import Reckoner.Rules.Dates

/-!
# The engine

An engine is what evaluation needs and lines cannot change: limits, operator rules and functions. It
is put together from the built-in rules and functions, extensions with further rules, and further
functions. An extension never changes the meaning of an operator that has a rule, because its rule
would be in conflict; a function of the same name replaces an earlier one.
-/

namespace Reckoner

/-- Limits of reading and evaluating lines. -/
structure Limits where
  /-- How many lines are kept in the form in which they have been read. -/
  cacheCapacity : Nat := 1024
  /-- How deep expressions may be nested. -/
  maxExpressionDepth : Nat := 128
  /-- How many nodes the evaluation of one line may visit. -/
  stepBudget : Nat := 100000
  /-- How deep calls of user functions may be nested. -/
  maxCallDepth : Nat := 64
deriving DecidableEq, Repr

/-- Rules that can be installed together. -/
structure Extension (K : Type) where
  name : String
  rules : List (RuleKey × Handler K)

/-- The fixed part of evaluation. -/
structure Engine (K : Type) where
  limits : Limits
  rules : Rules K
  functions : Functions K
  /-- The names of the installed extensions. -/
  extensions : List String

namespace Engine

variable {K : Type}

/-- Installs an extension, unless one of its rules is in conflict. -/
def install (engine : Engine K) (extension : Extension K) : Except RuleError (Engine K) :=
  match engine.rules.addAll extension.rules with
  | (rules, none) =>
    .ok { engine with rules, extensions := engine.extensions ++ [extension.name] }
  | (_, some e) => .error e

/-- Adds a function, or replaces the one of that name. -/
def withFunction (engine : Engine K) (name : String) (f : BuiltinFunction K) : Engine K :=
  { engine with functions := engine.functions.insert name f }

variable [Scalar K]

/-- The arithmetic of dates as an extension. -/
def dateArithmetic : Extension K := ⟨"date-arithmetic", Rules.dateArithmetic⟩

/-- The engine with the built-in rules and the given functions. -/
def basic (limits : Limits) (functions : Functions K) : Engine K :=
  ⟨limits, Rules.builtin, functions, []⟩

/-- **The standard engine**: built-in rules and functions, and the arithmetic of dates, whose rules
are in conflict with none of the built-in ones. -/
def standard (limits : Limits) : Engine Float :=
  { basic limits Functions.standard with
    rules := (Rules.builtin.addAll Rules.dateArithmetic).1
    extensions := [(dateArithmetic (K := Float)).name] }

end Engine

end Reckoner
