import Reckoner.Engine.Basic
import Reckoner.Scope
import Reckoner.Statement.Basic

/-!
# Evaluation

Evaluation walks the tree of an expression. Every node that it visits is one step, and the steps of a
line are bounded by a budget. A name in call position is looked up without a step of its own.

A call of a user function evaluates the body of the function in a *frame* of its own, which binds the
parameters. Only the innermost frame is visible, and behind it the scope of the document: there is no
dynamic scoping. The number of frames is bounded too. This bound is what the recursion into bodies
decreases, while the recursion within one body follows the tree, so evaluation always ends.

A line changes the scope only after its value has been found, so a line that fails changes nothing.
-/

namespace Reckoner

/-- Computations that count steps and may fail. -/
abbrev Eval (α : Type) := ExceptT EvalError (StateM Nat) α

/-- The parameters of a call and their values; of equal parameters the last one counts. -/
abbrev Frame (K : Type) := Table String (Value K)

/-- Where an expression is evaluated: the engine and the currencies. -/
structure Context (K : Type) where
  engine : Engine K
  registry : Registry K

variable {K : Type}

/-- A description of the callee of a failed call. -/
def Expr.callee [Scalar K] : Expr K → String
  | symbol name => name
  | number value => Scalar.text value
  | _ => "expression"

namespace Eval

/-- Takes a step, if the budget allows it. The step that exceeds the budget is counted too. -/
def step (budget : Nat) : Eval PUnit := do
  modify (· + 1)
  if (← get) > budget then throw (.stepBudgetExceeded budget)

/-- An outcome that takes no step. -/
def ofExcept {α : Type} (x : Except EvalError α) : Eval α := ExceptT.mk (pure x)

end Eval

/-- The value of a number that a name stands for everywhere. -/
def constant? [Scalar K] : String → Option K
  | "pi" => some Units.pi
  | "e" => some 2.718281828459045
  | "tau" => some 6.283185307179586
  | "phi" => some 1.618033988749895
  | "Infinity" => some (1 / 0)
  | "NaN" => some (0 / 0)
  | _ => none

/-! ### Names -/

/-- The value that a name is bound to: in the innermost frame, or else in the scope. -/
def binding? (scope : Scope K) (frames : List (Frame K)) (name : String) : Option (Value K) :=
  (frames.head?.bind (·.get? name)).or (scope.get? name)

namespace Context

/-- The built-in function of a name, as a value. -/
def builtin? (ctx : Context K) (name : String) : Option (Value K) :=
  if ctx.engine.functions.contains name then some (.function (.builtin name)) else none

variable [Scalar K] (ctx : Context K)

/-- The unit of a name: a built-in unit or a currency. -/
def unit? (name : String) : Option (NamedUnit K) :=
  (Units.lookup name).or (ctx.registry.lookup name)

/-- The value of a name: bound, or else a constant, one of a unit, or a built-in function, so that
`90 min` is a duration. -/
def resolve (scope : Scope K) (frames : List (Frame K)) (name : String) :
    Except EvalError (Value K) :=
  match binding? scope frames name with
  | some v => .ok v
  | none =>
    match constant? name with
    | some x => .ok (.ofNumber x)
    | none =>
      match ctx.unit? name with
      | some u => .ok (.quantity (.ofValue 1 (.single u)))
      | none =>
        match ctx.builtin? name with
        | some f => .ok f
        | none => .error (.undefinedSymbol name)

/-- The value of a name in call position, where built-in functions come before units: `min(1, 2)`. -/
def resolveCallee (scope : Scope K) (frames : List (Frame K)) (name : String) :
    Except EvalError (Value K) :=
  match binding? scope frames name with
  | some v => .ok v
  | none =>
    match ctx.builtin? name with
    | some f => .ok f
    | none => ctx.resolve scope frames name

/-- The units of the target of a conversion. -/
def target (terms : List UnitPower) : Except EvalError (Units K) :=
  terms.foldlM (fun us t ↦ do
    match ctx.unit? t.name with
    | some u => us.mul (← (Units.single u).pow t.power)
    | none => .error (.unknownUnit t.name)) .one

end Context

/-! ### Operations -/

/-- A value with a sign in front of it. -/
def applySign [Scalar K] : Sign → Value K → Except EvalError (Value K)
  | .plus, .number x => .ok (.number x)
  | .plus, .quantity q => .ok (.quantity q)
  | .minus, .number x => .ok (.ofNumber (-x))
  | .minus, .quantity q => .ok (.ofQuantity (q.withBase (-q.base)))
  | _, v => .error (.invalidArgument (.sign v.kind))

/-- A value converted to other units. -/
def convert [Scalar K] (target : Units K) : Value K → Except EvalError (Value K)
  | .quantity q => do .ok (.ofQuantity (← q.convert target))
  | v => .error (.unitMismatch v.kind.name target.text)

/-! ### The walk -/

section Walk

variable [Scalar K] (ctx : Context K) (scope : Scope K)

mutual

/-- Evaluates an expression within some frames. How a user function is called is a parameter. -/
def evaluateWith (call : List (Frame K) → UserFunction K → List (Value K) → Eval (Value K))
    (frames : List (Frame K)) : Expr K → Eval (Value K)
  | .number value => do
    Eval.step ctx.engine.limits.stepBudget
    return .ofNumber value
  | .symbol name => do
    Eval.step ctx.engine.limits.stepBudget
    Eval.ofExcept (ctx.resolve scope frames name)
  | .binary op left right => do
    Eval.step ctx.engine.limits.stepBudget
    let a ← evaluateWith call frames left
    let b ← evaluateWith call frames right
    Eval.ofExcept (ctx.engine.rules.apply op a b)
  | .signed sign operand => do
    Eval.step ctx.engine.limits.stepBudget
    let v ← evaluateWith call frames operand
    Eval.ofExcept (applySign sign v)
  | .call callee args => do
    Eval.step ctx.engine.limits.stepBudget
    let f ← match callee.symbol? with
      | some name => Eval.ofExcept (ctx.resolveCallee scope frames name)
      | none => evaluateWith call frames callee
    match f with
    | .function f =>
      let values ← evaluateAllWith call frames args
      match f with
      | .builtin name => Eval.ofExcept (ctx.engine.functions.call name values)
      | .user function => call frames function values
    | _ => throw (.notCallable callee.callee)
  | .convert value target => do
    Eval.step ctx.engine.limits.stepBudget
    let v ← evaluateWith call frames value
    let units ← Eval.ofExcept (ctx.target target)
    Eval.ofExcept (convert units v)

/-- Evaluates expressions from left to right. -/
def evaluateAllWith (call : List (Frame K) → UserFunction K → List (Value K) → Eval (Value K))
    (frames : List (Frame K)) : List (Expr K) → Eval (List (Value K))
  | [] => return []
  | e :: es => do
    let v ← evaluateWith call frames e
    let vs ← evaluateAllWith call frames es
    return v :: vs

end

/-- Calls a user function, when `left` more frames are allowed: evaluates its body in a new frame. -/
def callUser : (left : Nat) → List (Frame K) → UserFunction K → List (Value K) → Eval (Value K)
  | left, frames, function, args =>
    if args.length ≠ function.params.length then
      throw (.arity function.name (.exactly function.params.length) args.length)
    else
      match left with
      | 0 => throw (.callDepthExceeded ctx.engine.limits.maxCallDepth)
      | left + 1 =>
        evaluateWith ctx scope (callUser left) (.ofList (function.params.zip args) :: frames)
          function.body

/-- Evaluates an expression outside of all calls. -/
def evaluate (e : Expr K) : Eval (Value K) :=
  evaluateWith ctx scope (callUser ctx scope ctx.engine.limits.maxCallDepth) [] e

/-- The value of an expression, with a step counter that starts at zero. -/
def valueOf (e : Expr K) : Except EvalError (Value K) := ((evaluate ctx scope e).run.run 0).1

/-- The value of what a line does, and the scope after it. -/
def Action.execute : Action K → Except EvalError (Value K × Scope K)
  | .empty => .ok (.undefined, scope)
  | .expression e => do .ok (← valueOf ctx scope e, scope)
  | .assign name e => do
    let v ← valueOf ctx scope e
    .ok (v, scope.insert name v)
  | .define name params body =>
    let f := Value.function (.user ⟨name, params, body⟩)
    .ok (f, scope.insert name f)

/-- **Executes a line**: its value, which a silent line keeps to itself, and the scope after it. -/
def Statement.execute (s : Statement K) : Except EvalError (Value K × Scope K) := do
  let (v, after) ← s.action.execute ctx scope
  .ok (if s.silent then .undefined else v, after)

end Walk

end Reckoner
