import Reckoner.Proofs.EvaluationLimits

/-!
# One stack of frames

`evaluateWith` is handed its frames and its scope, and so cannot change them. An evaluator may as well
keep both in its state, beside the steps that it counts: it pushes a frame before the body of a
function and pops it after, whatever has become of the body, and its calls are bounded by the height of
the stack. Nothing in such an evaluator itself bounds the calls within calls, so it is given fuel for
them, and does not come to an end where the fuel is not enough.

This module gives that evaluator, and shows that it does the same as the walk, if there is fuel for more
calls than the limit allows (`Evaluator.mirrors_evaluate`): it comes to an end, and then the scope and
the stack are what they were, also when an error has come out of calls within calls.

Names are looked up in the innermost frame and then in the scope, and the body of a function has a
frame of its own. So a call sees nothing of the frames that it is made from (`callUser_frames`), and
stacks of one height whose innermost frames bind the same cannot be told apart: there is no dynamic
scoping (`Evaluator.no_dynamic_scoping`).
-/

namespace Reckoner

variable {K : Type}

/-- An evaluator: the scope of the document, the frames of the calls that have not returned, innermost
first, and the steps that have been taken. -/
structure Evaluator (K : Type) where
  scope : Scope K
  frames : List (Frame K)
  steps : Nat

namespace Evaluator

/-- What an evaluator does. It may fail, and then its state is kept; and it may come to no end. -/
abbrev Run (K α : Type) := ExceptT EvalError (StateT (Evaluator K) Option) α

/-! ### The evaluator -/

/-- No end is in sight. -/
def unfinished {α : Type} : Run K α := ExceptT.mk fun _ ↦ none

/-- Takes a step, if the budget allows it. -/
def step (budget : Nat) : Run K PUnit := do
  modify fun s ↦ { s with steps := s.steps + 1 }
  if (← get).steps > budget then throw (.stepBudgetExceeded budget)

/-- An outcome that is found without the state. -/
def ofExcept {α : Type} (o : Except EvalError α) : Run K α := ExceptT.mk (pure o)

/-- An outcome that is looked up in the scope and the frames. -/
def lookup {α : Type} (find : Scope K → List (Frame K) → Except EvalError α) : Run K α := do
  let s ← get
  ofExcept (find s.scope s.frames)

/-- How many frames are on the stack. -/
def height : Run K Nat := return (← get).frames.length

/-- Runs with a frame on the stack, which is popped before the outcome is looked at. -/
def withFrame {α : Type} (frame : Frame K) (x : Run K α) : Run K α := ExceptT.mk do
  modify fun s ↦ { s with frames := frame :: s.frames }
  let outcome ← x.run
  modify fun s ↦ { s with frames := s.frames.tail }
  return outcome

section Evaluate

variable [Scalar K] (ctx : Context K)

mutual

/-- Evaluates an expression. How a user function is called is a parameter. -/
def evaluateWith (call : UserFunction K → List (Value K) → Run K (Value K)) :
    Expr K → Run K (Value K)
  | .number value => do
    step ctx.engine.limits.stepBudget
    return .ofNumber value
  | .symbol name => do
    step ctx.engine.limits.stepBudget
    lookup fun scope frames ↦ ctx.resolve scope frames name
  | .binary op left right => do
    step ctx.engine.limits.stepBudget
    let a ← evaluateWith call left
    let b ← evaluateWith call right
    ofExcept (ctx.engine.rules.apply op a b)
  | .signed sign operand => do
    step ctx.engine.limits.stepBudget
    let v ← evaluateWith call operand
    ofExcept (applySign sign v)
  | .call callee args => do
    step ctx.engine.limits.stepBudget
    let f ← match callee.symbol? with
      | some name => lookup fun scope frames ↦ ctx.resolveCallee scope frames name
      | none => evaluateWith call callee
    match f with
    | .function f =>
      let values ← evaluateAllWith call args
      match f with
      | .builtin name => ofExcept (ctx.engine.functions.call name values)
      | .user function => call function values
    | _ => throw (.notCallable callee.callee)
  | .convert value target => do
    step ctx.engine.limits.stepBudget
    let v ← evaluateWith call value
    let units ← ofExcept (ctx.target target)
    ofExcept (convert units v)

/-- Evaluates expressions from left to right. -/
def evaluateAllWith (call : UserFunction K → List (Value K) → Run K (Value K)) :
    List (Expr K) → Run K (List (Value K))
  | [] => return []
  | e :: es => do
    let v ← evaluateWith call e
    let vs ← evaluateAllWith call es
    return v :: vs

end

/-- Calls a user function, with fuel for so many calls within each other: tests the number of arguments
and the height of the stack, and evaluates the body with a new frame on the stack. -/
def callUser : (fuel : Nat) → UserFunction K → List (Value K) → Run K (Value K)
  | 0, _, _ => unfinished
  | fuel + 1, f, args => do
    if args.length ≠ f.params.length then
      throw (.arity f.name (.exactly f.params.length) args.length)
    else if ctx.engine.limits.maxCallDepth ≤ (← height) then
      throw (.callDepthExceeded ctx.engine.limits.maxCallDepth)
    else withFrame (.ofList (f.params.zip args)) (evaluateWith ctx (callUser fuel) f.body)

/-- Evaluates an expression, with fuel for so many calls within each other. -/
def evaluate (fuel : Nat) (e : Expr K) : Run K (Value K) := evaluateWith ctx (callUser ctx fuel) e

end Evaluate

/-! ### Computations that only count steps -/

/-- In a state with this scope and these frames, the evaluator does what a computation does that only
counts steps: it comes to an end, with the same outcome and after the same steps, and the scope and the
frames are what they were. -/
def Mirrors {α : Type} (scope : Scope K) (frames : List (Frame K)) (x : Run K α) (y : Eval α) :
    Prop :=
  ∀ steps, x.run.run ⟨scope, frames, steps⟩ =
    some ((y.runFrom steps).1, ⟨scope, frames, (y.runFrom steps).2⟩)

variable {α β : Type} {scope : Scope K} {frames : List (Frame K)}

theorem mirrors_pure (a : α) : Mirrors scope frames (pure a) (pure a) := fun _ ↦ rfl

theorem mirrors_throw (error : EvalError) :
    Mirrors scope frames (throw error : Run K α) (throw error) := fun _ ↦ rfl

theorem mirrors_ofExcept (o : Except EvalError α) :
    Mirrors scope frames (ofExcept o) (Eval.ofExcept o) := fun _ ↦ rfl

theorem mirrors_lookup (find : Scope K → List (Frame K) → Except EvalError α) :
    Mirrors scope frames (lookup find) (Eval.ofExcept (find scope frames)) := fun _ ↦ rfl

theorem Mirrors.bind {x : Run K α} {y : Eval α} {f : α → Run K β} {g : α → Eval β}
    (h : Mirrors scope frames x y) (hf : ∀ a, Mirrors scope frames (f a) (g a)) :
    Mirrors scope frames (x >>= f) (y >>= g) := by
  intro steps
  rw [Outcome.run_bind, h steps, Option.bind_some, Eval.runFrom_bind]
  rcases y.runFrom steps with ⟨error | a, after⟩
  · rfl
  · exact hf a after

theorem Mirrors.ite {c : Prop} [Decidable c] {x x' : Run K α} {y y' : Eval α}
    (h : c → Mirrors scope frames x y) (h' : ¬c → Mirrors scope frames x' y') :
    Mirrors scope frames (if c then x else x') (if c then y else y') := by
  split
  · exact h ‹_›
  · exact h' ‹_›

theorem mirrors_height {f : Nat → Run K α} {y : Eval α} (h : Mirrors scope frames (f frames.length) y) :
    Mirrors scope frames (height >>= f) y :=
  h

theorem mirrors_step (budget : Nat) : Mirrors scope frames (step budget) (Eval.step budget) := by
  intro steps
  rw [Eval.runFrom_step]
  show (if budget < steps + 1 then throw (.stepBudgetExceeded budget) else pure ⟨⟩ :
    Run K PUnit).run.run ⟨scope, frames, steps + 1⟩ = _
  split <;> rfl

/-- What is done with a frame on the stack leaves the stack without it. -/
theorem mirrors_withFrame {frame : Frame K} {x : Run K α} {y : Eval α}
    (h : Mirrors scope (frame :: frames) x y) : Mirrors scope frames (withFrame frame x) y := by
  intro steps
  show Option.bind (x.run.run ⟨scope, frame :: frames, steps⟩) _ = _
  rw [h steps]
  rfl

/-! ### The evaluator mirrors the walk -/

section Walk

variable [Scalar K] {ctx : Context K} {call : UserFunction K → List (Value K) → Run K (Value K)}
  {callFrom : List (Frame K) → UserFunction K → List (Value K) → Eval (Value K)}

mutual

/-- The evaluator mirrors the walk, if it mirrors its calls of user functions. -/
theorem mirrors_evaluateWith
    (hcall : ∀ f args, Mirrors scope frames (call f args) (callFrom frames f args)) :
    ∀ e : Expr K, Mirrors scope frames (evaluateWith ctx call e)
      (Reckoner.evaluateWith ctx scope callFrom frames e)
  | .number x => by
    rw [evaluateWith, Reckoner.evaluateWith]
    exact (mirrors_step _).bind fun _ ↦ mirrors_pure _
  | .symbol name => by
    rw [evaluateWith, Reckoner.evaluateWith]
    exact (mirrors_step _).bind fun _ ↦ mirrors_lookup _
  | .binary op left right => by
    rw [evaluateWith, Reckoner.evaluateWith]
    refine (mirrors_step _).bind fun _ ↦ (mirrors_evaluateWith hcall left).bind fun a ↦ ?_
    exact (mirrors_evaluateWith hcall right).bind fun b ↦ mirrors_ofExcept _
  | .signed sign operand => by
    rw [evaluateWith, Reckoner.evaluateWith]
    refine (mirrors_step _).bind fun _ ↦ (mirrors_evaluateWith hcall operand).bind fun v ↦ ?_
    exact mirrors_ofExcept _
  | .call callee args => by
    rw [evaluateWith, Reckoner.evaluateWith]
    -- What follows the callee is the same, whether it was looked up or evaluated.
    have hrest : ∀ f : Value K, Mirrors scope frames
        (match f with
          | .function f => do
            let values ← evaluateAllWith ctx call args
            match f with
            | .builtin name => ofExcept (ctx.engine.functions.call name values)
            | .user function => call function values
          | _ => throw (.notCallable callee.callee))
        (match f with
          | .function f => do
            let values ← Reckoner.evaluateAllWith ctx scope callFrom frames args
            match f with
            | .builtin name => Eval.ofExcept (ctx.engine.functions.call name values)
            | .user function => callFrom frames function values
          | _ => throw (.notCallable callee.callee)) := by
      intro f
      cases f with
      | function f =>
        refine (mirrors_evaluateAllWith hcall args).bind fun values ↦ ?_
        cases f with
        | builtin name => exact mirrors_ofExcept _
        | user f => exact hcall f values
      | _ => exact mirrors_throw _
    refine (mirrors_step _).bind fun _ ↦ ?_
    cases callee.symbol? with
    | some name => exact (mirrors_lookup _).bind hrest
    | none => exact (mirrors_evaluateWith hcall callee).bind hrest
  | .convert value target => by
    rw [evaluateWith, Reckoner.evaluateWith]
    refine (mirrors_step _).bind fun _ ↦ (mirrors_evaluateWith hcall value).bind fun v ↦ ?_
    exact (mirrors_ofExcept _).bind fun units ↦ mirrors_ofExcept _

theorem mirrors_evaluateAllWith
    (hcall : ∀ f args, Mirrors scope frames (call f args) (callFrom frames f args)) :
    ∀ es : List (Expr K), Mirrors scope frames (evaluateAllWith ctx call es)
      (Reckoner.evaluateAllWith ctx scope callFrom frames es)
  | [] => by
    rw [evaluateAllWith, Reckoner.evaluateAllWith]
    exact mirrors_pure _
  | e :: es => by
    rw [evaluateAllWith, Reckoner.evaluateAllWith]
    refine (mirrors_evaluateWith hcall e).bind fun v ↦ ?_
    exact (mirrors_evaluateAllWith hcall es).bind fun vs ↦ mirrors_pure _

end

/-- The evaluator mirrors calls of user functions, if the frames that are left are those that the stack
does not hold yet, and there is fuel for one call more. -/
theorem mirrors_callUser (left : Nat) {fuel : Nat} (hfuel : left < fuel) (frames : List (Frame K))
    (hleft : left = ctx.engine.limits.maxCallDepth - frames.length) (f : UserFunction K)
    (args : List (Value K)) :
    Mirrors scope frames (callUser ctx fuel f args)
      (Reckoner.callUser ctx scope left frames f args) := by
  obtain ⟨fuel, rfl⟩ := Nat.exists_eq_succ_of_ne_zero (Nat.ne_zero_of_lt hfuel)
  induction left generalizing fuel frames f args with
  | zero =>
    rw [callUser, Reckoner.callUser]
    refine .ite (fun _ ↦ mirrors_throw _) fun _ ↦ mirrors_height ?_
    rw [if_pos (by omega)]
    exact mirrors_throw _
  | succ left ih =>
    rw [callUser, Reckoner.callUser]
    refine .ite (fun _ ↦ mirrors_throw _) fun _ ↦ mirrors_height ?_
    rw [if_neg (by omega)]
    refine mirrors_withFrame (mirrors_evaluateWith (fun f args ↦ ?_) f.body)
    obtain ⟨fuel, rfl⟩ := Nat.exists_eq_succ_of_ne_zero (by omega : fuel ≠ 0)
    exact ih _ (by rw [List.length_cons]; omega) f args fuel (by omega)

/-- **The evaluator does the same as the walk**, on every stack. -/
theorem mirrors_evaluate (ctx : Context K) (scope : Scope K) (frames : List (Frame K)) (e : Expr K)
    {fuel : Nat} (hfuel : ctx.engine.limits.maxCallDepth < fuel) :
    Mirrors scope frames (evaluate ctx fuel e)
      (Reckoner.evaluateWith ctx scope
        (Reckoner.callUser ctx scope (ctx.engine.limits.maxCallDepth - frames.length)) frames e) :=
  mirrors_evaluateWith (mirrors_callUser _ (by omega) frames rfl) e

/-- Outside of all calls, it does what the evaluation of an expression does. -/
theorem mirrors_evaluate_nil (ctx : Context K) (scope : Scope K) (e : Expr K) {fuel : Nat}
    (hfuel : ctx.engine.limits.maxCallDepth < fuel) :
    Mirrors scope [] (evaluate ctx fuel e) (Reckoner.evaluate ctx scope e) :=
  mirrors_evaluate ctx scope [] e hfuel

end Walk

end Evaluator

/-! ### What can be seen of the frames -/

section Visible

variable [Scalar K] {ctx : Context K} {scope : Scope K} {frames frames' : List (Frame K)}

theorem Context.resolve_frames {name : String}
    (h : binding? scope frames name = binding? scope frames' name) :
    ctx.resolve scope frames name = ctx.resolve scope frames' name := by
  rw [resolve, resolve, h]

theorem Context.resolveCallee_frames {name : String}
    (h : binding? scope frames name = binding? scope frames' name) :
    ctx.resolveCallee scope frames name = ctx.resolveCallee scope frames' name := by
  rw [resolveCallee, resolveCallee, h, resolve_frames h]

mutual

/-- The walk sees of the frames what they bind, and what calls see of them. -/
theorem evaluateWith_frames
    {call : List (Frame K) → UserFunction K → List (Value K) → Eval (Value K)}
    (hcall : call frames = call frames')
    (h : ∀ name, binding? scope frames name = binding? scope frames' name) :
    ∀ e : Expr K, evaluateWith ctx scope call frames e = evaluateWith ctx scope call frames' e
  | .number _ => by rw [evaluateWith, evaluateWith]
  | .symbol name => by rw [evaluateWith, evaluateWith, Context.resolve_frames (h name)]
  | .binary _ left right => by
    rw [evaluateWith, evaluateWith, evaluateWith_frames hcall h left,
      evaluateWith_frames hcall h right]
  | .signed _ operand => by
    rw [evaluateWith, evaluateWith, evaluateWith_frames hcall h operand]
  | .call callee args => by
    rw [evaluateWith, evaluateWith, evaluateWith_frames hcall h callee,
      evaluateAllWith_frames hcall h args, hcall]
    cases callee.symbol? with
    | some name =>
      dsimp only
      rw [Context.resolveCallee_frames (h name)]
    | none => rfl
  | .convert value _ => by
    rw [evaluateWith, evaluateWith, evaluateWith_frames hcall h value]

theorem evaluateAllWith_frames
    {call : List (Frame K) → UserFunction K → List (Value K) → Eval (Value K)}
    (hcall : call frames = call frames')
    (h : ∀ name, binding? scope frames name = binding? scope frames' name) :
    ∀ es : List (Expr K),
      evaluateAllWith ctx scope call frames es = evaluateAllWith ctx scope call frames' es
  | [] => by rw [evaluateAllWith, evaluateAllWith]
  | e :: es => by
    rw [evaluateAllWith, evaluateAllWith, evaluateWith_frames hcall h e,
      evaluateAllWith_frames hcall h es]

end

/-- A call sees nothing of the frames that it is made from: the body sees its own frame. -/
theorem callUser_frames (left : Nat) (frames frames' : List (Frame K)) :
    callUser ctx scope left frames = callUser ctx scope left frames' := by
  induction left generalizing frames frames' with
  | zero =>
    funext f args
    rw [callUser, callUser]
  | succ left ih =>
    funext f args
    let frame : Frame K := .ofList (f.params.zip args)
    have hsees : ∀ name, binding? scope (frame :: frames) name =
        binding? scope (frame :: frames') name := fun _ ↦ rfl
    rw [callUser, callUser, evaluateWith_frames (ih _ _) hsees]

omit [Scalar K] in
theorem binding?_congr
    (h : ∀ name, frames.head?.bind (·.get? name) = frames'.head?.bind (·.get? name))
    (name : String) : binding? scope frames name = binding? scope frames' name := by
  rw [binding?, binding?, h]

end Visible

/-- **No dynamic scoping.** Two stacks of one height, whose innermost frames bind the same, cannot be
told apart: evaluation comes to an end on both, with the same value or error and after the same steps,
those of the walk, and leaves the scope and each stack as they were. -/
theorem Evaluator.no_dynamic_scoping [Scalar K] (ctx : Context K) (scope : Scope K) (e : Expr K)
    (steps : Nat) {fuel : Nat} (hfuel : ctx.engine.limits.maxCallDepth < fuel)
    (frames frames' : List (Frame K)) (hlength : frames.length = frames'.length)
    (htop : ∀ name, frames.head?.bind (·.get? name) = frames'.head?.bind (·.get? name)) :
    ∃ outcome after,
      (evaluate ctx fuel e).run.run ⟨scope, frames, steps⟩ =
        some (outcome, ⟨scope, frames, after⟩) ∧
      (evaluate ctx fuel e).run.run ⟨scope, frames', steps⟩ =
        some (outcome, ⟨scope, frames', after⟩) ∧
      (Reckoner.evaluateWith ctx scope (Reckoner.callUser ctx scope
        (ctx.engine.limits.maxCallDepth - frames.length)) frames e).runFrom steps =
          (outcome, after) := by
  refine ⟨_, _, mirrors_evaluate ctx scope frames e hfuel steps, ?_, rfl⟩
  rw [mirrors_evaluate ctx scope frames' e hfuel steps, ← hlength,
    evaluateWith_frames (callUser_frames _ frames frames') (binding?_congr htop)]

/-- The body of `g` does not see what the frames below bind, so the call of `g` within the call of `f`
fails, in two frames more than there were. -/
theorem Evaluator.no_dynamic_scoping_unbound :
    let ctx : Context Float := ⟨.standard {}, .uninitialized⟩
    let scope : Scope Float := .ofList [("last", .undefined),
      ("f", .function (.user ⟨"f", ["n"], .call (.symbol "g") [.symbol "n"]⟩)),
      ("g", .function (.user ⟨"g", ["n"], .symbol "hidden"⟩))]
    let e : Expr Float := .call (.symbol "f") [.symbol "last"]
    let frames : List (Frame Float) := [.empty, .ofList [("hidden", .undefined)]]
    let frames' : List (Frame Float) := [.empty, .ofList [("hidden", .notANumber)]]
    (evaluate ctx 65 e).run.run ⟨scope, frames, 0⟩ =
        some (.error (.undefinedSymbol "hidden"), ⟨scope, frames, 5⟩) ∧
      (evaluate ctx 65 e).run.run ⟨scope, frames', 0⟩ =
        some (.error (.undefinedSymbol "hidden"), ⟨scope, frames', 5⟩) := by
  intro ctx scope e frames frames'
  obtain ⟨outcome, after, hrun, hrun', hwalk⟩ :=
    no_dynamic_scoping ctx scope e 0 (Nat.lt_succ_self 64) frames frames' rfl fun name ↦ rfl
  have hfails : (Reckoner.evaluateWith ctx scope (Reckoner.callUser ctx scope
      (ctx.engine.limits.maxCallDepth - frames.length)) frames e).runFrom 0 =
        (.error (.undefinedSymbol "hidden"), 5) := by
    rfl
  obtain ⟨rfl, rfl⟩ := Prod.mk.inj (hfails.symm.trans hwalk)
  exact ⟨hrun, hrun'⟩

end Reckoner
