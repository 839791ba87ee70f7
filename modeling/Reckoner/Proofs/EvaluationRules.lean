import Mathlib.Order.Lattice
import Reckoner.Engine.Evaluation

/-!
# Evaluation by rules

The meaning of expressions as a system of rules, apart from any limit: `Evaluates` relates an
expression to its outcome, and to what finding this outcome takes. A recursion of user functions
that never ends has no outcome; the rules derive nothing for it. Bounds can be put on a derivation.
They add two rules, one for a node that is one step too many and one for a call that is one frame
too many, and both end the derivation with an error that nothing catches. Without bounds neither
rule ever applies.

Usage is threaded through a derivation, since the steps of a line are counted across all of its
nodes. The two facts about rules that the study of limits rests on are here: usage only grows, and
an expression has one outcome and one usage.
-/

namespace Reckoner

/-! ### Usage and bounds -/

/-- What an evaluation has taken so far. -/
structure Usage where
  /-- How many nodes have been visited. -/
  steps : Nat
  /-- The greatest number of frames in which a node has been visited. -/
  frames : Nat

namespace Usage

instance : Preorder Usage := Preorder.lift fun u ↦ (u.steps, u.frames)

theorem le_iff {u v : Usage} : u ≤ v ↔ u.steps ≤ v.steps ∧ u.frames ≤ v.frames :=
  Iff.rfl

/-- Nothing has been visited. -/
def zero : Usage := ⟨0, 0⟩

/-- Another node is visited, in so many frames. -/
def visit (u : Usage) (frames : Nat) : Usage := ⟨u.steps + 1, max u.frames frames⟩

theorem le_visit (u : Usage) (frames : Nat) : u ≤ u.visit frames :=
  le_iff.2 ⟨Nat.le_succ _, Nat.le_max_left _ _⟩

end Usage

/-- Bounds on what an evaluation may take, if there are any. -/
structure Bounds where
  steps : Option Nat
  frames : Option Nat

namespace Bounds

/-- No bounds. -/
def unlimited : Bounds := ⟨none, none⟩

/-- Whether the usage stays within the bounds. -/
structure Allows (b : Bounds) (u : Usage) : Prop where
  steps_le : ∀ n ∈ b.steps, u.steps ≤ n
  frames_le : ∀ n ∈ b.frames, u.frames ≤ n

theorem allows_unlimited (u : Usage) : unlimited.Allows u :=
  ⟨nofun, nofun⟩

theorem Allows.mono {b : Bounds} {u v : Usage} (h : b.Allows v) (huv : u ≤ v) : b.Allows u :=
  ⟨fun n hn ↦ huv.1.trans (h.steps_le n hn), fun n hn ↦ huv.2.trans (h.frames_le n hn)⟩

end Bounds

/-! ### The rules -/

variable {K : Type} [Scalar K]

section Rules

variable (ctx : Context K) (scope : Scope K) (bounds : Bounds)

mutual

/-- Visiting an expression: `Evaluates ctx scope bounds frames e u o v` is an outcome `o` of `e` in
some frames, with the usage `u` before and `v` after it. -/
inductive Evaluates :
    List (Frame K) → Expr K → Usage → Except EvalError (Value K) → Usage → Prop where
  | outOfSteps {frames e u n} (hn : n ∈ bounds.steps) (h : n < u.steps + 1) :
      Evaluates frames e u (.error (.stepBudgetExceeded n)) (u.visit frames.length)
  | visit {frames e u o v} (hn : ∀ n ∈ bounds.steps, u.steps + 1 ≤ n)
      (h : EvaluatesNode frames e (u.visit frames.length) o v) : Evaluates frames e u o v

/-- The outcome of an expression whose node has been counted. -/
inductive EvaluatesNode :
    List (Frame K) → Expr K → Usage → Except EvalError (Value K) → Usage → Prop where
  | number {frames u} (x : K) : EvaluatesNode frames (.number x) u (.ok (.ofNumber x)) u
  | symbol {frames u} (name : String) :
      EvaluatesNode frames (.symbol name) u (ctx.resolve scope frames name) u
  | binary_error {frames op left right u error v}
      (hleft : Evaluates frames left u (.error error) v) :
      EvaluatesNode frames (.binary op left right) u (.error error) v
  | binary {frames op left right u a v o w} (hleft : Evaluates frames left u (.ok a) v)
      (hright : Evaluates frames right v o w) :
      EvaluatesNode frames (.binary op left right) u (o.bind (ctx.engine.rules.apply op a)) w
  | signed {frames sign operand u o v} (h : Evaluates frames operand u o v) :
      EvaluatesNode frames (.signed sign operand) u (o.bind (applySign sign)) v
  | convert {frames value target u o v} (h : Evaluates frames value u o v) :
      EvaluatesNode frames (.convert value target) u
        (o.bind fun a ↦ (ctx.target target).bind (Reckoner.convert · a)) v
  | callee_error {frames callee args u error v}
      (hcallee : EvaluatesCallee frames callee u (.error error) v) :
      EvaluatesNode frames (.call callee args) u (.error error) v
  | notCallable {frames callee args u a v} (hcallee : EvaluatesCallee frames callee u (.ok a) v)
      (ha : ∀ f, a ≠ .function f) :
      EvaluatesNode frames (.call callee args) u (.error (.notCallable callee.callee)) v
  | arguments_error {frames callee args u f v error w}
      (hcallee : EvaluatesCallee frames callee u (.ok (.function f)) v)
      (hargs : EvaluatesAll frames args v (.error error) w) :
      EvaluatesNode frames (.call callee args) u (.error error) w
  | call {frames callee args u f v as w o x}
      (hcallee : EvaluatesCallee frames callee u (.ok (.function f)) v)
      (hargs : EvaluatesAll frames args v (.ok as) w) (hcall : Calls frames f as w o x) :
      EvaluatesNode frames (.call callee args) u o x

/-- The outcome of an expression in call position, where a name is not visited. -/
inductive EvaluatesCallee :
    List (Frame K) → Expr K → Usage → Except EvalError (Value K) → Usage → Prop where
  | name {frames u} (name : String) :
      EvaluatesCallee frames (.symbol name) u (ctx.resolveCallee scope frames name) u
  | other {frames callee u o v} (hcallee : callee.symbol? = none)
      (h : Evaluates frames callee u o v) :
      EvaluatesCallee frames callee u o v

/-- The outcome of some expressions, from left to right. -/
inductive EvaluatesAll :
    List (Frame K) → List (Expr K) → Usage → Except EvalError (List (Value K)) → Usage → Prop where
  | nil {frames u} : EvaluatesAll frames [] u (.ok []) u
  | head_error {frames e es u error v} (he : Evaluates frames e u (.error error) v) :
      EvaluatesAll frames (e :: es) u (.error error) v
  | cons {frames e es u a v o w} (he : Evaluates frames e u (.ok a) v)
      (hes : EvaluatesAll frames es v o w) : EvaluatesAll frames (e :: es) u (o.map (a :: ·)) w

/-- The outcome of a call. The body of a user function is visited in one more frame. -/
inductive Calls :
    List (Frame K) → Callable K → List (Value K) → Usage → Except EvalError (Value K) → Usage →
      Prop where
  | builtin {frames args u} (name : String) :
      Calls frames (.builtin name) args u (ctx.engine.functions.call name args) u
  | arity {frames} {f : UserFunction K} {args u} (h : args.length ≠ f.params.length) :
      Calls frames (.user f) args u
        (.error (.arity f.name (.exactly f.params.length) args.length)) u
  | tooDeep {frames} {f : UserFunction K} {args u n} (h : args.length = f.params.length)
      (hn : n ∈ bounds.frames) (hdeep : n ≤ frames.length) :
      Calls frames (.user f) args u (.error (.callDepthExceeded n)) u
  | body {frames} {f : UserFunction K} {args u o v} (h : args.length = f.params.length)
      (hn : ∀ n ∈ bounds.frames, frames.length < n)
      (hbody : Evaluates (.ofList (f.params.zip args) :: frames) f.body u o v) :
      Calls frames (.user f) args u o v

end

end Rules

variable {ctx : Context K} {scope : Scope K} {bounds : Bounds}

/-! ### Usage only grows -/

mutual

theorem Evaluates.le {frames e u o v} : Evaluates ctx scope bounds frames e u o v → u ≤ v
  | .outOfSteps _ _ => u.le_visit frames.length
  | .visit _ h => (u.le_visit frames.length).trans h.le

theorem EvaluatesNode.le {frames e u o v} : EvaluatesNode ctx scope bounds frames e u o v → u ≤ v
  | .number _ => le_rfl
  | .symbol _ => le_rfl
  | .binary_error hleft => hleft.le
  | .binary hleft hright => hleft.le.trans hright.le
  | .signed h => h.le
  | .convert h => h.le
  | .callee_error hcallee => hcallee.le
  | .notCallable hcallee _ => hcallee.le
  | .arguments_error hcallee hargs => hcallee.le.trans hargs.le
  | .call hcallee hargs hcall => (hcallee.le.trans hargs.le).trans hcall.le

theorem EvaluatesCallee.le {frames e u o v} :
    EvaluatesCallee ctx scope bounds frames e u o v → u ≤ v
  | .name _ => le_rfl
  | .other _ h => h.le

theorem EvaluatesAll.le {frames es u o v} : EvaluatesAll ctx scope bounds frames es u o v → u ≤ v
  | .nil => le_rfl
  | .head_error he => he.le
  | .cons he hes => he.le.trans hes.le

theorem Calls.le {frames f args u o v} : Calls ctx scope bounds frames f args u o v → u ≤ v
  | .builtin _ => le_rfl
  | .arity _ => le_rfl
  | .tooDeep _ _ _ => le_rfl
  | .body _ _ hbody => hbody.le

end

/-- At least the expression itself is visited. -/
theorem Evaluates.visit_le {frames e u o v} (h : Evaluates ctx scope bounds frames e u o v) :
    u.visit frames.length ≤ v := by
  cases h with
  | outOfSteps => exact le_rfl
  | visit _ h => exact h.le

/-! ### Outcomes are unique -/

mutual

theorem Evaluates.unique {frames e u o v o' w} : Evaluates ctx scope bounds frames e u o v →
    Evaluates ctx scope bounds frames e u o' w → o = o' ∧ v = w
  | .outOfSteps hn hlt, h' => by
    -- The budget alone decides which of the two rules applies.
    cases h' with
    | outOfSteps hn' => exact ⟨by rw [Option.mem_unique hn hn'], rfl⟩
    | visit hn' => exact absurd (hn' _ hn) (by omega)
  | .visit hn h, h' => by
    cases h' with
    | outOfSteps hn' hlt => exact absurd (hn _ hn') (by omega)
    | visit _ h' => exact h.unique h'
termination_by structural h _ => h

theorem EvaluatesNode.unique {frames e u o v o' w} : EvaluatesNode ctx scope bounds frames e u o v →
    EvaluatesNode ctx scope bounds frames e u o' w → o = o' ∧ v = w
  | .number _, h' => by
    cases h'
    exact ⟨rfl, rfl⟩
  | .symbol _, h' => by
    cases h'
    exact ⟨rfl, rfl⟩
  | .binary_error hleft, h' => by
    cases h' with
    | binary_error hleft' => exact hleft.unique hleft'
    | binary hleft' => exact absurd (hleft.unique hleft').1 nofun
  | .binary hleft hright, h' => by
    cases h' with
    | binary_error hleft' => exact absurd (hleft.unique hleft').1 nofun
    | binary hleft' hright' =>
      obtain ⟨⟨⟩, rfl⟩ := hleft.unique hleft'
      obtain ⟨rfl, rfl⟩ := hright.unique hright'
      exact ⟨rfl, rfl⟩
  | .signed h, h' => by
    cases h' with
    | signed h' =>
      obtain ⟨rfl, rfl⟩ := h.unique h'
      exact ⟨rfl, rfl⟩
  | .convert h, h' => by
    cases h' with
    | convert h' =>
      obtain ⟨rfl, rfl⟩ := h.unique h'
      exact ⟨rfl, rfl⟩
  | .callee_error hcallee, h' => by
    cases h' with
    | callee_error hcallee' => exact hcallee.unique hcallee'
    | notCallable hcallee' => exact absurd (hcallee.unique hcallee').1 nofun
    | arguments_error hcallee' => exact absurd (hcallee.unique hcallee').1 nofun
    | call hcallee' => exact absurd (hcallee.unique hcallee').1 nofun
  | .notCallable hcallee ha, h' => by
    cases h' with
    | callee_error hcallee' => exact absurd (hcallee.unique hcallee').1 nofun
    | notCallable hcallee' => exact ⟨rfl, (hcallee.unique hcallee').2⟩
    | arguments_error hcallee' => exact absurd (Except.ok.inj (hcallee.unique hcallee').1) (ha _)
    | call hcallee' => exact absurd (Except.ok.inj (hcallee.unique hcallee').1) (ha _)
  | .arguments_error hcallee hargs, h' => by
    -- The callee is the same in both derivations, and then so is the outcome of the arguments.
    cases h' with
    | callee_error hcallee' => exact absurd (hcallee.unique hcallee').1 nofun
    | notCallable hcallee' ha =>
      exact absurd (Except.ok.inj (hcallee.unique hcallee').1.symm) (ha _)
    | arguments_error hcallee' hargs' =>
      obtain ⟨⟨⟩, rfl⟩ := hcallee.unique hcallee'
      obtain ⟨⟨⟩, rfl⟩ := hargs.unique hargs'
      exact ⟨rfl, rfl⟩
    | call hcallee' hargs' =>
      obtain ⟨⟨⟩, rfl⟩ := hcallee.unique hcallee'
      exact absurd (hargs.unique hargs').1 nofun
  | .call hcallee hargs hcall, h' => by
    cases h' with
    | callee_error hcallee' => exact absurd (hcallee.unique hcallee').1 nofun
    | notCallable hcallee' ha =>
      exact absurd (Except.ok.inj (hcallee.unique hcallee').1.symm) (ha _)
    | arguments_error hcallee' hargs' =>
      obtain ⟨⟨⟩, rfl⟩ := hcallee.unique hcallee'
      exact absurd (hargs.unique hargs').1 nofun
    | call hcallee' hargs' hcall' =>
      obtain ⟨⟨⟩, rfl⟩ := hcallee.unique hcallee'
      obtain ⟨⟨⟩, rfl⟩ := hargs.unique hargs'
      exact hcall.unique hcall'
termination_by structural h _ => h

theorem EvaluatesCallee.unique {frames e u o v o' w} :
    EvaluatesCallee ctx scope bounds frames e u o v →
      EvaluatesCallee ctx scope bounds frames e u o' w → o = o' ∧ v = w
  | .name _, h' => by
    cases h' with
    | name => exact ⟨rfl, rfl⟩
    | other hcallee => exact absurd hcallee nofun
  | .other hcallee h, h' => by
    cases h' with
    | name => exact absurd hcallee nofun
    | other _ h' => exact h.unique h'
termination_by structural h _ => h

theorem EvaluatesAll.unique {frames es u o v o' w} : EvaluatesAll ctx scope bounds frames es u o v →
    EvaluatesAll ctx scope bounds frames es u o' w → o = o' ∧ v = w
  | .nil, h' => by
    cases h'
    exact ⟨rfl, rfl⟩
  | .head_error he, h' => by
    cases h' with
    | head_error he' =>
      obtain ⟨⟨⟩, rfl⟩ := he.unique he'
      exact ⟨rfl, rfl⟩
    | cons he' => exact absurd (he.unique he').1 nofun
  | .cons he hes, h' => by
    cases h' with
    | head_error he' => exact absurd (he.unique he').1 nofun
    | cons he' hes' =>
      obtain ⟨⟨⟩, rfl⟩ := he.unique he'
      obtain ⟨rfl, rfl⟩ := hes.unique hes'
      exact ⟨rfl, rfl⟩
termination_by structural h _ => h

theorem Calls.unique {frames f args u o v o' w} : Calls ctx scope bounds frames f args u o v →
    Calls ctx scope bounds frames f args u o' w → o = o' ∧ v = w
  | .builtin _, h' => by
    cases h'
    exact ⟨rfl, rfl⟩
  | .arity hne, h' => by
    cases h' with
    | arity => exact ⟨rfl, rfl⟩
    | tooDeep heq => exact absurd heq hne
    | body heq => exact absurd heq hne
  | .tooDeep heq hn hdeep, h' => by
    cases h' with
    | arity hne => exact absurd heq hne
    | tooDeep _ hn' => exact ⟨by rw [Option.mem_unique hn hn'], rfl⟩
    | body _ hn' => exact absurd (hn' _ hn) (by omega)
  | .body heq hn hbody, h' => by
    cases h' with
    | arity hne => exact absurd heq hne
    | tooDeep _ hn' hdeep => exact absurd (hn _ hn') (by omega)
    | body _ _ hbody' => exact hbody.unique hbody'
termination_by structural h _ => h

end

end Reckoner
