import Reckoner.Notebook.Basic
import Reckoner.Proofs.EvaluationRules

/-!
# Limits of evaluation are exact

The walk over an expression stops at the step that exceeds the budget, and at the call that exceeds
the depth. This module compares it with the rules of evaluation, which know of no limits.

The comparison has two halves. The walk follows the rules within bounds (`follows_evaluateWith`,
`follows_callUser`): it always comes to an end, and there is a derivation within the bounds for what
it comes to. And bounds do one of two things to a derivation (`Evaluates.cutOrFree`): they cut it,
and then its outcome is the error of a bound, because errors are passed on by every rule; or they do
not show, and the same derivation exists within all bounds that allow what it takes, and so without
any. Since outcomes are unique, this settles every case, and no case needs to know where an endless
recursion was cut.
-/

namespace Reckoner

variable {K : Type} [Scalar K] {ctx : Context K} {scope : Scope K} {b : Bounds}

/-! ### Cut or free -/

namespace Bounds

/-- Whether an error says that one of the bounds has been exceeded. -/
def Cuts (b : Bounds) (error : EvalError) : Prop :=
  (∃ n ∈ b.steps, error = .stepBudgetExceeded n) ∨ ∃ n ∈ b.frames, error = .callDepthExceeded n

/-- Whether the usage stays within the bounds, but for the one step that exceeds them. -/
structure Reaches (b : Bounds) (u : Usage) : Prop where
  steps_le : ∀ n ∈ b.steps, u.steps ≤ n + 1
  frames_le : ∀ n ∈ b.frames, u.frames ≤ n

theorem Allows.reaches {u : Usage} (h : b.Allows u) : b.Reaches u :=
  ⟨fun n hn ↦ (h.steps_le n hn).trans (Nat.le_succ n), h.frames_le⟩

/-- What bounds do to a derivation: they cut it, or they do not show. In the second case there is
the same derivation within all bounds that allow what it takes. -/
inductive CutOrFree {α : Type} (b : Bounds) (o : Except EvalError α) (v : Usage)
    (derivable : Bounds → Prop) : Prop where
  | cut {error} (ho : o = .error error) (herror : b.Cuts error) (hv : b.Reaches v)
  | free (hv : b.Allows v) (h : ∀ b', b'.Allows v → derivable b')

namespace CutOrFree

variable {α β : Type} {o : Except EvalError α} {v : Usage} {derivable derivable' : Bounds → Prop}

/-- Within the bounds, nothing has been cut before an outcome that is a value. -/
theorem of_ok {a : α} (h : b.CutOrFree (.ok a) v derivable) :
    b.Allows v ∧ ∀ b', b'.Allows v → derivable b' := by
  cases h with
  | cut ho => contradiction
  | free hv h => exact ⟨hv, h⟩

/-- A premise that comes last passes a cut on, if its errors are the errors of the conclusion. -/
theorem imp {o' : Except EvalError β} (h : b.CutOrFree o v derivable)
    (ho : ∀ error, o = .error error → o' = .error error)
    (himp : ∀ b', b'.Allows v → derivable b' → derivable' b') : b.CutOrFree o' v derivable' := by
  cases h with
  | cut heq herror hv => exact .cut (ho _ heq) herror hv
  | free hv h => exact .free hv fun b' hb' ↦ himp b' hb' (h b' hb')

end CutOrFree

end Bounds

open Bounds (CutOrFree)

mutual

theorem Evaluates.cutOrFree {frames e u o v} : Evaluates ctx scope b frames e u o v → b.Allows u →
    (∀ n ∈ b.frames, frames.length ≤ n) →
    b.CutOrFree o v fun b' ↦ Evaluates ctx scope b' frames e u o v
  | .outOfSteps hn _, hu, hframes => by
    -- The step that is one too many is counted, and it is the only one.
    refine .cut rfl (.inl ⟨_, hn, rfl⟩) ⟨fun n hn ↦ ?_, fun n hn ↦ ?_⟩
    · exact Nat.succ_le_succ (hu.steps_le n hn)
    · exact Nat.max_le.2 ⟨hu.frames_le n hn, hframes n hn⟩
  | .visit hn h, hu, hframes => by
    have hvisit : b.Allows (u.visit frames.length) :=
      ⟨hn, fun n hn ↦ Nat.max_le.2 ⟨hu.frames_le n hn, hframes n hn⟩⟩
    refine (h.cutOrFree hvisit hframes).imp (fun _ ↦ id) fun b' hb' h' ↦ ?_
    exact .visit (hb'.mono h.le).steps_le h'

theorem EvaluatesNode.cutOrFree {frames e u o v} : EvaluatesNode ctx scope b frames e u o v →
    b.Allows u → (∀ n ∈ b.frames, frames.length ≤ n) →
    b.CutOrFree o v fun b' ↦ EvaluatesNode ctx scope b' frames e u o v
  | .number x, hu, _ => .free hu fun _ _ ↦ .number x
  | .symbol name, hu, _ => .free hu fun _ _ ↦ .symbol name
  | .binary_error hleft, hu, hframes =>
    (hleft.cutOrFree hu hframes).imp (fun _ ↦ id) fun _ _ ↦ .binary_error
  | .binary hleft hright, hu, hframes => by
    obtain ⟨hv, hfree⟩ := (hleft.cutOrFree hu hframes).of_ok
    refine (hright.cutOrFree hv hframes).imp ?_ fun b' hb' ↦ .binary (hfree b' (hb'.mono hright.le))
    rintro error rfl
    rfl
  | .signed h, hu, hframes => by
    refine (h.cutOrFree hu hframes).imp ?_ fun _ _ ↦ .signed
    rintro error rfl
    rfl
  | .convert h, hu, hframes => by
    refine (h.cutOrFree hu hframes).imp ?_ fun _ _ ↦ .convert
    rintro error rfl
    rfl
  | .callee_error hcallee, hu, hframes =>
    (hcallee.cutOrFree hu hframes).imp (fun _ h ↦ by cases h; rfl) fun _ _ ↦ .callee_error
  | .notCallable hcallee ha, hu, hframes => by
    obtain ⟨hv, hfree⟩ := (hcallee.cutOrFree hu hframes).of_ok
    exact .free hv fun b' hb' ↦ .notCallable (hfree b' hb') ha
  | .arguments_error hcallee hargs, hu, hframes => by
    obtain ⟨hv, hfree⟩ := (hcallee.cutOrFree hu hframes).of_ok
    refine (hargs.cutOrFree hv hframes).imp (fun _ h ↦ by cases h; rfl) fun b' hb' ↦ ?_
    exact .arguments_error (hfree b' (hb'.mono hargs.le))
  | .call hcallee hargs hcall, hu, hframes => by
    obtain ⟨hv, hfree⟩ := (hcallee.cutOrFree hu hframes).of_ok
    obtain ⟨hw, hfree'⟩ := (hargs.cutOrFree hv hframes).of_ok
    refine (hcall.cutOrFree hw hframes).imp (fun _ ↦ id) fun b' hb' ↦ ?_
    exact .call (hfree b' (hb'.mono (hargs.le.trans hcall.le))) (hfree' b' (hb'.mono hcall.le))

theorem EvaluatesCallee.cutOrFree {frames e u o v} : EvaluatesCallee ctx scope b frames e u o v →
    b.Allows u → (∀ n ∈ b.frames, frames.length ≤ n) →
    b.CutOrFree o v fun b' ↦ EvaluatesCallee ctx scope b' frames e u o v
  | .name name, hu, _ => .free hu fun _ _ ↦ .name name
  | .other hcallee h, hu, hframes =>
    (h.cutOrFree hu hframes).imp (fun _ ↦ id) fun _ _ ↦ .other hcallee

theorem EvaluatesAll.cutOrFree {frames es u o v} : EvaluatesAll ctx scope b frames es u o v →
    b.Allows u → (∀ n ∈ b.frames, frames.length ≤ n) →
    b.CutOrFree o v fun b' ↦ EvaluatesAll ctx scope b' frames es u o v
  | .nil, hu, _ => .free hu fun _ _ ↦ .nil
  | .head_error he, hu, hframes =>
    (he.cutOrFree hu hframes).imp (fun _ h ↦ by cases h; rfl) fun _ _ ↦ .head_error
  | .cons he hes, hu, hframes => by
    obtain ⟨hv, hfree⟩ := (he.cutOrFree hu hframes).of_ok
    refine (hes.cutOrFree hv hframes).imp ?_ fun b' hb' ↦ .cons (hfree b' (hb'.mono hes.le))
    rintro error rfl
    rfl

theorem Calls.cutOrFree {frames f args u o v} : Calls ctx scope b frames f args u o v →
    b.Allows u → (∀ n ∈ b.frames, frames.length ≤ n) →
    b.CutOrFree o v fun b' ↦ Calls ctx scope b' frames f args u o v
  | .builtin name, hu, _ => .free hu fun _ _ ↦ .builtin name
  | .arity h, hu, _ => .free hu fun _ _ ↦ .arity h
  | .tooDeep _ hn _, hu, _ => .cut rfl (.inr ⟨_, hn, rfl⟩) hu.reaches
  | .body h hn hbody, hu, _ =>
    -- The body has been visited in one frame more, so bounds that allow the usage allow this frame.
    (hbody.cutOrFree hu hn).imp (fun _ ↦ id) fun _ hb' ↦
      .body h fun n hn ↦ (Nat.le_max_right _ _).trans ((hb'.mono hbody.visit_le).frames_le n hn)

end

/-! ### The walk follows the rules -/

/-- The bounds that an engine with these limits puts on evaluation. -/
def Bounds.exactly (budget depth : Nat) : Bounds := ⟨some budget, some depth⟩

namespace Bounds

theorem allows_exactly {budget depth : Nat} {u : Usage} :
    (exactly budget depth).Allows u ↔ u.steps ≤ budget ∧ u.frames ≤ depth := by
  constructor
  · exact fun h ↦ ⟨h.steps_le budget rfl, h.frames_le depth rfl⟩
  · rintro ⟨hsteps, hframes⟩
    constructor
    · rintro n ⟨⟩
      exact hsteps
    · rintro n ⟨⟩
      exact hframes

theorem cuts_exactly {budget depth : Nat} {error : EvalError} :
    (exactly budget depth).Cuts error ↔
      error = .stepBudgetExceeded budget ∨ error = .callDepthExceeded depth := by
  simp [Cuts, exactly]

theorem not_cuts_unlimited (error : EvalError) : ¬unlimited.Cuts error := by
  simp [Cuts, unlimited]

end Bounds

/-- The same context with other limits of evaluation. -/
def Context.limited (ctx : Context K) (budget depth : Nat) : Context K :=
  { ctx with engine := { ctx.engine with
      limits := { ctx.engine.limits with stepBudget := budget, maxCallDepth := depth } } }

namespace Eval

variable {α β : Type} {R S : Except EvalError α → Usage → Prop}

/-- The outcome of a computation that starts after so many steps, and the steps after it. -/
def runFrom (x : Eval α) (steps : Nat) : Except EvalError α × Nat := x.run.run steps

/-- What a computation comes to, starting after so many steps, is what the rules say. -/
def Follows (R : Except EvalError α → Usage → Prop) (x : Eval α) (steps : Nat) : Prop :=
  ∃ v, R (x.runFrom steps).1 v ∧ v.steps = (x.runFrom steps).2

theorem follows_ofExcept {o : Except EvalError α} {u : Usage} (h : R o u) :
    Follows R (ofExcept o) u.steps :=
  ⟨u, h, rfl⟩

theorem ofExcept_bind (o : Except EvalError α) (f : α → Except EvalError β) :
    (do let a ← ofExcept o; ofExcept (f a)) = ofExcept (o.bind f) := by
  cases o <;> rfl

theorem follows_throw {error : EvalError} {u : Usage} (h : R (.error error) u) :
    Follows R (throw error) u.steps :=
  ⟨u, h, rfl⟩

theorem follows_pure {a : α} {u : Usage} (h : R (.ok a) u) : Follows R (pure a) u.steps :=
  ⟨u, h, rfl⟩

theorem runFrom_bind (x : Eval α) (f : α → Eval β) (steps : Nat) :
    (x >>= f).runFrom steps =
      match x.runFrom steps with
      | (.ok a, after) => (f a).runFrom after
      | (.error error, after) => (.error error, after) := by
  show (match x.runFrom steps with | (o, after) => StateT.run (ExceptT.bindCont f o) after) = _
  rcases x.runFrom steps with ⟨error | a, after⟩ <;> rfl

theorem follows_bind {R : Except EvalError β → Usage → Prop} {x : Eval α} {f : α → Eval β}
    {steps : Nat} (hx : Follows S x steps)
    (herror : ∀ error v, S (.error error) v → R (.error error) v)
    (hok : ∀ a v, S (.ok a) v → Follows R (f a) v.steps) : Follows R (x >>= f) steps := by
  obtain ⟨v, hv, hsteps⟩ := hx
  rw [Follows, runFrom_bind]
  rcases hrun : x.runFrom steps with ⟨error | a, after⟩ <;> rw [hrun] at hv hsteps <;> subst hsteps
  · exact ⟨v, herror error v hv, rfl⟩
  · exact hok a v hv

theorem runFrom_step (budget steps : Nat) :
    (step budget).runFrom steps =
      (if budget < steps + 1 then .error (.stepBudgetExceeded budget) else .ok ⟨⟩, steps + 1) := by
  have hcount : (modify (· + 1) : Eval PUnit).runFrom steps = (.ok ⟨⟩, steps + 1) := rfl
  have hget : (get : Eval Nat).runFrom (steps + 1) = (.ok (steps + 1), steps + 1) := rfl
  rw [step, runFrom_bind, hcount]
  dsimp only
  rw [runFrom_bind, hget]
  dsimp only
  split <;> rfl

end Eval

open Eval (Follows)

omit [Scalar K] in
theorem Expr.eq_symbol_of_symbol? {e : Expr K} {name : String} (h : e.symbol? = some name) :
    e = .symbol name := by
  cases e with
  | symbol name' =>
    obtain rfl := Option.some.inj h
    rfl
  | _ => contradiction

variable {budget depth : Nat} {frames : List (Frame K)}

/-- The test of the budget in front of every node. -/
theorem follows_visit {e : Expr K} {u : Usage} {node : Eval (Value K)}
    (h : Follows
      (EvaluatesNode ctx scope (.exactly budget depth) frames e (u.visit frames.length)) node
      (u.visit frames.length).steps) :
    Follows (Evaluates ctx scope (.exactly budget depth) frames e u)
      (do Eval.step budget; node) u.steps := by
  rw [Follows, Eval.runFrom_bind, Eval.runFrom_step]
  by_cases hcut : budget < u.steps + 1
  · rw [if_pos hcut]
    exact ⟨u.visit frames.length, .outOfSteps rfl hcut, rfl⟩
  · rw [if_neg hcut]
    obtain ⟨v, hv, hsteps⟩ := h
    refine ⟨v, .visit ?_ hv, hsteps⟩
    rintro n ⟨⟩
    omega

section Walk

variable {call : List (Frame K) → UserFunction K → List (Value K) → Eval (Value K)}

mutual

/-- The walk within some frames follows the rules, if calls from these frames do. -/
theorem follows_evaluateWith
    (hcall : ∀ f args u, Follows (Calls ctx scope (.exactly budget depth) frames (.user f) args u)
      (call frames f args) u.steps) : ∀ (e : Expr K) (u : Usage),
    Follows (Evaluates ctx scope (.exactly budget depth) frames e u)
      (evaluateWith (ctx.limited budget depth) scope call frames e) u.steps
  | .number x, u => by
    rw [evaluateWith]
    exact follows_visit (Eval.follows_pure (EvaluatesNode.number x))
  | .symbol name, u => by
    rw [evaluateWith]
    exact follows_visit (Eval.follows_ofExcept (EvaluatesNode.symbol name))
  | .binary op left right, u => by
    rw [evaluateWith]
    refine follows_visit (Eval.follows_bind (follows_evaluateWith hcall left _)
      (fun _ _ hleft ↦ .binary_error hleft) fun a v hleft ↦ ?_)
    refine Eval.follows_bind (follows_evaluateWith hcall right v)
      (fun _ _ hright ↦ .binary hleft hright) fun b w hright ↦ ?_
    exact Eval.follows_ofExcept (EvaluatesNode.binary hleft hright)
  | .signed sign operand, u => by
    rw [evaluateWith]
    refine follows_visit (Eval.follows_bind (follows_evaluateWith hcall operand _)
      (fun _ _ h ↦ .signed h) fun a v h ↦ ?_)
    exact Eval.follows_ofExcept (EvaluatesNode.signed h)
  | .call callee args, u => by
    rw [evaluateWith]
    -- What follows the callee is the same, whether it was looked up or evaluated.
    have hrest : ∀ f v, EvaluatesCallee ctx scope (.exactly budget depth) frames callee
          (u.visit frames.length) (.ok f) v →
        Follows (EvaluatesNode ctx scope (.exactly budget depth) frames (.call callee args)
          (u.visit frames.length)) (match f with
            | .function f => do
              let values ← evaluateAllWith (ctx.limited budget depth) scope call frames args
              match f with
              | .builtin name => Eval.ofExcept (ctx.engine.functions.call name values)
              | .user function => call frames function values
            | _ => throw (.notCallable callee.callee)) v.steps := by
      intro f v hf
      cases f with
      | function f =>
        refine Eval.follows_bind (follows_evaluateAllWith hcall args v)
          (fun _ _ hvalues ↦ .arguments_error hf hvalues) fun values w hvalues ↦ ?_
        cases f with
        | builtin name =>
          exact Eval.follows_ofExcept (EvaluatesNode.call hf hvalues (.builtin name))
        | user f =>
          obtain ⟨x, hx, hsteps⟩ := hcall f values w
          exact ⟨x, .call hf hvalues hx, hsteps⟩
      | _ => exact Eval.follows_throw (EvaluatesNode.notCallable hf nofun)
    refine follows_visit ?_
    cases hname : callee.symbol? with
    | none =>
      exact Eval.follows_bind (follows_evaluateWith hcall callee _)
        (fun _ _ hf ↦ .callee_error (.other hname hf)) fun f v hf ↦ hrest f v (.other hname hf)
    | some name =>
      obtain rfl := Expr.eq_symbol_of_symbol? hname
      have hcallee : Follows
          (EvaluatesCallee ctx scope (.exactly budget depth) frames (.symbol name)
            (u.visit frames.length))
          (Eval.ofExcept (ctx.resolveCallee scope frames name)) (u.visit frames.length).steps :=
        Eval.follows_ofExcept (.name name)
      exact Eval.follows_bind hcallee (fun _ _ hf ↦ .callee_error hf) hrest
  | .convert value target, u => by
    rw [evaluateWith]
    refine follows_visit (Eval.follows_bind (follows_evaluateWith hcall value _)
      (fun _ _ h ↦ .convert h) fun a v h ↦ ?_)
    rw [Eval.ofExcept_bind]
    exact Eval.follows_ofExcept (EvaluatesNode.convert h)

theorem follows_evaluateAllWith
    (hcall : ∀ f args u, Follows (Calls ctx scope (.exactly budget depth) frames (.user f) args u)
      (call frames f args) u.steps) : ∀ (es : List (Expr K)) (u : Usage),
    Follows (EvaluatesAll ctx scope (.exactly budget depth) frames es u)
      (evaluateAllWith (ctx.limited budget depth) scope call frames es) u.steps
  | [], u => by
    rw [evaluateAllWith]
    exact Eval.follows_pure EvaluatesAll.nil
  | e :: es, u => by
    rw [evaluateAllWith]
    refine Eval.follows_bind (follows_evaluateWith hcall e u) (fun _ _ he ↦ .head_error he)
      fun a v he ↦ ?_
    refine Eval.follows_bind (follows_evaluateAllWith hcall es v) (fun _ _ hes ↦ .cons he hes)
      fun as w hes ↦ ?_
    exact Eval.follows_pure (EvaluatesAll.cons he hes)

end

end Walk

/-- Calls follow the rules, if the frames that are in use and those that are left come to the
limit. -/
theorem follows_callUser (left : Nat) (frames : List (Frame K))
    (hframes : frames.length + left = depth) (f : UserFunction K) (args : List (Value K))
    (u : Usage) :
    Follows (Calls ctx scope (.exactly budget depth) frames (.user f) args u)
      (callUser (ctx.limited budget depth) scope left frames f args) u.steps := by
  induction left generalizing frames f args u with
  | zero =>
    rw [callUser]
    by_cases hargs : args.length = f.params.length
    · rw [if_neg (not_not.2 hargs)]
      exact Eval.follows_throw (Calls.tooDeep hargs rfl hframes.ge)
    · rw [if_pos hargs]
      exact Eval.follows_throw (Calls.arity hargs)
  | succ left ih =>
    rw [callUser]
    by_cases hargs : args.length = f.params.length
    · rw [if_neg (not_not.2 hargs)]
      have hbody := follows_evaluateWith
        (ih (.ofList (f.params.zip args) :: frames) (by rw [List.length_cons]; omega)) f.body u
      obtain ⟨v, hv, hsteps⟩ := hbody
      refine ⟨v, .body hargs ?_ hv, hsteps⟩
      rintro n ⟨⟩
      omega
    · rw [if_pos hargs]
      exact Eval.follows_throw (Calls.arity hargs)

theorem follows_evaluate (ctx : Context K) (scope : Scope K) (budget depth : Nat) (e : Expr K)
    (u : Usage) :
    Follows (Evaluates ctx scope (.exactly budget depth) [] e u)
      (evaluate (ctx.limited budget depth) scope e) u.steps :=
  follows_evaluateWith (follows_callUser depth [] (Nat.zero_add depth)) e u

/-! ### Lines -/

/-- What a line does, by the rules: its outcome with the scope after it, and what it takes. -/
inductive Action.Executes (ctx : Context K) (scope : Scope K) (b : Bounds) :
    Action K → Except EvalError (Value K × Scope K) → Usage → Prop where
  | empty : Executes ctx scope b .empty (.ok (.undefined, scope)) .zero
  | expression {e o u} (h : Evaluates ctx scope b [] e .zero o u) :
      Executes ctx scope b (.expression e) (o.map fun v ↦ (v, scope)) u
  | assign {name e o u} (h : Evaluates ctx scope b [] e .zero o u) :
      Executes ctx scope b (.assign name e) (o.map fun v ↦ (v, scope.insert name v)) u
  | define {name params body} :
      Executes ctx scope b (.define name params body)
        (.ok (.function (.user ⟨name, params, body⟩),
          scope.insert name (.function (.user ⟨name, params, body⟩)))) .zero

theorem Action.execute_expression (ctx : Context K) (scope : Scope K) (e : Expr K) :
    (Action.expression e).execute ctx scope =
      ((evaluate ctx scope e).runFrom 0).1.map fun v ↦ (v, scope) := by
  show (do .ok (← ((evaluate ctx scope e).runFrom 0).1, scope)) = _
  cases ((evaluate ctx scope e).runFrom 0).1 <;> rfl

theorem Action.execute_assign (ctx : Context K) (scope : Scope K) (name : String) (e : Expr K) :
    (Action.assign name e).execute ctx scope =
      ((evaluate ctx scope e).runFrom 0).1.map fun v ↦ (v, scope.insert name v) := by
  show (do let v ← ((evaluate ctx scope e).runFrom 0).1; .ok (v, scope.insert name v)) = _
  cases ((evaluate ctx scope e).runFrom 0).1 <;> rfl

theorem Statement.execute_eq_map (ctx : Context K) (scope : Scope K) (s : Statement K) :
    s.execute ctx scope = (s.action.execute ctx scope).map
      fun (v, after) ↦ (if s.silent then .undefined else v, after) := by
  rw [Statement.execute]
  cases s.action.execute ctx scope <;> rfl

/-- What a line does, by the rules; a silent line keeps its value to itself. -/
def Statement.Executes (ctx : Context K) (scope : Scope K) (b : Bounds) (s : Statement K)
    (r : Except EvalError (Value K × Scope K)) (u : Usage) : Prop :=
  ∃ r', s.action.Executes ctx scope b r' u ∧
    r = r'.map fun (v, after) ↦ (if s.silent then .undefined else v, after)

/-- How many nodes are visited when the line is executed. -/
def Statement.steps (ctx : Context K) (scope : Scope K) (s : Statement K) : Nat :=
  match s.action with
  | .empty => 0
  | .expression e => ((evaluate ctx scope e).runFrom 0).2
  | .assign _ e => ((evaluate ctx scope e).runFrom 0).2
  | .define _ _ _ => 0

theorem Bounds.allows_zero : b.Allows .zero :=
  ⟨fun n _ ↦ Nat.zero_le n, fun n _ ↦ Nat.zero_le n⟩

namespace Action.Executes

variable {a : Action K} {r r' : Except EvalError (Value K × Scope K)} {u v : Usage}

theorem unique (h : a.Executes ctx scope b r u) (h' : a.Executes ctx scope b r' v) :
    r = r' ∧ u = v := by
  cases h with
  | empty => cases h'; exact ⟨rfl, rfl⟩
  | define => cases h'; exact ⟨rfl, rfl⟩
  | expression h =>
    cases h' with
    | expression h' =>
      obtain ⟨rfl, rfl⟩ := h.unique h'
      exact ⟨rfl, rfl⟩
  | assign h =>
    cases h' with
    | assign h' =>
      obtain ⟨rfl, rfl⟩ := h.unique h'
      exact ⟨rfl, rfl⟩

theorem cutOrFree (h : a.Executes ctx scope b r u) :
    b.CutOrFree r u fun b' ↦ a.Executes ctx scope b' r u := by
  have hframes : ∀ n ∈ b.frames, ([] : List (Frame K)).length ≤ n := fun n _ ↦ Nat.zero_le n
  cases h with
  | empty => exact .free Bounds.allows_zero fun _ _ ↦ .empty
  | define => exact .free Bounds.allows_zero fun _ _ ↦ .define
  | expression h =>
    refine (h.cutOrFree Bounds.allows_zero hframes).imp ?_ fun _ _ ↦ .expression
    rintro error rfl
    rfl
  | assign h =>
    refine (h.cutOrFree Bounds.allows_zero hframes).imp ?_ fun _ _ ↦ .assign
    rintro error rfl
    rfl

end Action.Executes

namespace Statement

variable {s : Statement K} {r r' : Except EvalError (Value K × Scope K)} {u v : Usage}

theorem Executes.unique (h : s.Executes ctx scope b r u) (h' : s.Executes ctx scope b r' v) :
    r = r' ∧ u = v := by
  obtain ⟨o, ho, rfl⟩ := h
  obtain ⟨o', ho', rfl⟩ := h'
  obtain ⟨rfl, rfl⟩ := ho.unique ho'
  exact ⟨rfl, rfl⟩

theorem Executes.cutOrFree (h : s.Executes ctx scope b r u) :
    b.CutOrFree r u fun b' ↦ s.Executes ctx scope b' r u := by
  obtain ⟨o, ho, rfl⟩ := h
  refine ho.cutOrFree.imp ?_ fun b' _ h ↦ ⟨o, h, rfl⟩
  rintro error rfl
  rfl

/-- The execution of a line follows the rules, within the limits of the engine. -/
theorem exists_executes (ctx : Context K) (scope : Scope K) (s : Statement K) (budget depth : Nat) :
    ∃ u,
      s.Executes ctx scope (.exactly budget depth) (s.execute (ctx.limited budget depth) scope) u ∧
      s.steps (ctx.limited budget depth) scope = u.steps := by
  obtain ⟨a, silent⟩ := s
  cases a with
  | empty => exact ⟨.zero, ⟨_, .empty, rfl⟩, rfl⟩
  | define name params body => exact ⟨.zero, ⟨_, .define, rfl⟩, rfl⟩
  | expression e =>
    obtain ⟨u, hu, hsteps⟩ := follows_evaluate ctx scope budget depth e .zero
    refine ⟨u, ⟨_, .expression hu, ?_⟩, hsteps.symm⟩
    rw [execute_eq_map, Action.execute_expression]
    rfl
  | assign name e =>
    obtain ⟨u, hu, hsteps⟩ := follows_evaluate ctx scope budget depth e .zero
    refine ⟨u, ⟨_, .assign hu, ?_⟩, hsteps.symm⟩
    rw [execute_eq_map, Action.execute_assign]
    rfl

/-- **Limits are exact.** Whatever the line, and whatever functions it calls:

* its execution ends, after at most one step more than the budget, and never in more frames than the
  limit of depth allows;
* if it has an outcome by the rules without bounds, and what this takes is within the limits, then
  this is the outcome of the execution, with the same scope after it and the same number of steps;
* in every other case, an endless recursion among them, the execution fails with the error of one of
  the two limits, and the scope stays as it was;
* so an outcome that is no such error stays the same under higher limits. -/
theorem limits_exact (ctx : Context K) (scope : Scope K) (s : Statement K) (budget depth : Nat) :
    (∃ u,
      s.Executes ctx scope (.exactly budget depth) (s.execute (ctx.limited budget depth) scope) u ∧
      s.steps (ctx.limited budget depth) scope = u.steps ∧
      u.steps ≤ budget + 1 ∧ u.frames ≤ depth) ∧
    (∀ r u, s.Executes ctx scope .unlimited r u → u.steps ≤ budget → u.frames ≤ depth →
      s.execute (ctx.limited budget depth) scope = r ∧
        s.steps (ctx.limited budget depth) scope = u.steps) ∧
    ((∀ r u, s.Executes ctx scope .unlimited r u → ¬(u.steps ≤ budget ∧ u.frames ≤ depth)) →
      (s.execute (ctx.limited budget depth) scope = .error (.stepBudgetExceeded budget) ∨
        s.execute (ctx.limited budget depth) scope = .error (.callDepthExceeded depth)) ∧
      ∀ line : ReadLine K, line.statement = s →
        Notebook.execute (ctx.limited budget depth) scope line = (none, scope)) ∧
    (∀ budget' depth', budget ≤ budget' → depth ≤ depth' →
      s.execute (ctx.limited budget depth) scope ≠ .error (.stepBudgetExceeded budget) →
      s.execute (ctx.limited budget depth) scope ≠ .error (.callDepthExceeded depth) →
      s.execute (ctx.limited budget' depth') scope =
        s.execute (ctx.limited budget depth) scope) := by
  -- The derivation `hu` of what the execution comes to is compared with every other one.
  obtain ⟨u, hu, hsteps⟩ := exists_executes ctx scope s budget depth
  refine ⟨⟨u, hu, hsteps, ?_⟩, fun r v hv hbudget hdepth ↦ ?_, fun hnone ↦ ?_,
    fun budget' depth' hbudget hdepth hne hne' ↦ ?_⟩
  · have hreaches : (Bounds.exactly budget depth).Reaches u := by
      cases hu.cutOrFree with
      | cut _ _ hreaches => exact hreaches
      | free hallows => exact hallows.reaches
    exact ⟨hreaches.steps_le budget rfl, hreaches.frames_le depth rfl⟩
  · cases hv.cutOrFree with
    | cut _ hcuts => exact absurd hcuts (Bounds.not_cuts_unlimited _)
    | free _ hfree =>
      obtain ⟨hr, rfl⟩ := hu.unique (hfree _ (Bounds.allows_exactly.2 ⟨hbudget, hdepth⟩))
      exact ⟨hr, hsteps⟩
  · have herror : s.execute (ctx.limited budget depth) scope = .error (.stepBudgetExceeded budget) ∨
        s.execute (ctx.limited budget depth) scope = .error (.callDepthExceeded depth) := by
      cases hu.cutOrFree with
      | cut ho hcuts =>
        rw [ho]
        rcases Bounds.cuts_exactly.1 hcuts with rfl | rfl
        · exact .inl rfl
        · exact .inr rfl
      | free hallows hfree =>
        exact absurd (Bounds.allows_exactly.1 hallows)
          (hnone _ u (hfree _ (Bounds.allows_unlimited u)))
    refine ⟨herror, ?_⟩
    rintro line rfl
    rcases herror with herror | herror <;> rw [Notebook.execute, herror]
  · cases hu.cutOrFree with
    | cut ho hcuts =>
      rcases Bounds.cuts_exactly.1 hcuts with rfl | rfl
      · exact absurd ho hne
      · exact absurd ho hne'
    | free hallows hfree =>
      obtain ⟨hbudget', hdepth'⟩ := Bounds.allows_exactly.1 hallows
      obtain ⟨v, hv, -⟩ := exists_executes ctx scope s budget' depth'
      have hallows' : (Bounds.exactly budget' depth').Allows u :=
        Bounds.allows_exactly.2 ⟨hbudget'.trans hbudget, hdepth'.trans hdepth⟩
      exact (hv.unique (hfree _ hallows')).1

end Statement

end Reckoner
