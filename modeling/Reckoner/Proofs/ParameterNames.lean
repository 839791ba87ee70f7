import Reckoner.Proofs.Commutation
import Reckoner.Proofs.EvaluationLimits
import Reckoner.Proofs.LineOutcomes
import Reckoner.Proofs.Preservation

/-!
# Names of parameters do not matter

The parameters of a user function are names for the arguments of a call, and they mean nothing outside
of the body of the function. Renaming them, in the list of parameters and wherever they stand in the
body, changes no result of a document, as long as no new name is one that the body already uses for
something else (`UserFunction.Renamed`). The names may be those of variables, units, constants or
built-in functions.

Two documents that differ in such names are evaluated side by side. What has to agree at a name of a
body is what the name is bound to, in the innermost frame or in the scope; where it is bound to nothing,
it has to be the same name on both sides (`SeesAlike`). A call gives its body a frame of its own, so
this holds in every body whatever the caller sees (`seesAlike_of_renamed`), and the walk then goes the
same way on both sides, step by step and call by call (`evaluateWith_renamed`, `callUser_renamed`). The
values on both sides are the same, but for functions whose parameters differ in name; operators and
built-in functions see of a function only that it is one (`Engine.TreatsFunctionsAlike`), and such a
value is never a result.
-/

namespace Reckoner

open Outcome (Agree)

variable {K : Type}

/-! ### Renaming -/

namespace Expr

mutual

/-- The expression with all names replaced, in call position too. The units of a conversion are looked
up as units only, so they stay. -/
def rename (ρ : String → String) : Expr K → Expr K
  | number x => number x
  | symbol name => symbol (ρ name)
  | binary op left right => binary op (left.rename ρ) (right.rename ρ)
  | signed sign operand => signed sign (operand.rename ρ)
  | call callee args => call (callee.rename ρ) (renameAll ρ args)
  | convert value target => convert (value.rename ρ) target

/-- The expressions with all names replaced. -/
def renameAll (ρ : String → String) : List (Expr K) → List (Expr K)
  | [] => []
  | e :: es => e.rename ρ :: renameAll ρ es

end

mutual

/-- The names that occur in an expression, in call position too, but not the units of conversions. -/
def symbols : Expr K → List String
  | number _ => []
  | symbol name => [name]
  | binary _ left right => left.symbols ++ right.symbols
  | signed _ operand => operand.symbols
  | call callee args => callee.symbols ++ symbolsOf args
  | convert value _ => value.symbols

/-- The names that occur in some expressions. -/
def symbolsOf : List (Expr K) → List String
  | [] => []
  | e :: es => e.symbols ++ symbolsOf es

end

mutual

theorem rename_id : ∀ e : Expr K, e.rename id = e
  | number _ => by rw [rename]
  | symbol _ => by rw [rename, id]
  | binary _ left right => by rw [rename, rename_id left, rename_id right]
  | signed _ operand => by rw [rename, rename_id operand]
  | call callee args => by rw [rename, rename_id callee, renameAll_id args]
  | convert value _ => by rw [rename, rename_id value]

theorem renameAll_id : ∀ es : List (Expr K), renameAll id es = es
  | [] => by rw [renameAll]
  | e :: es => by rw [renameAll, rename_id e, renameAll_id es]

end

theorem symbol?_rename (ρ : String → String) (e : Expr K) :
    (e.rename ρ).symbol? = e.symbol?.map ρ := by
  cases e <;> rw [rename] <;> rfl

end Expr

/-- The new name at the place of an old one; any other name stays. -/
def newName (olds news : List String) (name : String) : String := news.getD (olds.idxOf name) name

/-- **A function with its parameters renamed.** Among the new names may be old ones, at other places,
but no other name of the body. -/
structure UserFunction.Renamed (f g : UserFunction K) : Prop where
  name_eq : g.name = f.name
  nodup : f.params.Nodup
  nodup' : g.params.Nodup
  length_eq : g.params.length = f.params.length
  fresh : ∀ name ∈ g.params, name ∈ f.body.symbols → name ∈ f.params
  body_eq : g.body = f.body.rename (newName f.params g.params)

/-- Two values are the same, or functions that differ in the names of their parameters. -/
inductive Value.Renamed : Value K → Value K → Prop
  | refl (v : Value K) : Renamed v v
  | function {f g : UserFunction K} : f.Renamed g →
      Renamed (.function (.user f)) (.function (.user g))

/-- Two lines do the same, or define functions that differ in the names of their parameters. -/
inductive Action.Renamed : Action K → Action K → Prop
  | refl (a : Action K) : Renamed a a
  | define {f g : UserFunction K} : f.Renamed g →
      Renamed (.define f.name f.params f.body) (.define g.name g.params g.body)

/-- Two statements are the same but for the names of parameters. -/
structure Statement.Renamed (s t : Statement K) : Prop where
  action : s.action.Renamed t.action
  silent_eq : t.silent = s.silent

/-- Two tables have the same keys, with values that are the same but for the names of parameters. -/
def Scope.Renamed (scope scope' : Scope K) : Prop :=
  ∀ name, Option.Rel Value.Renamed (scope.get? name) (scope'.get? name)

/-! ### What is not a function -/

/-- The value, with one and the same function in place of every function. -/
def Value.anonymous : Value K → Value K
  | function _ => function (.builtin "")
  | v => v

namespace Value

variable {v w : Value K}

theorem anonymous_number (x : K) : (number x).anonymous = number x := rfl

theorem anonymous_quantity (q : Quantity K) : (quantity q).anonymous = quantity q := rfl

theorem kind_anonymous (v : Value K) : v.anonymous.kind = v.kind := by
  cases v <;> rfl

theorem anonymous_of_kind_ne (h : v.kind ≠ .function) : v.anonymous = v := by
  cases v with
  | function f => exact absurd rfl h
  | _ => rfl

theorem Renamed.anonymous_eq (h : v.Renamed w) : v.anonymous = w.anonymous := by
  cases h <;> rfl

theorem map_anonymous_eq {vs ws : List (Value K)} (h : List.Forall₂ Value.Renamed vs ws) :
    vs.map anonymous = ws.map anonymous := by
  induction h with
  | nil => rfl
  | cons hv _ ih => rw [List.map_cons, List.map_cons, hv.anonymous_eq, ih]

/-- What can be shown is the same on both sides. -/
theorem shown_eq_of_rel {index : Nat} {x y : Option (Value K)} (h : Option.Rel Value.Renamed x y) :
    shown index x = shown index y := by
  cases h with
  | none => rfl
  | some h => cases h <;> rfl

end Value

/-- An engine whose operators and built-in functions cannot tell one function from another. -/
structure Engine.TreatsFunctionsAlike (engine : Engine K) : Prop where
  apply_anonymous : ∀ op a b,
    engine.rules.apply op a.anonymous b.anonymous = engine.rules.apply op a b
  call_anonymous : ∀ name args,
    engine.functions.call name (args.map Value.anonymous) = engine.functions.call name args

namespace Engine.TreatsFunctionsAlike

variable {engine : Engine K} {a a' b b' : Value K} {args args' : List (Value K)}

theorem apply_eq (h : engine.TreatsFunctionsAlike) (ha : a.Renamed a') (hb : b.Renamed b')
    (op : Operator) : engine.rules.apply op a b = engine.rules.apply op a' b' := by
  rw [← h.apply_anonymous, ha.anonymous_eq, hb.anonymous_eq, h.apply_anonymous]

theorem call_eq (h : engine.TreatsFunctionsAlike) (hargs : List.Forall₂ Value.Renamed args args')
    (name : String) : engine.functions.call name args = engine.functions.call name args' := by
  rw [← h.call_anonymous, Value.map_anonymous_eq hargs, h.call_anonymous]

end Engine.TreatsFunctionsAlike

/-! ### Frames -/

theorem rel_or {α β : Type} {R : α → β → Prop} {x x' : Option α} {y y' : Option β}
    (h : Option.Rel R x y) (h' : Option.Rel R x' y') : Option.Rel R (x.or x') (y.or y') := by
  cases h with
  | none => exact h'
  | some h => exact .some h

section Frames

variable {params : List String} {args args' : List (Value K)} {scope scope' : Scope K}
  {frames frames' : List (Frame K)}

/-- What a name is bound to on the one side, and what its new name is bound to on the other. -/
structure SeesAlike (scope scope' : Scope K) (frames frames' : List (Frame K)) (ρ : String → String)
    (name : String) : Prop where
  rel : Option.Rel Value.Renamed (binding? scope frames name) (binding? scope' frames' (ρ name))
  same : binding? scope frames name = none → ρ name = name

theorem binding?_cons (scope : Scope K) (frame : Frame K) (frames : List (Frame K)) (name : String) :
    binding? scope (frame :: frames) name = (frame.get? name).or (scope.get? name) :=
  rfl

theorem Scope.Renamed.insert (h : scope.Renamed scope') (name : String) {v w : Value K}
    (hv : v.Renamed w) : Scope.Renamed (scope.insert name v) (scope'.insert name w) := by
  intro name'
  rw [Table.get?_insert, Table.get?_insert]
  split
  · exact .some hv
  · exact h name'

theorem Scope.Renamed.foldl_insert (h : scope.Renamed scope')
    (hargs : List.Forall₂ Value.Renamed args args') (params : List String) :
    Scope.Renamed ((params.zip args).foldl (fun t (a, b) ↦ t.insert a b) scope)
      ((params.zip args').foldl (fun t (a, b) ↦ t.insert a b) scope') := by
  induction hargs generalizing params scope scope' with
  | nil =>
    rw [List.zip_nil_right]
    exact h
  | cons hv _ ih =>
    cases params with
    | nil => exact h
    | cons name params => exact ih (h.insert name hv) params

/-- The frames of two calls of one function bind its parameters to values that correspond to each
other. -/
theorem renamed_frame (hargs : List.Forall₂ Value.Renamed args args') (params : List String) :
    Scope.Renamed (.ofList (params.zip args)) (.ofList (params.zip args')) :=
  Scope.Renamed.foldl_insert (fun _ ↦ .none) hargs params

theorem get?_frame_of_notMem {name : String} (h : name ∉ params) (args : List (Value K)) :
    (Table.ofList (params.zip args)).get? name = none := by
  rw [Table.ofList, Table.get?_foldl_insert_of_notMem, Table.get?_empty]
  intro hmem
  obtain ⟨e, he, rfl⟩ := List.mem_map.1 hmem
  exact h (List.of_mem_zip he).1

theorem get?_frame_getElem (hnodup : params.Nodup) (hlength : args.length = params.length) {i : Nat}
    (hi : i < params.length) :
    (Table.ofList (params.zip args)).get? params[i] = some (args.get ⟨i, hlength ▸ hi⟩) := by
  refine Table.get?_ofList ?_ ?_
  · rwa [List.map_fst_zip hlength.ge]
  · have hzip : i < (params.zip args).length := by rwa [List.length_zip, hlength, Nat.min_self]
    have hpair : (params.zip args)[i] = (params[i], args.get ⟨i, hlength ▸ hi⟩) := List.getElem_zip
    exact hpair ▸ List.getElem_mem hzip

theorem newName_of_notMem {olds news : List String} (hlength : news.length = olds.length)
    {name : String} (h : name ∉ olds) : newName olds news name = name := by
  rw [newName, List.idxOf_eq_length h, List.getD_eq_default _ _ hlength.le]

/-- In the body of a function whose parameters are renamed, every name is seen alike, whatever the
callers see: a parameter and its new name are bound to arguments that correspond to each other, and any
other name is bound in neither of the two frames. -/
theorem seesAlike_of_renamed {f g : UserFunction K} (h : f.Renamed g) (hscope : scope.Renamed scope')
    (hargs : List.Forall₂ Value.Renamed args args') (hlength : args.length = f.params.length)
    {name : String} (hname : name ∈ f.body.symbols) :
    SeesAlike scope scope' (.ofList (f.params.zip args) :: frames)
      (.ofList (g.params.zip args') :: frames') (newName f.params g.params) name := by
  have hbinding := binding?_cons scope (.ofList (f.params.zip args)) frames name
  have hbinding' := binding?_cons scope' (.ofList (g.params.zip args')) frames'
    (newName f.params g.params name)
  by_cases hmem : name ∈ f.params
  · have hi := List.idxOf_lt_length_iff.2 hmem
    have hi' : f.params.idxOf name < g.params.length := by rwa [h.length_eq]
    have hlength' : args'.length = g.params.length := by
      rw [← hargs.length_eq, hlength, h.length_eq]
    have hget := get?_frame_getElem h.nodup hlength hi
    have hget' := get?_frame_getElem h.nodup' hlength' hi'
    rw [List.getElem_idxOf hi] at hget
    rw [hget, Option.some_or] at hbinding
    rw [newName, List.getD_eq_getElem _ _ hi', hget', Option.some_or] at hbinding'
    constructor
    · rw [hbinding, newName, List.getD_eq_getElem _ _ hi', hbinding']
      exact .some (hargs.get _ _)
    · rw [hbinding]
      exact nofun
  · have hsame := newName_of_notMem h.length_eq hmem
    have hfresh : name ∉ g.params := fun hnew ↦ hmem (h.fresh name hnew hname)
    rw [get?_frame_of_notMem hmem, Option.none_or] at hbinding
    rw [hsame, get?_frame_of_notMem hfresh, Option.none_or] at hbinding'
    refine ⟨?_, fun _ ↦ hsame⟩
    rw [hbinding, hsame, hbinding']
    exact hscope name

/-- So it is in the body of one function. -/
theorem seesAlike_of_frame (hscope : scope.Renamed scope')
    (hargs : List.Forall₂ Value.Renamed args args') (params : List String) (name : String) :
    SeesAlike scope scope' (.ofList (params.zip args) :: frames)
      (.ofList (params.zip args') :: frames') id name :=
  ⟨rel_or (renamed_frame hargs params name) (hscope name), fun _ ↦ rfl⟩

end Frames

/-! ### Two walks side by side -/

namespace Eval

variable {α β γ δ : Type} {R : α → β → Prop} {S : γ → δ → Prop}

/-- Two computations take the same number of steps and come to outcomes that agree. -/
def Agree (R : α → β → Prop) (x : Eval α) (y : Eval β) : Prop :=
  ∀ steps, Outcome.Agree False R (x.runFrom steps).1 (y.runFrom steps).1 ∧
    (x.runFrom steps).2 = (y.runFrom steps).2

theorem agree_ofExcept {o : Except EvalError α} {o' : Except EvalError β}
    (h : Outcome.Agree False R o o') : Agree R (ofExcept o) (ofExcept o') :=
  fun _ ↦ ⟨h, rfl⟩

theorem agree_pure {a : α} {b : β} (h : R a b) : Agree R (pure a) (pure b) :=
  fun _ ↦ ⟨.ok h, rfl⟩

theorem agree_throw {e f : EvalError} (h : e.SameCause f) : Agree R (throw e) (throw f) :=
  fun _ ↦ ⟨.error h, rfl⟩

theorem Agree.bind {x : Eval α} {y : Eval β} {f : α → Eval γ} {g : β → Eval δ} (h : Agree R x y)
    (hnext : ∀ a b, R a b → Agree S (f a) (g b)) : Agree S (x >>= f) (y >>= g) := by
  intro steps
  obtain ⟨houtcome, hsteps⟩ := h steps
  rw [runFrom_bind, runFrom_bind]
  generalize x.runFrom steps = p at houtcome hsteps
  generalize y.runFrom steps = q at houtcome hsteps
  obtain ⟨o, after⟩ := p
  obtain ⟨o', after'⟩ := q
  obtain rfl : after = after' := hsteps
  dsimp only at houtcome
  cases houtcome with
  | ok hab => exact hnext _ _ hab after
  | error he => exact ⟨.error he, rfl⟩
  | left h => exact h.elim
  | right h => exact h.elim

/-- Both sides visit a node, or neither can. -/
theorem Agree.visit {x : Eval α} {y : Eval β} (h : Agree R x y) (budget : Nat) :
    Agree R (do step budget; x) (do step budget; y) := by
  have hstep : Agree Eq (step budget) (step budget) := fun _ ↦ ⟨.refl (fun _ ↦ rfl) _, rfl⟩
  exact hstep.bind fun _ _ _ ↦ h

end Eval

section Walk

variable [Scalar K] {ctx : Context K} {scope scope' : Scope K} {frames frames' : List (Frame K)}
  {ρ : String → String} {call call' : List (Frame K) → UserFunction K → List (Value K) → Eval (Value K)}

theorem resolve_renamed {name : String} (h : SeesAlike scope scope' frames frames' ρ name) :
    Agree False Value.Renamed (ctx.resolve scope frames name)
      (ctx.resolve scope' frames' (ρ name)) := by
  obtain ⟨hrel, hsame⟩ := h
  rw [Context.resolve, Context.resolve]
  generalize binding? scope frames name = x at hrel hsame
  generalize binding? scope' frames' (ρ name) = y at hrel
  cases hrel with
  | some hv => exact .ok hv
  | none =>
    rw [hsame rfl]
    exact .refl .refl _

theorem resolveCallee_renamed {name : String} (h : SeesAlike scope scope' frames frames' ρ name) :
    Agree False Value.Renamed (ctx.resolveCallee scope frames name)
      (ctx.resolveCallee scope' frames' (ρ name)) := by
  have hresolve : Agree False Value.Renamed (ctx.resolve scope frames name)
      (ctx.resolve scope' frames' (ρ name)) := resolve_renamed h
  obtain ⟨hrel, hsame⟩ := h
  rw [Context.resolveCallee, Context.resolveCallee]
  generalize binding? scope frames name = x at hrel hsame
  generalize binding? scope' frames' (ρ name) = y at hrel
  cases hrel with
  | some hv => exact .ok hv
  | none =>
    dsimp only
    rw [hsame rfl] at hresolve ⊢
    split
    · exact .ok (.refl _)
    · exact hresolve

theorem applySign_anonymous (sign : Sign) (v : Value K) :
    applySign sign v.anonymous = applySign sign v := by
  cases v with
  | function f => cases sign <;> rfl
  | _ => rfl

theorem convert_anonymous (target : Units K) (v : Value K) :
    convert target v.anonymous = convert target v := by
  cases v <;> rfl

/-- Calls from some frames, side by side: of one function, or of a function and the one with its
parameters renamed. -/
def CallsAlike (call call' : List (Frame K) → UserFunction K → List (Value K) → Eval (Value K))
    (frames frames' : List (Frame K)) : Prop :=
  ∀ f g args args', (f = g ∨ f.Renamed g) → List.Forall₂ Value.Renamed args args' →
    Eval.Agree Value.Renamed (call frames f args) (call' frames' g args')

mutual

/-- **The walk goes the same way** over an expression and over the expression with its names replaced,
if calls do and all names are seen alike. -/
theorem evaluateWith_renamed (hengine : ctx.engine.TreatsFunctionsAlike)
    (hcall : CallsAlike call call' frames frames') :
    ∀ e : Expr K, (∀ name ∈ e.symbols, SeesAlike scope scope' frames frames' ρ name) →
      Eval.Agree Value.Renamed (evaluateWith ctx scope call frames e)
        (evaluateWith ctx scope' call' frames' (e.rename ρ))
  | .number x, _ => by
    rw [Expr.rename, evaluateWith, evaluateWith]
    exact (Eval.agree_pure (.refl _)).visit _
  | .symbol name, h => by
    rw [Expr.rename, evaluateWith, evaluateWith]
    exact (Eval.agree_ofExcept (resolve_renamed (h name (List.mem_singleton.2 rfl)))).visit _
  | .binary op left right, h => by
    rw [Expr.rename, evaluateWith, evaluateWith]
    have hleft := evaluateWith_renamed hengine hcall left fun name hname ↦
      h name (List.mem_append_left _ hname)
    have hright := evaluateWith_renamed hengine hcall right fun name hname ↦
      h name (List.mem_append_right _ hname)
    refine (hleft.bind fun a a' ha ↦ hright.bind fun b b' hb ↦ ?_).visit _
    rw [hengine.apply_eq ha hb]
    exact Eval.agree_ofExcept (.refl .refl _)
  | .signed sign operand, h => by
    rw [Expr.rename, evaluateWith, evaluateWith]
    refine ((evaluateWith_renamed hengine hcall operand h).bind fun v w hv ↦ ?_).visit _
    rw [← applySign_anonymous, hv.anonymous_eq, applySign_anonymous]
    exact Eval.agree_ofExcept (.refl .refl _)
  | .call callee args, h => by
    rw [Expr.rename, evaluateWith, evaluateWith, Expr.symbol?_rename]
    have hcallee := evaluateWith_renamed hengine hcall callee fun name hname ↦
      h name (List.mem_append_left _ hname)
    have hargs := evaluateAllWith_renamed hengine hcall args fun name hname ↦
      h name (List.mem_append_right _ hname)
    -- What follows the callee goes the same way, whether it was looked up or evaluated.
    have hrest : ∀ v w : Value K, v.Renamed w → Eval.Agree Value.Renamed
        (match v with
          | .function f => do
            let values ← evaluateAllWith ctx scope call frames args
            match f with
            | .builtin name => Eval.ofExcept (ctx.engine.functions.call name values)
            | .user function => call frames function values
          | _ => throw (.notCallable callee.callee))
        (match w with
          | .function f => do
            let values ← evaluateAllWith ctx scope' call' frames' (Expr.renameAll ρ args)
            match f with
            | .builtin name => Eval.ofExcept (ctx.engine.functions.call name values)
            | .user function => call' frames' function values
          | _ => throw (.notCallable (callee.rename ρ).callee)) := by
      intro v w hv
      cases hv with
      | refl =>
        cases v with
        | function f =>
          refine hargs.bind fun vs ws hvs ↦ ?_
          cases f with
          | builtin name =>
            dsimp only
            rw [hengine.call_eq hvs]
            exact Eval.agree_ofExcept (.refl .refl _)
          | user f => exact hcall f f vs ws (.inl rfl) hvs
        | _ => exact Eval.agree_throw rfl
      | function hf => exact hargs.bind fun vs ws hvs ↦ hcall _ _ vs ws (.inr hf) hvs
    refine Eval.Agree.visit ?_ _
    cases hsymbol : callee.symbol? with
    | none => exact hcallee.bind hrest
    | some name =>
      have hname : name ∈ callee.symbols := by
        rw [Expr.eq_symbol_of_symbol? hsymbol]
        exact List.mem_singleton.2 rfl
      have hname := h name (List.mem_append_left _ hname)
      exact (Eval.agree_ofExcept (resolveCallee_renamed hname)).bind hrest
  | .convert value target, h => by
    rw [Expr.rename, evaluateWith, evaluateWith]
    refine ((evaluateWith_renamed hengine hcall value h).bind fun v w hv ↦ ?_).visit _
    have htarget : Eval.Agree Eq (Eval.ofExcept (ctx.target target)) (.ofExcept (ctx.target target)) :=
      Eval.agree_ofExcept (.refl (fun _ ↦ rfl) _)
    refine htarget.bind ?_
    rintro units _ rfl
    rw [← convert_anonymous, hv.anonymous_eq, convert_anonymous]
    exact Eval.agree_ofExcept (.refl .refl _)

theorem evaluateAllWith_renamed (hengine : ctx.engine.TreatsFunctionsAlike)
    (hcall : CallsAlike call call' frames frames') :
    ∀ es : List (Expr K), (∀ name ∈ Expr.symbolsOf es, SeesAlike scope scope' frames frames' ρ name) →
      Eval.Agree (List.Forall₂ Value.Renamed) (evaluateAllWith ctx scope call frames es)
        (evaluateAllWith ctx scope' call' frames' (Expr.renameAll ρ es))
  | [], _ => by
    rw [Expr.renameAll, evaluateAllWith, evaluateAllWith]
    exact Eval.agree_pure .nil
  | e :: es, h => by
    rw [Expr.renameAll, evaluateAllWith, evaluateAllWith]
    have he := evaluateWith_renamed hengine hcall e fun name hname ↦
      h name (List.mem_append_left _ hname)
    have hes := evaluateAllWith_renamed hengine hcall es fun name hname ↦
      h name (List.mem_append_right _ hname)
    exact he.bind fun v w hv ↦ hes.bind fun vs ws hvs ↦ Eval.agree_pure (.cons hv hvs)

end

/-- **Calls go the same way**, from any frames: each body is evaluated in a frame of its own. -/
theorem callUser_renamed (hengine : ctx.engine.TreatsFunctionsAlike) (hscope : scope.Renamed scope')
    (left : Nat) : ∀ frames frames' : List (Frame K),
    CallsAlike (callUser ctx scope left) (callUser ctx scope' left) frames frames' := by
  induction left with
  | zero =>
    intro frames frames' f g args args' hfg hargs
    have hlength : g.params.length = f.params.length := by
      rcases hfg with rfl | h
      · rfl
      · exact h.length_eq
    rw [callUser, callUser, hlength, ← hargs.length_eq]
    split
    · exact Eval.agree_throw rfl
    · exact Eval.agree_throw rfl
  | succ left ih =>
    intro frames frames' f g args args' hfg hargs
    rcases hfg with rfl | h
    · rw [callUser, callUser, ← hargs.length_eq]
      split
      · exact Eval.agree_throw rfl
      · have hbody := evaluateWith_renamed (ρ := id) hengine
          (ih (.ofList (f.params.zip args) :: frames) (.ofList (f.params.zip args') :: frames'))
          f.body fun name _ ↦ seesAlike_of_frame hscope hargs f.params name
        rwa [Expr.rename_id] at hbody
    · rw [callUser, callUser, h.length_eq, ← hargs.length_eq]
      split
      · exact Eval.agree_throw rfl
      · rename_i hlength
        rw [h.body_eq]
        exact evaluateWith_renamed hengine (ih _ _) f.body fun name hname ↦
          seesAlike_of_renamed h hscope hargs (not_not.1 hlength) hname

theorem valueOf_renamed (hengine : ctx.engine.TreatsFunctionsAlike) (hscope : scope.Renamed scope')
    (e : Expr K) :
    Agree False Value.Renamed (valueOf ctx scope e) (valueOf ctx scope' e) := by
  have hwalk := evaluateWith_renamed (ρ := id) hengine
    (callUser_renamed hengine hscope ctx.engine.limits.maxCallDepth [] []) e
    fun name _ ↦ ⟨hscope name, fun _ ↦ rfl⟩
  rw [Expr.rename_id] at hwalk
  exact (hwalk 0).1

/-! ### Lines and passes -/

theorem Action.valueIn_renamed (hengine : ctx.engine.TreatsFunctionsAlike)
    (hscope : scope.Renamed scope') {a b : Action K} (h : a.Renamed b) :
    Agree False Value.Renamed (a.valueIn ctx scope) (b.valueIn ctx scope') := by
  cases h with
  | refl =>
    cases a with
    | empty => exact .ok (.refl _)
    | expression e =>
      rw [valueIn_expression, valueIn_expression]
      exact valueOf_renamed hengine hscope e
    | assign name e =>
      rw [valueIn_assign, valueIn_assign]
      exact valueOf_renamed hengine hscope e
    | define name params body => exact .ok (.refl _)
  | define hf => exact .ok (.function hf)

omit [Scalar K] in
theorem Action.Renamed.binds?_eq {a b : Action K} (h : a.Renamed b) : a.binds? = b.binds? := by
  cases h with
  | refl => rfl
  | define hf => rw [binds?, binds?, hf.name_eq]

omit [Scalar K] in
theorem Statement.Renamed.returned {s t : Statement K} (h : s.Renamed t) {v w : Value K}
    (hv : v.Renamed w) : (s.returned v).Renamed (t.returned w) := by
  rw [Statement.returned, Statement.returned, h.silent_eq]
  split
  · exact .refl _
  · exact hv

omit [Scalar K] in
theorem Statement.Renamed.scopeAfter {s t : Statement K} (h : s.Renamed t)
    (hscope : scope.Renamed scope') {v w : Value K} (hv : v.Renamed w) :
    Scope.Renamed (s.scopeAfter scope v) (t.scopeAfter scope' w) := by
  intro name
  rw [get?_scopeAfter, get?_scopeAfter, h.action.binds?_eq]
  split
  · exact .some (h.returned hv)
  · split
    · exact .some hv
    · exact hscope name

/-- Two lines read the same but for the names of parameters; both may be blank or without meaning. -/
def ReadAlike (K : Type) [Scalar K] (maxDepth : Nat) (text text' : String) : Prop :=
  Option.Rel Statement.Renamed (Statement.ofLine? (K := K) maxDepth text)
    (Statement.ofLine? maxDepth text')

theorem ReadAlike.refl (maxDepth : Nat) (text : String) : ReadAlike K maxDepth text text := by
  rw [ReadAlike]
  cases Statement.ofLine? (K := K) maxDepth text with
  | none => exact .none
  | some s => exact .some ⟨.refl _, rfl⟩

theorem Sheet.line_renamed (hengine : ctx.engine.TreatsFunctionsAlike)
    (hscope : scope.Renamed scope') {text text' : String}
    (h : ReadAlike K ctx.engine.limits.maxExpressionDepth text text') :
    Option.Rel Value.Renamed (line ctx scope text).1 (line ctx scope' text').1 ∧
      Scope.Renamed (line ctx scope text).2 (line ctx scope' text').2 := by
  rw [ReadAlike] at h
  cases hs : Statement.ofLine? (K := K) ctx.engine.limits.maxExpressionDepth text with
  | none =>
    rw [hs] at h
    cases ht : Statement.ofLine? (K := K) ctx.engine.limits.maxExpressionDepth text' with
    | none =>
      rw [line_of_ofLine?_eq_none hs, line_of_ofLine?_eq_none ht]
      exact ⟨.none, hscope⟩
    | some t =>
      rw [ht] at h
      exact nomatch h
  | some s =>
    rw [hs] at h
    cases ht : Statement.ofLine? (K := K) ctx.engine.limits.maxExpressionDepth text' with
    | none =>
      rw [ht] at h
      exact nomatch h
    | some t =>
      rw [ht, Option.rel_some_some] at h
      have hvalue := Action.valueIn_renamed hengine hscope h.action
      rw [line_of_ofLine?_eq_some hs, line_of_ofLine?_eq_some ht]
      generalize s.action.valueIn ctx scope = x at hvalue
      generalize t.action.valueIn ctx scope' = y at hvalue
      cases hvalue with
      | ok hv => exact ⟨.some (h.returned hv), h.scopeAfter hscope hv⟩
      | error he => exact ⟨.none, hscope⟩
      | left h => exact h.elim
      | right h => exact h.elim

end Walk

open Notebook (Sound) in
/-- **A pass goes the same way** over two documents that read the same but for the names of parameters.
-/
theorem Notebook.evaluateFrom_renamed [Scalar K] {engine : Engine K}
    (hengine : engine.TreatsFunctionsAlike) (registry : Nat → Registry K) {lines lines' : List String}
    (h : List.Forall₂ (ReadAlike K engine.limits.maxExpressionDepth) lines lines') (index : Nat)
    {reader reader' : LineReader K} (hreader : Sound engine.limits reader)
    (hreader' : Sound engine.limits reader') {scope scope' : Scope K}
    (hscope : scope.Renamed scope') :
    (evaluateFrom engine registry index reader scope lines).results =
        (evaluateFrom engine registry index reader' scope' lines').results ∧
      Scope.Renamed (evaluateFrom engine registry index reader scope lines).scope
        (evaluateFrom engine registry index reader' scope' lines').scope := by
  induction h generalizing index reader reader' scope scope' with
  | nil => exact ⟨rfl, hscope⟩
  | @cons text text' rest rest' htext _ ih =>
    have hctx : (Context.mk engine (registry index)).engine.TreatsFunctionsAlike := hengine
    obtain ⟨hvalue, hafter⟩ := Sheet.line_renamed hctx hscope htext
    rw [← hreader.evaluateLine_eq, ← hreader'.evaluateLine_eq] at hvalue hafter
    rw [evaluateFrom_cons, evaluateFrom_cons]
    dsimp only at hvalue hafter ⊢
    obtain ⟨hresults, hscopes⟩ := ih (index + 1) (hreader.evaluateLine (registry index) scope text)
      (hreader'.evaluateLine (registry index) scope' text') hafter
    rw [Value.shown_eq_of_rel hvalue, hresults]
    exact ⟨rfl, hscopes⟩

/-! ### The standard engine -/

theorem Rules.apply_standard_anonymous (op : Operator) (a b : Value Float) :
    standard.apply op a.anonymous b.anonymous = standard.apply op a b := by
  by_cases hkey : (op, a.kind, b.kind) ∈ standardKeys
  · -- No rule is for functions.
    have hkinds : ∀ key ∈ standardKeys, key.2.1 ≠ .function ∧ key.2.2 ≠ .function := by decide
    obtain ⟨ha, hb⟩ := hkinds _ hkey
    rw [Value.anonymous_of_kind_ne ha, Value.anonymous_of_kind_ne hb]
  · have hkey' : (op, a.anonymous.kind, b.anonymous.kind) ∉ standardKeys := by
      rwa [Value.kind_anonymous, Value.kind_anonymous]
    rw [apply_of_notMem hkey, apply_of_notMem hkey', noRule, noRule, Value.kind_anonymous,
      Value.kind_anonymous]

namespace Functions

/-- A built-in function that cannot tell one function from another. -/
def TreatsFunctionsAlike (f : BuiltinFunction K) : Prop :=
  ∀ args, f (args.map Value.anonymous) = f args

theorem expectNumber_anonymous (name : String) (v : Value K) :
    expectNumber name v.anonymous = expectNumber name v := by
  cases v <;> rfl

theorem expectOne_anonymous (name : String) (args : List (Value K)) :
    expectOne name (args.map Value.anonymous) = Value.anonymous <$> expectOne name args := by
  rcases args with _ | ⟨v, _ | ⟨w, rest⟩⟩
  · rfl
  · rfl
  · show Except.error (EvalError.arity name _ ((v :: w :: rest).map Value.anonymous).length) = _
    rw [List.length_map]
    rfl

/-- A function of one argument need only be looked at for that argument. -/
theorem treatsFunctionsAlike_of_one (name : String) {f : Value K → Except EvalError (Value K)}
    (hf : ∀ v, f v.anonymous = f v) :
    TreatsFunctionsAlike fun args ↦ expectOne name args >>= f := by
  intro args
  dsimp only
  rw [expectOne_anonymous]
  cases expectOne name args with
  | ok v => exact hf v
  | error e => rfl

variable [Scalar K]

theorem numeric_anonymous (name : String) (f : K → K) : TreatsFunctionsAlike (numeric name f) := by
  refine treatsFunctionsAlike_of_one name fun v ↦ ?_
  rw [expectNumber_anonymous]

theorem ofAngle_anonymous (name : String) (f : K → K) : TreatsFunctionsAlike (ofAngle name f) := by
  refine treatsFunctionsAlike_of_one name fun v ↦ ?_
  cases v <;> rfl

theorem mapMagnitude_anonymous (name : String) (f : K → K) (v : Value K) :
    mapMagnitude name f v.anonymous = mapMagnitude name f v := by
  cases v <;> rfl

theorem ofMagnitude_anonymous (name : String) (f : K → K) :
    TreatsFunctionsAlike (ofMagnitude name f) :=
  treatsFunctionsAlike_of_one name (mapMagnitude_anonymous name f)

omit [Scalar K] in
theorem foldQuantities_anonymous (name : String) (f : K → K → K) (first : Quantity K) (acc : K)
    (args : List (Value K)) :
    foldQuantities name f first acc (args.map Value.anonymous) =
      foldQuantities name f first acc args := by
  induction args generalizing acc with
  | nil => rfl
  | cons v rest ih =>
    cases v with
    | quantity q =>
      rw [List.map_cons, Value.anonymous_quantity, foldQuantities, foldQuantities]
      simp only [ih]
    | _ => rfl

theorem aggregate_anonymous (name : String) (f : K → K → K) :
    TreatsFunctionsAlike (aggregate name f) := by
  intro args
  cases args with
  | nil => rfl
  | cons v rest =>
    cases v with
    | number x =>
      rw [List.map_cons, Value.anonymous_number, aggregate, aggregate, List.foldlM_map]
      simp only [expectNumber_anonymous]
    | quantity q =>
      rw [List.map_cons, Value.anonymous_quantity, aggregate, aggregate, foldQuantities_anonymous]
    | _ => rfl

theorem mean_anonymous : TreatsFunctionsAlike (K := K) mean := by
  intro args
  rw [mean, mean, aggregate_anonymous, List.length_map]

theorem logarithm_anonymous : TreatsFunctionsAlike logarithm := by
  intro args
  match args with
  | [] => rfl
  | [v] => simp only [List.map_cons, List.map_nil, logarithm, expectNumber_anonymous]
  | [v, b] => simp only [List.map_cons, List.map_nil, logarithm, expectNumber_anonymous]
  | u :: v :: w :: rest => simp only [List.map_cons, logarithm, List.length_cons, List.length_map]

theorem power_anonymous : TreatsFunctionsAlike power := by
  intro args
  match args with
  | [] => rfl
  | [v] => rfl
  | [b, e] => simp only [List.map_cons, List.map_nil, power, expectNumber_anonymous]
  | u :: v :: w :: rest => simp only [List.map_cons, power, List.length_cons, List.length_map]

theorem round_anonymous : TreatsFunctionsAlike round := by
  intro args
  match args with
  | [] => rfl
  | [v] => simp only [List.map_cons, List.map_nil, round, roundTo, mapMagnitude_anonymous]
  | [v, d] =>
    simp only [List.map_cons, List.map_nil, round, roundTo, roundDigits, mapMagnitude_anonymous,
      expectNumber_anonymous]
  | u :: v :: w :: rest => simp only [List.map_cons, round, List.length_cons, List.length_map]

theorem standard_anonymous : standard.All TreatsFunctionsAlike := by
  refine Table.all_ofList fun e he ↦ ?_
  simp only [List.mem_cons, List.not_mem_nil, or_false] at he
  rcases he with rfl | rfl | rfl | rfl | rfl | rfl | rfl | rfl | rfl | rfl | rfl | rfl | rfl | rfl |
    rfl | rfl | rfl | rfl | rfl | rfl | rfl
  iterate 8 exact numeric_anonymous _ _
  iterate 3 exact ofAngle_anonymous _ _
  iterate 3 exact ofMagnitude_anonymous _ _
  · exact round_anonymous
  · exact logarithm_anonymous
  · exact power_anonymous
  iterate 3 exact aggregate_anonymous _ _
  · exact mean_anonymous

end Functions

/-- No operator and no built-in function of the standard engine looks into a function. -/
theorem Engine.standard_treatsFunctionsAlike (limits : Limits) :
    (standard limits).TreatsFunctionsAlike where
  apply_anonymous op a b := by
    rw [standard_eq, rules_standardOver]
    exact Rules.apply_standard_anonymous op a b
  call_anonymous name args := by
    rw [Functions.call, Functions.call]
    split
    · rename_i f hget
      exact Functions.standard_anonymous.of_get? hget args
    · rfl

/-- **The names of parameters do not matter.** Two documents read alike, line by line, but for functions
whose parameters are renamed: to pairwise distinct names, each of which stands nowhere in the body of
the function, unless it is one of the parameters that are renamed themselves. Then the documents have
the same results, whatever passes came before, whatever the names coincide with, and whatever calls
whatever, even if currencies arrive between the lines. What is left behind differs in the names of these
parameters only. -/
theorem Notebook.parameter_names_irrelevant (limits : Limits) (passes passes' : List (Pass Float))
    (registry : Nat → Registry Float) (now : Date) {lines lines' : List String}
    (h : List.Forall₂ (ReadAlike Float limits.maxExpressionDepth) lines lines') :
    let after := afterPass (.standard limits) (afterPasses (.standard limits) passes)
      ⟨registry, now, lines⟩
    let after' := afterPass (.standard limits) (afterPasses (.standard limits) passes')
      ⟨registry, now, lines'⟩
    after.results = after'.results ∧ after.scope.Renamed after'.scope := by
  have hstart : Scope.Renamed (Scope.atInstant now : Scope Float) (Scope.atInstant now) := by
    intro name
    cases (Scope.atInstant now : Scope Float).get? name with
    | none => exact .none
    | some v => exact .some (.refl v)
  exact evaluateFrom_renamed (Engine.standard_treatsFunctionsAlike limits) registry h 0
    (sound_afterPasses _ passes) (sound_afterPasses _ passes') hstart

set_option maxRecDepth 10000 in
/-- The parameter may be called `m`, like the unit in the call, or `f`, like the function itself. -/
theorem Notebook.parameter_names_irrelevant_square :
    List.Forall₂ (ReadAlike Float 3) ["f(m)=m*m", "f(m)"] ["f(f)=f*f", "f(m)"] ∧
      (afterPass (.standard ⟨1024, 3, 100000, 64⟩) (.new ⟨1024, 3, 100000, 64⟩)
          ⟨fun _ ↦ .uninitialized, ⟨0, by decide⟩, ["f(m)=m*m", "f(m)"]⟩).results =
        (afterPass (.standard ⟨1024, 3, 100000, 64⟩) (.new ⟨1024, 3, 100000, 64⟩)
          ⟨fun _ ↦ .uninitialized, ⟨0, by decide⟩, ["f(f)=f*f", "f(m)"]⟩).results := by
  have hrenamed : UserFunction.Renamed (K := Float)
      ⟨"f", ["m"], .binary .multiply (.symbol "m") (.symbol "m")⟩
      ⟨"f", ["f"], .binary .multiply (.symbol "f") (.symbol "f")⟩ :=
    ⟨rfl, by decide, by decide, rfl, by decide, rfl⟩
  have hm : Statement.ofText (K := Float) 3 "f(m)=m*m" =
      .ok ⟨.define "f" ["m"] (.binary .multiply (.symbol "m") (.symbol "m")), false⟩ := by cbv
  have hf : Statement.ofText (K := Float) 3 "f(f)=f*f" =
      .ok ⟨.define "f" ["f"] (.binary .multiply (.symbol "f") (.symbol "f")), false⟩ := by cbv
  have hread : List.Forall₂ (ReadAlike Float 3) ["f(m)=m*m", "f(m)"]
      ["f(f)=f*f", "f(m)"] := by
    refine .cons ?_ (.cons (.refl _ _) .nil)
    rw [ReadAlike, Statement.ofLine?_of_ofText (by decide +kernel) (by decide) hm,
      Statement.ofLine?_of_ofText (by decide +kernel) (by decide) hf]
    exact .some ⟨.define hrenamed, rfl⟩
  exact ⟨hread, (parameter_names_irrelevant ⟨1024, 3, 100000, 64⟩ [] [] (fun _ ↦ .uninitialized)
    ⟨0, by decide⟩ hread).1⟩

end Reckoner
