import Reckoner.Proofs.LineMemory
import Reckoner.Proofs.RegistryRuns

/-!
# What evaluation sees of the currencies

Evaluation asks a registry for the currencies of symbols and for nothing else. Two registries that
give the same answers cannot be told apart by any line, and so by no pass either
(`Notebook.evaluateFrom_congr`).

The answers of one registry change only when its stage does. Every event of loading leaves stage and
answers as they are, or takes the registry to a later stage (`Registry.after_cases`), and so do any
number of events. A stage that has been left is never come back to; hence the stage at two moments
tells whether anything happened between them that a look-up could show.
-/

namespace Reckoner

variable {K : Type} [Scalar K]

/-! ### Events of loading -/

/-- The call by which an event takes effect. -/
def CurrencyEvent.call : CurrencyEvent K → Registry.Call K
  | .begin => .begin
  | .complete data => .register data
  | .fail reason => .fail reason

/-- How far loading has come. -/
def LoadingStatus.rank : LoadingStatus → Nat
  | uninitialized => 0
  | loading => 1
  | ready => 2
  | failed => 2

namespace Registry

theorem after_eq_perform (registry : Registry K) (event : CurrencyEvent K) :
    registry.after event = (registry.perform event.call).2 := by
  cases event <;> rfl

/-- The registry after some events. -/
def afterAll (registry : Registry K) (events : List (CurrencyEvent K)) : Registry K :=
  events.foldl after registry

/-- Between the two registries, in this order, nothing has happened that a look-up could show. -/
structure Unmoved (r s : Registry K) : Prop where
  status : s.status = r.status
  lookup : s.lookup = r.lookup

omit [Scalar K] in
theorem Unmoved.refl (r : Registry K) : Unmoved r r :=
  ⟨rfl, rfl⟩

omit [Scalar K] in
theorem Unmoved.trans {r s t : Registry K} (h : Unmoved r s) (h' : Unmoved s t) : Unmoved r t :=
  ⟨h'.status.trans h.status, h'.lookup.trans h.lookup⟩

omit [Scalar K] in
theorem lookup_of_status_ne_ready {r : Registry K} (h : r.status ≠ .ready) :
    r.lookup = fun _ ↦ none := by
  funext symbol
  rw [lookup, if_neg h]

/-- **An event changes nothing that can be looked up, or it takes loading further.** -/
theorem after_cases (registry : Registry K) (event : CurrencyEvent K) :
    Unmoved registry (registry.after event) ∨
      registry.status.rank < (registry.after event).status.rank := by
  rw [after_eq_perform]
  rcases perform_cases registry event.call with
    ⟨answer, heq, -, -⟩ | ⟨-, hstatus, heq⟩ | ⟨data, -, hfinal, heq⟩ | ⟨reason, -, hready, heq⟩ <;>
    rw [heq]
  · exact .inl (Unmoved.refl registry)
  · right
    rw [hstatus]
    exact Nat.zero_lt_one
  · right
    revert hfinal
    cases hstatus : registry.status <;>
      simp [isFinal, hstatus, LoadingStatus.isFinal, LoadingStatus.rank]
  · by_cases hfailed : registry.status = .failed
    · -- A second failure changes the reason, which no look-up shows.
      left
      refine ⟨hfailed.symm, ?_⟩
      rw [lookup_of_status_ne_ready hready]
      exact lookup_of_status_ne_ready (by simp)
    · right
      revert hready hfailed
      cases hstatus : registry.status <;> simp [LoadingStatus.rank]

theorem afterAll_cases (registry : Registry K) (events : List (CurrencyEvent K)) :
    Unmoved registry (registry.afterAll events) ∨
      registry.status.rank < (registry.afterAll events).status.rank := by
  induction events generalizing registry with
  | nil => exact .inl (Unmoved.refl registry)
  | cons event events ih =>
    show Unmoved registry ((registry.after event).afterAll events) ∨
      registry.status.rank < ((registry.after event).afterAll events).status.rank
    rcases after_cases registry event, ih (registry.after event) with ⟨hone | hone, hmore | hmore⟩
    · exact .inl (hone.trans hmore)
    · exact .inr (hone.status ▸ hmore)
    · exact .inr (hmore.status ▸ hone)
    · exact .inr (hone.trans hmore)

/-- The stage alone tells whether something has happened. -/
theorem unmoved_of_status_eq {registry : Registry K} {events : List (CurrencyEvent K)}
    (h : (registry.afterAll events).status = registry.status) :
    Unmoved registry (registry.afterAll events) := by
  rcases afterAll_cases registry events with hsame | hlt
  · exact hsame
  · rw [h] at hlt
    exact absurd hlt (Nat.lt_irrefl _)

/-- **A stage that has been left is never come back to.** -/
theorem unmoved_of_status_append_eq {registry : Registry K} {events more : List (CurrencyEvent K)}
    (h : (registry.afterAll (events ++ more)).status = registry.status) :
    Unmoved registry (registry.afterAll events) := by
  rcases afterAll_cases registry events with hsame | hlt
  · exact hsame
  · rw [afterAll, List.foldl_append] at h
    change ((registry.afterAll events).afterAll more).status = registry.status at h
    rw [← h] at hlt
    rcases afterAll_cases (registry.afterAll events) more with hmore | hmore
    · rw [hmore.status] at hlt
      exact absurd hlt (Nat.lt_irrefl _)
    · exact absurd (hlt.trans hmore) (Nat.lt_irrefl _)

end Registry

/-! ### Lines and passes -/

section Congruence

variable {engine : Engine K} {r r' : Registry K} {scope : Scope K} {frames : List (Frame K)}

namespace Context

theorem unit?_congr (h : r.lookup = r'.lookup) (name : String) :
    (⟨engine, r⟩ : Context K).unit? name = (⟨engine, r'⟩ : Context K).unit? name := by
  rw [unit?, unit?, h]

theorem resolve_congr (h : r.lookup = r'.lookup) (name : String) :
    (⟨engine, r⟩ : Context K).resolve scope frames name =
      (⟨engine, r'⟩ : Context K).resolve scope frames name := by
  rw [resolve, resolve, unit?_congr h]
  rfl

theorem resolveCallee_congr (h : r.lookup = r'.lookup) (name : String) :
    (⟨engine, r⟩ : Context K).resolveCallee scope frames name =
      (⟨engine, r'⟩ : Context K).resolveCallee scope frames name := by
  rw [resolveCallee, resolveCallee, resolve_congr h]
  rfl

theorem target_congr (h : r.lookup = r'.lookup) (terms : List UnitPower) :
    (⟨engine, r⟩ : Context K).target terms = (⟨engine, r'⟩ : Context K).target terms := by
  have hunit : (⟨engine, r⟩ : Context K).unit? = (⟨engine, r'⟩ : Context K).unit? :=
    funext (unit?_congr h)
  rw [target, target, hunit]

end Context

mutual

theorem evaluateWith_congr (h : r.lookup = r'.lookup)
    (call : List (Frame K) → UserFunction K → List (Value K) → Eval (Value K)) : ∀ e : Expr K,
    evaluateWith ⟨engine, r⟩ scope call frames e = evaluateWith ⟨engine, r'⟩ scope call frames e
  | .number x => by rw [evaluateWith, evaluateWith]
  | .symbol name => by rw [evaluateWith, evaluateWith, Context.resolve_congr h]
  | .binary op left right => by
    rw [evaluateWith, evaluateWith, evaluateWith_congr h call left, evaluateWith_congr h call right]
  | .signed sign operand => by
    rw [evaluateWith, evaluateWith, evaluateWith_congr h call operand]
  | .call callee args => by
    rw [evaluateWith, evaluateWith, evaluateWith_congr h call callee,
      evaluateAllWith_congr h call args]
    simp only [Context.resolveCallee_congr h]
  | .convert value target => by
    rw [evaluateWith, evaluateWith, evaluateWith_congr h call value, Context.target_congr h]

theorem evaluateAllWith_congr (h : r.lookup = r'.lookup)
    (call : List (Frame K) → UserFunction K → List (Value K) → Eval (Value K)) :
    ∀ es : List (Expr K),
    evaluateAllWith ⟨engine, r⟩ scope call frames es =
      evaluateAllWith ⟨engine, r'⟩ scope call frames es
  | [] => by rw [evaluateAllWith, evaluateAllWith]
  | e :: es => by
    rw [evaluateAllWith, evaluateAllWith, evaluateWith_congr h call e,
      evaluateAllWith_congr h call es]

end

theorem callUser_congr (h : r.lookup = r'.lookup) (left : Nat) :
    callUser ⟨engine, r⟩ scope left = callUser ⟨engine, r'⟩ scope left := by
  induction left with
  | zero =>
    funext frames f args
    rw [callUser, callUser]
  | succ left ih =>
    funext frames f args
    rw [callUser, callUser, ih, evaluateWith_congr h]

theorem evaluate_congr (h : r.lookup = r'.lookup) (e : Expr K) :
    evaluate ⟨engine, r⟩ scope e = evaluate ⟨engine, r'⟩ scope e := by
  rw [evaluate, evaluate, callUser_congr h, evaluateWith_congr h]

/-- A line gives the same value and the same scope with all registries that give the same answers. -/
theorem Statement.execute_congr (h : r.lookup = r'.lookup) (s : Statement K) :
    s.execute ⟨engine, r⟩ scope = s.execute ⟨engine, r'⟩ scope := by
  have hvalue : ∀ e : Expr K, valueOf ⟨engine, r⟩ scope e = valueOf ⟨engine, r'⟩ scope e := by
    intro e
    rw [valueOf, valueOf, evaluate_congr h]
  have haction : s.action.execute ⟨engine, r⟩ scope = s.action.execute ⟨engine, r'⟩ scope := by
    cases s.action with
    | empty => rfl
    | expression e => rw [Action.execute, Action.execute, hvalue]
    | assign name e => rw [Action.execute, Action.execute, hvalue]
    | define name params body => rfl
  rw [execute, execute, haction]

theorem Notebook.evaluateLine_congr (h : r.lookup = r'.lookup) (reader : LineReader K)
    (text : String) :
    evaluateLine ⟨engine, r⟩ reader scope text = evaluateLine ⟨engine, r'⟩ reader scope text := by
  have hexecute : ∀ line : ReadLine K,
      execute ⟨engine, r⟩ scope line = execute ⟨engine, r'⟩ scope line := by
    intro line
    rw [execute, execute, Statement.execute_congr h]
  unfold evaluateLine
  simp only [hexecute]

end Congruence

/-- **A pass sees of the currencies only what it can look up**, at every line. -/
theorem Notebook.evaluateFrom_congr {engine : Engine K} {registry registry' : Nat → Registry K}
    (h : ∀ i, (registry i).lookup = (registry' i).lookup) (index : Nat) (reader : LineReader K)
    (scope : Scope K) (lines : List String) :
    evaluateFrom engine registry index reader scope lines =
      evaluateFrom engine registry' index reader scope lines := by
  induction lines generalizing index reader scope with
  | nil => rw [evaluateFrom, evaluateFrom]
  | cons text rest ih =>
    rw [evaluateFrom_cons, evaluateFrom_cons, evaluateLine_congr (h index)]
    dsimp only
    rw [ih]

end Reckoner
