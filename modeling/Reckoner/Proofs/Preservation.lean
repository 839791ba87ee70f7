import Reckoner.Proofs.EvaluationLimits
import Reckoner.Proofs.LineMemory

/-!
# What evaluation keeps

A property of values holds of every value that evaluation can produce, if it holds of literals, of
the values of units and functions, and if rules, signs, conversions and built-in functions keep it.
`Context.Keeps` says just this, and nothing about the walk: the walk itself hands values on and binds
them to names, in frames and in the scope. So a property that is kept holds of the values of a line
and of all values in the scope after it, and from line to line of all values of a document.

The induction is on derivations, which know neither steps nor frames that are left; limits only ever
end a derivation with an error, and of errors there is nothing to show.
-/

namespace Reckoner

/-! ### Values in tables -/

namespace Table

variable {α β : Type}

/-- All values of a table have a property. -/
def All (P : β → Prop) (t : Table α β) : Prop := ∀ e ∈ t.entries, P e.2

variable {P : β → Prop}

theorem all_empty : (empty : Table α β).All P :=
  nofun

variable [DecidableEq α]

theorem mem_of_lookup {a : α} {b : β} {entries : List (α × β)} (h : lookup a entries = some b) :
    (a, b) ∈ entries := by
  induction entries with
  | nil => contradiction
  | cons e rest ih =>
    obtain ⟨a', b'⟩ := e
    rw [lookup] at h
    by_cases heq : a' = a
    · rw [if_pos heq, Option.some.injEq] at h
      obtain rfl := heq
      obtain rfl := h
      exact List.mem_cons_self
    · rw [if_neg heq] at h
      exact List.mem_cons_of_mem _ (ih h)

theorem All.of_get? {t : Table α β} (h : t.All P) {a : α} {b : β} (hget : t.get? a = some b) :
    P b :=
  h _ (mem_of_lookup hget)

theorem mem_insertEntry {a : α} {b : β} {entries : List (α × β)} {e : α × β}
    (h : e ∈ insertEntry a b entries) : e = (a, b) ∨ e ∈ entries := by
  induction entries with
  | nil => exact .inl (List.mem_singleton.1 h)
  | cons e' rest ih =>
    obtain ⟨a', b'⟩ := e'
    rw [insertEntry] at h
    split at h
    · rcases List.mem_cons.1 h with h | h
      · exact .inl h
      · exact .inr (List.mem_cons_of_mem _ h)
    · rcases List.mem_cons.1 h with rfl | h
      · exact .inr List.mem_cons_self
      · exact (ih h).imp_right (List.mem_cons_of_mem _)

theorem All.insert {t : Table α β} (h : t.All P) (a : α) {b : β} (hb : P b) :
    (t.insert a b).All P := by
  intro e he
  rcases mem_insertEntry he with rfl | he
  · exact hb
  · exact h e he

theorem all_ofList {pairs : List (α × β)} (h : ∀ e ∈ pairs, P e.2) : (ofList pairs).All P := by
  have hall : (empty : Table α β).All P := all_empty
  unfold ofList
  generalize empty = t at hall ⊢
  induction pairs generalizing t with
  | nil => exact hall
  | cons e pairs ih =>
    have hrest : ∀ e ∈ pairs, P e.2 := fun e he ↦ h e (List.mem_cons_of_mem _ he)
    exact ih hrest _ (hall.insert e.1 (h e List.mem_cons_self))

end Table

/-! ### Rules and functions -/

section Operations

variable {K : Type} {P : Value K → Prop}

/-- A rule keeps a property of values. -/
def Handler.Keeps (P : Value K → Prop) (f : Handler K) : Prop :=
  ∀ op a b v, P a → P b → f op a b = .ok v → P v

/-- A built-in function keeps a property of values. -/
def BuiltinFunction.Keeps (P : Value K → Prop) (f : BuiltinFunction K) : Prop :=
  ∀ args v, (∀ a ∈ args, P a) → f args = .ok v → P v

theorem Rules.apply_keeps {rules : Rules K} (h : rules.table.All (Handler.Keeps P)) {op : Operator}
    {a b v : Value K} (ha : P a) (hb : P b) (happly : rules.apply op a b = .ok v) : P v := by
  rw [Rules.apply] at happly
  split at happly
  · rename_i handler hget
    exact h.of_get? hget op a b v ha hb happly
  · contradiction

theorem Functions.call_keeps {functions : Functions K}
    (h : functions.All (BuiltinFunction.Keeps P)) {name : String} {args : List (Value K)}
    {v : Value K} (hargs : ∀ a ∈ args, P a) (hcall : functions.call name args = .ok v) : P v := by
  rw [Functions.call] at hcall
  split at hcall
  · rename_i f hget
    exact h.of_get? hget args v hargs hcall
  · contradiction

/-- What holds of the rules of a table and of those to add holds of all of them afterwards. -/
theorem Rules.all_addAll {Q : Handler K → Prop} {rules : Rules K} (h : rules.table.All Q)
    {more : List (RuleKey × Handler K)} (hmore : ∀ e ∈ more, Q e.2) :
    (rules.addAll more).1.table.All Q := by
  induction more generalizing rules with
  | nil => exact h
  | cons e more ih =>
    obtain ⟨⟨op, left, right⟩, handler⟩ := e
    rw [Rules.addAll, Rules.add]
    by_cases hconflict : rules.has op left right = true
    · rw [if_pos hconflict]
      exact h
    · rw [if_neg hconflict]
      exact ih (h.insert _ (hmore _ List.mem_cons_self)) fun e he ↦
        hmore e (List.mem_cons_of_mem _ he)

end Operations

/-! ### The walk -/

variable {K : Type} [Scalar K]

/-- What evaluation in a context makes of values keeps a property of them. -/
structure Context.Keeps (ctx : Context K) (P : Value K → Prop) : Prop where
  number : ∀ x, P (.ofNumber x)
  function : ∀ f, P (.function f)
  unit : ∀ name u, ctx.unit? name = some u → P (.quantity (.ofValue 1 (.single u)))
  rules : ctx.engine.rules.table.All (Handler.Keeps P)
  sign : ∀ sign a v, P a → applySign sign a = .ok v → P v
  convert : ∀ terms units a v, ctx.target terms = .ok units → P a →
    Reckoner.convert units a = .ok v → P v
  functions : ctx.engine.functions.All (BuiltinFunction.Keeps P)

section Walk

variable {ctx : Context K} {P : Value K → Prop} {scope : Scope K} {bounds : Bounds}
  {frames : List (Frame K)}

omit [Scalar K] in
theorem of_binding? (hscope : scope.All P) (hframes : ∀ frame ∈ frames, frame.All P) {name : String}
    {v : Value K} (h : binding? scope frames name = some v) : P v := by
  rw [binding?] at h
  rcases Option.or_eq_some_iff.1 h with h | ⟨-, h⟩
  · obtain ⟨frame, hframe, h⟩ := Option.bind_eq_some_iff.1 h
    exact (hframes frame (List.mem_of_mem_head? hframe)).of_get? h
  · exact hscope.of_get? h

theorem Context.Keeps.of_resolve (hkeeps : ctx.Keeps P) (hscope : scope.All P)
    (hframes : ∀ frame ∈ frames, frame.All P) {name : String} {v : Value K}
    (h : ctx.resolve scope frames name = .ok v) : P v := by
  rw [Context.resolve] at h
  split at h
  · rename_i hbound
    obtain rfl := Except.ok.inj h
    exact of_binding? hscope hframes hbound
  split at h
  · obtain rfl := Except.ok.inj h
    exact hkeeps.number _
  split at h
  · rename_i hunit
    obtain rfl := Except.ok.inj h
    exact hkeeps.unit _ _ hunit
  split at h
  · rename_i hbuiltin
    obtain rfl := Except.ok.inj h
    rw [Context.builtin?] at hbuiltin
    split at hbuiltin
    · obtain rfl := Option.some.inj hbuiltin
      exact hkeeps.function _
    · contradiction
  · contradiction

omit [Scalar K] in
/-- The parameters of a call are bound to its arguments. -/
theorem all_frame {params : List String} {args : List (Value K)} (hargs : ∀ a ∈ args, P a) :
    (Table.ofList (params.zip args)).All P :=
  Table.all_ofList fun _ he ↦ hargs _ (List.of_mem_zip he).2

mutual

theorem Evaluates.keeps (hkeeps : ctx.Keeps P) (hscope : scope.All P) {frames e u o w} :
    Evaluates ctx scope bounds frames e u o w → (∀ frame ∈ frames, frame.All P) →
      ∀ v, o = .ok v → P v
  | .outOfSteps _ _, _, _, h => nomatch h
  | .visit _ hnode, hframes, v, h => hnode.keeps hkeeps hscope hframes v h
termination_by structural h => h

theorem EvaluatesNode.keeps (hkeeps : ctx.Keeps P) (hscope : scope.All P) {frames e u o w} :
    EvaluatesNode ctx scope bounds frames e u o w → (∀ frame ∈ frames, frame.All P) →
      ∀ v, o = .ok v → P v
  | .number x, _, v, h => by
    obtain rfl := Except.ok.inj h
    exact hkeeps.number x
  | .symbol name, hframes, v, h => hkeeps.of_resolve hscope hframes h
  | .binary_error _, _, _, h => nomatch h
  | .binary hleft hright, hframes, v, h => by
    obtain ⟨b, hb, h⟩ := Outcome.bind_eq_ok.1 h
    have ha := hleft.keeps hkeeps hscope hframes _ rfl
    exact Rules.apply_keeps hkeeps.rules ha (hright.keeps hkeeps hscope hframes b hb) h
  | .signed hoperand, hframes, v, h => by
    obtain ⟨a, ha, h⟩ := Outcome.bind_eq_ok.1 h
    exact hkeeps.sign _ a v (hoperand.keeps hkeeps hscope hframes a ha) h
  | .convert hvalue, hframes, v, h => by
    obtain ⟨a, ha, h⟩ := Outcome.bind_eq_ok.1 h
    obtain ⟨units, hunits, h⟩ := Outcome.bind_eq_ok.1 h
    exact hkeeps.convert _ units a v hunits (hvalue.keeps hkeeps hscope hframes a ha) h
  | .callee_error _, _, _, h => nomatch h
  | .notCallable _ _, _, _, h => nomatch h
  | .arguments_error _ _, _, _, h => nomatch h
  | .call _ hargs hcall, hframes, v, h =>
    hcall.keeps hkeeps hscope hframes (hargs.keeps hkeeps hscope hframes _ rfl) v h
termination_by structural h => h

theorem EvaluatesAll.keeps (hkeeps : ctx.Keeps P) (hscope : scope.All P) {frames es u o w} :
    EvaluatesAll ctx scope bounds frames es u o w → (∀ frame ∈ frames, frame.All P) →
      ∀ vs, o = .ok vs → ∀ v ∈ vs, P v
  | .nil, _, vs, h => by
    obtain rfl := Except.ok.inj h
    intro v hv
    exact absurd hv List.not_mem_nil
  | .head_error _, _, _, h => nomatch h
  | .cons he hes, hframes, vs, h => by
    obtain ⟨rest, hrest, rfl⟩ := Outcome.map_eq_ok.1 h
    have hhead := he.keeps hkeeps hscope hframes _ rfl
    have htail := hes.keeps hkeeps hscope hframes rest hrest
    intro v hv
    rcases List.mem_cons.1 hv with rfl | hv
    · exact hhead
    · exact htail v hv
termination_by structural h => h

theorem Calls.keeps (hkeeps : ctx.Keeps P) (hscope : scope.All P) {frames f args u o w} :
    Calls ctx scope bounds frames f args u o w → (∀ frame ∈ frames, frame.All P) →
      (∀ a ∈ args, P a) → ∀ v, o = .ok v → P v
  | .builtin name, _, hargs, v, h => Functions.call_keeps hkeeps.functions hargs h
  | .arity _, _, _, _, h => nomatch h
  | .tooDeep _ _ _, _, _, _, h => nomatch h
  | .body _ _ hbody, hframes, hargs, v, h => by
    refine hbody.keeps hkeeps hscope (fun frame hframe ↦ ?_) v h
    rcases List.mem_cons.1 hframe with rfl | hframe
    · exact all_frame hargs
    · exact hframes frame hframe
termination_by structural h => h

end

end Walk

/-! ### Lines and documents -/

variable {ctx : Context K} {P : Value K → Prop} {scope : Scope K}

theorem Action.Executes.keeps {bounds : Bounds} {a : Action K}
    {o : Except EvalError (Value K × Scope K)} {u : Usage} (hkeeps : ctx.Keeps P)
    (hundefined : P .undefined) (hscope : scope.All P) (h : a.Executes ctx scope bounds o u)
    {v : Value K} {after : Scope K} (ho : o = .ok (v, after)) : P v ∧ after.All P := by
  have hvalue : ∀ {e : Expr K} {o u}, Evaluates ctx scope bounds [] e .zero o u →
      ∀ v, o = .ok v → P v :=
    fun he ↦ he.keeps hkeeps hscope fun _ hframe ↦ absurd hframe List.not_mem_nil
  cases h with
  | empty =>
    obtain ⟨rfl, rfl⟩ := Prod.mk.inj (Except.ok.inj ho)
    exact ⟨hundefined, hscope⟩
  | expression he =>
    obtain ⟨w, hw, hpair⟩ := Outcome.map_eq_ok.1 ho
    obtain ⟨rfl, rfl⟩ := Prod.mk.inj hpair
    exact ⟨hvalue he w hw, hscope⟩
  | assign he =>
    obtain ⟨w, hw, hpair⟩ := Outcome.map_eq_ok.1 ho
    obtain ⟨rfl, rfl⟩ := Prod.mk.inj hpair
    exact ⟨hvalue he w hw, hscope.insert _ (hvalue he w hw)⟩
  | define =>
    obtain ⟨rfl, rfl⟩ := Prod.mk.inj (Except.ok.inj ho)
    exact ⟨hkeeps.function _, hscope.insert _ (hkeeps.function _)⟩

/-- **What evaluation keeps, a line keeps**: if it holds of all values in the scope, then it holds of
the value of the line and of all values in the scope after it. -/
theorem Statement.execute_keeps (hkeeps : ctx.Keeps P) (hundefined : P .undefined)
    (hscope : scope.All P) {s : Statement K} {v : Value K} {after : Scope K}
    (h : s.execute ctx scope = .ok (v, after)) : P v ∧ after.All P := by
  obtain ⟨u, ⟨o, hexecutes, ho⟩, -⟩ := Statement.exists_executes ctx scope s
    ctx.engine.limits.stepBudget ctx.engine.limits.maxCallDepth
  have hlimits :
      ctx.limited ctx.engine.limits.stepBudget ctx.engine.limits.maxCallDepth = ctx := rfl
  rw [hlimits, h] at ho
  obtain ⟨⟨w, scope'⟩, hw, hpair⟩ := Outcome.map_eq_ok.1 ho.symm
  obtain ⟨rfl, rfl⟩ := Prod.mk.inj hpair
  obtain ⟨hvalue, hafter⟩ := hexecutes.keeps hkeeps hundefined hscope hw
  refine ⟨?_, hafter⟩
  split
  · exact hundefined
  · exact hvalue

namespace Notebook

theorem evaluateLine_keeps (hkeeps : ctx.Keeps P) (hundefined : P .undefined)
    (hscope : scope.All P) (reader : LineReader K) (text : String) :
    (∀ v ∈ (evaluateLine ctx reader scope text).1, P v) ∧
      (evaluateLine ctx reader scope text).2.2.All P := by
  have hnone : ∀ v ∈ (none : Option (Value K)), P v := fun v hv ↦ absurd hv (Option.not_mem_none v)
  unfold evaluateLine
  dsimp only
  split
  · exact ⟨hnone, hscope⟩
  · split
    · exact ⟨hnone, hscope⟩
    · rename_i line _ _
      dsimp only
      rw [execute]
      split
      · rename_i v after hexecute
        obtain ⟨hvalue, hafter⟩ := Statement.execute_keeps hkeeps hundefined hscope hexecute
        refine ⟨fun w hw ↦ ?_, hafter.insert _ hvalue⟩
        obtain rfl := Option.some.inj hw
        exact hvalue
      · exact ⟨hnone, hscope⟩

/-- **What evaluation keeps holds of all values of a document**: it holds of all results of any lines
and of all values in the scope after them, if it holds of those in the scope before them. The
currencies may be other ones at every line. -/
theorem evaluateFrom_keeps {engine : Engine K} {registry : Nat → Registry K}
    (hkeeps : ∀ index, Context.Keeps ⟨engine, registry index⟩ P) (hundefined : P .undefined)
    (hscope : scope.All P) (index : Nat) (reader : LineReader K) (lines : List String) :
    (∀ e ∈ (evaluateFrom engine registry index reader scope lines).results, P e.2) ∧
      (evaluateFrom engine registry index reader scope lines).scope.All P := by
  induction lines generalizing index reader scope with
  | nil => exact ⟨fun _ he ↦ absurd he List.not_mem_nil, hscope⟩
  | cons text rest ih =>
    obtain ⟨hvalue, hline⟩ := evaluateLine_keeps (hkeeps index) hundefined hscope reader text
    rw [evaluateFrom_cons]
    dsimp only
    obtain ⟨hresults, hafter⟩ := ih hline (index + 1) (evaluateLine _ reader scope text).2.1
    refine ⟨fun e he ↦ ?_, hafter⟩
    rcases List.mem_append.1 he with he | he
    · obtain ⟨v, hv, rfl⟩ := Option.map_eq_some_iff.1 (Option.mem_toList.1 he)
      exact hvalue v (Option.filter_eq_some_iff.1 hv).1
    · exact hresults e he

end Notebook

end Reckoner
