import Mathlib.Data.List.Basic
import Reckoner.Proofs.LineMemory

/-!
# What a pass leaves behind is justified by its lines

A line that a pass reaches either leaves no trace, or it *succeeds*: it is not blank, has a meaning, and
computes a value in the scope that it finds. This value is bound to a name, if the line is an assignment
or a definition, and after that the line returns it, unless a semicolon at its end silences the line.
What is returned becomes the previous result, under the name `last`, and is what can be shown.

So a name stands for the value that the last line to bind it has *computed*, silent or not, with the
exception of `last`, which stands for the value that the last line to succeed has *returned*, even if
lines assign to `last` themselves. `Justified` collects these laws for any set of lines that have
succeeded, and a pass keeps them line by line: a line that leaves no trace adds nothing to either side
(`line_of_ofLine?_eq_none`, `line_of_error`), and one that succeeds is the last one so far
(`Justified.succeed`).
-/

namespace Reckoner

variable {K : Type}

/-! ### What a line computes, binds and returns -/

namespace Action

/-- The name that a line binds. -/
def binds? : Action K → Option String
  | assign name _ => some name
  | define name _ _ => some name
  | _ => none

/-- The scope after a line has bound the value that it has computed. -/
def bound (a : Action K) (scope : Scope K) (v : Value K) : Scope K :=
  match a.binds? with
  | some name => scope.insert name v
  | none => scope

theorem get?_bound (a : Action K) (scope : Scope K) (v : Value K) (name : String) :
    (a.bound scope v).get? name = if a.binds? = some name then some v else scope.get? name := by
  rw [bound]
  split
  · rename_i name' hbinds
    rw [hbinds, Table.get?_insert]
    simp only [Option.some.injEq, eq_comm]
  · rename_i hbinds
    rw [hbinds, if_neg nofun]

variable [Scalar K]

/-- The value that a line computes in the scope that it finds, before a semicolon can silence it. -/
def valueIn (ctx : Context K) (scope : Scope K) (a : Action K) : Except EvalError (Value K) :=
  (a.execute ctx scope).map Prod.fst

theorem valueIn_expression (ctx : Context K) (scope : Scope K) (e : Expr K) :
    (expression e).valueIn ctx scope = valueOf ctx scope e := by
  rw [valueIn, execute]
  cases valueOf ctx scope e <;> rfl

theorem valueIn_assign (ctx : Context K) (scope : Scope K) (name : String) (e : Expr K) :
    (assign name e).valueIn ctx scope = valueOf ctx scope e := by
  rw [valueIn, execute]
  cases valueOf ctx scope e <;> rfl

/-- A line changes the scope by binding its value, and in no other way. -/
theorem execute_eq_map (ctx : Context K) (scope : Scope K) (a : Action K) :
    a.execute ctx scope = (a.valueIn ctx scope).map fun v ↦ (v, a.bound scope v) := by
  cases a with
  | empty => rfl
  | expression e =>
    rw [valueIn_expression, execute]
    cases valueOf ctx scope e <;> rfl
  | assign name e =>
    rw [valueIn_assign, execute]
    cases valueOf ctx scope e <;> rfl
  | define name params body => rfl

end Action

namespace Statement

/-- What a line returns of the value that it has computed. -/
def returned (s : Statement K) (v : Value K) : Value K := if s.silent then .undefined else v

/-- The scope after a line has succeeded: its value is bound, and what it returns is the previous
result. -/
def scopeAfter (s : Statement K) (scope : Scope K) (v : Value K) : Scope K :=
  (s.action.bound scope v).setLast (s.returned v)

theorem get?_scopeAfter (s : Statement K) (scope : Scope K) (v : Value K) (name : String) :
    (s.scopeAfter scope v).get? name =
      if name = Scope.lastName then some (s.returned v)
      else if s.action.binds? = some name then some v
      else scope.get? name := by
  rw [scopeAfter, Scope.setLast, Table.get?_insert, Action.get?_bound]

variable [Scalar K]

/-- The statement of a line, if the line is not blank and has a meaning. -/
def ofLine? (maxDepth : Nat) (text : String) : Option (Statement K) :=
  if (Text.trim text).isEmpty then none
  else (Statement.ofText maxDepth (Text.trim text)).toOption

theorem ofLine?_of_ofText {maxDepth : Nat} {text : String} {s : Statement K}
    (htrim : Text.trim text = text) (hempty : text.isEmpty = false)
    (h : Statement.ofText maxDepth text = .ok s) : ofLine? maxDepth text = some s := by
  rw [ofLine?, htrim, hempty, h]
  rfl

end Statement

/-- A line succeeds with a value: it has a statement, which computes the value in the scope that the
line finds. -/
structure Sheet.Succeeds [Scalar K] (ctx : Context K) (scope : Scope K) (text : String)
    (s : Statement K) (v : Value K) : Prop where
  statement : Statement.ofLine? ctx.engine.limits.maxExpressionDepth text = some s
  value : s.action.valueIn ctx scope = .ok v

namespace Sheet

variable [Scalar K] {ctx : Context K} {scope : Scope K} {text : String} {s : Statement K}

theorem line_of_ofLine?_eq_none
    (h : Statement.ofLine? (K := K) ctx.engine.limits.maxExpressionDepth text = none) :
    line ctx scope text = (none, scope) := by
  rw [Statement.ofLine?] at h
  unfold line
  dsimp only
  split
  · rfl
  · rename_i hblank
    rw [if_neg hblank] at h
    split
    · rfl
    · rename_i hs
      rw [hs] at h
      exact absurd h (Option.some_ne_none _)

/-- A line with a statement does what executing the statement does. -/
theorem line_of_ofLine?_eq_some
    (h : Statement.ofLine? ctx.engine.limits.maxExpressionDepth text = some s) :
    line ctx scope text =
      match s.action.valueIn ctx scope with
      | .error _ => (none, scope)
      | .ok v => (some (s.returned v), s.scopeAfter scope v) := by
  rw [Statement.ofLine?] at h
  unfold line
  dsimp only
  split
  · rename_i hblank
    rw [if_pos hblank] at h
    exact absurd h.symm (Option.some_ne_none s)
  · rename_i hblank
    rw [if_neg hblank] at h
    cases hs : Statement.ofText (K := K) ctx.engine.limits.maxExpressionDepth (Text.trim text) with
    | error e =>
      rw [hs] at h
      exact absurd h.symm (Option.some_ne_none s)
    | ok statement =>
      rw [hs] at h
      obtain rfl : statement = s := Option.some.inj h
      dsimp only
      rw [Statement.execute, Action.execute_eq_map]
      cases statement.action.valueIn ctx scope <;> rfl

theorem line_of_error {e : EvalError}
    (h : Statement.ofLine? ctx.engine.limits.maxExpressionDepth text = some s)
    (he : s.action.valueIn ctx scope = .error e) : line ctx scope text = (none, scope) := by
  rw [line_of_ofLine?_eq_some h, he]

theorem Succeeds.line_eq {v : Value K} (h : Succeeds ctx scope text s v) :
    line ctx scope text = (some (s.returned v), s.scopeAfter scope v) := by
  rw [line_of_ofLine?_eq_some h.statement, h.value]

/-- **What a line can do**: it leaves no trace, or it succeeds. -/
theorem line_cases (ctx : Context K) (scope : Scope K) (text : String) :
    ((∀ s v, ¬Succeeds ctx scope text s v) ∧ line ctx scope text = (none, scope)) ∨
      ∃ s v, Succeeds ctx scope text s v := by
  cases hs : Statement.ofLine? (K := K) ctx.engine.limits.maxExpressionDepth text with
  | none =>
    refine .inl ⟨fun s v h ↦ ?_, line_of_ofLine?_eq_none hs⟩
    rw [h.statement] at hs
    exact absurd hs (Option.some_ne_none s)
  | some s =>
    cases hv : s.action.valueIn ctx scope with
    | error e =>
      refine .inl ⟨fun t v h ↦ ?_, line_of_error hs hv⟩
      obtain rfl : s = t := Option.some.inj (hs.symm.trans h.statement)
      rw [h.value] at hv
      exact nomatch hv
    | ok v => exact .inr ⟨s, v, hs, hv⟩

/-- A line succeeds in one way only. -/
theorem Succeeds.unique {t : Statement K} {v w : Value K} (h : Succeeds ctx scope text s v)
    (h' : Succeeds ctx scope text t w) : s = t ∧ v = w := by
  obtain rfl : s = t := Option.some.inj (h.statement.symm.trans h'.statement)
  exact ⟨rfl, Except.ok.inj (h.value.symm.trans h'.value)⟩

end Sheet

/-! ### The laws of what is left behind -/

/-- **The laws of what a pass leaves behind**, given which lines have succeeded: `S i s v` says that the
line with index `i` has the statement `s` and has computed the value `v`. -/
structure Sheet.Justified (now : Date) (S : Nat → Statement K → Value K → Prop) (sheet : Sheet K) :
    Prop where
  /-- The names that are bound: the two of the instant, those that lines have bound, and the one of the
  previous result as soon as there is one. Parameters are not among them. -/
  bound : ∀ name, sheet.scope.contains name = true ↔
    name = Scope.todayName ∨ name = Scope.nowName ∨
      (∃ i s v, S i s v ∧ s.action.binds? = some name) ∨ (name = Scope.lastName ∧ ∃ i s v, S i s v)
  /-- The previous result is what the last line to succeed has returned. -/
  last : ∀ i s v, S i s v → (∀ j t w, S j t w → j ≤ i) → sheet.scope.last? = some (s.returned v)
  /-- Any other name stands for what the last line to bind it has computed. -/
  value : ∀ name, name ≠ Scope.lastName → ∀ i s v, S i s v → s.action.binds? = some name →
    (∀ j t w, S j t w → t.action.binds? = some name → j ≤ i) → sheet.scope.get? name = some v
  /-- A name that no line has bound stands for what it stood for at the start. -/
  unbound : ∀ name, name ≠ Scope.lastName → (∀ i s v, S i s v → s.action.binds? ≠ some name) →
    sheet.scope.get? name = (Scope.atInstant now).get? name
  /-- There is a result for a line exactly if the line has returned a value that is neither a function
  nor undefined, and it is this value. -/
  results : ∀ i v, (i, v) ∈ sheet.results ↔
    (∃ s w, S i s w ∧ s.returned w = v) ∧ (∀ f, v ≠ .function f) ∧ v ≠ .undefined
  /-- No line has two results. -/
  ascending : sheet.results.Pairwise (·.1 < ·.1)

theorem Value.isDisplayable_iff {v : Value K} :
    v.isDisplayable = true ↔ (∀ f, v ≠ .function f) ∧ v ≠ .undefined := by
  cases v <;> simp [isDisplayable]

theorem mem_shown {index i : Nat} {v w : Value K} :
    (i, v) ∈ (shown index (some w)).toList ↔ i = index ∧ v = w ∧ w.isDisplayable = true := by
  rw [shown, Option.filter_some]
  cases w.isDisplayable <;> simp

namespace Scope

theorem get?_atInstant (now : Date) (name : String) :
    (atInstant now : Scope K).get? name =
      if name = nowName then some (.date now)
      else if name = todayName then some (.date now.midnight)
      else none := by
  have htable : (atInstant now : Scope K) =
      (Table.empty.insert todayName (.date now.midnight)).insert nowName (.date now) := rfl
  rw [htable, Table.get?_insert, Table.get?_insert, Table.get?_empty]

end Scope

namespace Sheet

variable {now : Date} {S T : Nat → Statement K → Value K → Prop} {sheet : Sheet K} {n : Nat}

/-- Before the first line, nothing has succeeded. -/
theorem justified_start (now : Date) :
    Justified now (fun _ _ _ ↦ False) (⟨[], Scope.atInstant now⟩ : Sheet K) where
  bound name := by
    rw [Table.contains, Scope.get?_atInstant]
    split
    · simp_all
    · split <;> simp_all
  last _ _ _ h := h.elim
  value _ _ _ _ _ h := h.elim
  unbound _ _ _ := rfl
  results i v := by simp
  ascending := .nil

theorem Justified.congr (h : sheet.Justified now S) (hST : ∀ i s v, S i s v ↔ T i s v) :
    sheet.Justified now T := by
  obtain rfl : S = T := by
    funext i s v
    exact propext (hST i s v)
  exact h

/-- **A line that succeeds after all others** keeps the laws. -/
theorem Justified.succeed (h : sheet.Justified now S) (hn : ∀ i s v, S i s v → i < n)
    (s : Statement K) (v : Value K) :
    Justified now (fun i t w ↦ S i t w ∨ i = n ∧ t = s ∧ w = v)
      ⟨sheet.results ++ (shown n (some (s.returned v))).toList, s.scopeAfter sheet.scope v⟩ := by
  constructor
  case bound =>
    intro name
    have hbound := h.bound name
    rw [Table.contains] at hbound
    rw [Table.contains, Statement.get?_scopeAfter]
    by_cases hlast : name = Scope.lastName
    · rw [if_pos hlast]
      exact iff_of_true rfl (.inr (.inr (.inr ⟨hlast, n, s, v, .inr ⟨rfl, rfl, rfl⟩⟩)))
    · rw [if_neg hlast]
      by_cases hbinds : s.action.binds? = some name
      · rw [if_pos hbinds]
        exact iff_of_true rfl (.inr (.inr (.inl ⟨n, s, v, .inr ⟨rfl, rfl, rfl⟩, hbinds⟩)))
      · rw [if_neg hbinds, hbound]
        refine or_congr_right (or_congr_right (or_congr ⟨?_, ?_⟩ ?_))
        · rintro ⟨i, t, w, ht, hname⟩
          exact ⟨i, t, w, .inl ht, hname⟩
        · rintro ⟨i, t, w, ht | ⟨-, rfl, -⟩, hname⟩
          · exact ⟨i, t, w, ht, hname⟩
          · exact absurd hname hbinds
        · exact iff_of_false (fun hand ↦ hlast hand.1) fun hand ↦ hlast hand.1
  case last =>
    intro i t w ht hmax
    -- The line that has just succeeded is the last one.
    have hle := hmax n s v (.inr ⟨rfl, rfl, rfl⟩)
    rcases ht with ht | ⟨-, rfl, rfl⟩
    · exact absurd (hn i t w ht) (Nat.not_lt.2 hle)
    · rw [Scope.last?, Statement.get?_scopeAfter, if_pos rfl]
  case value =>
    intro name hlast i t w ht hname hmax
    rw [Statement.get?_scopeAfter, if_neg hlast]
    rcases ht with ht | ⟨-, rfl, rfl⟩
    · rw [if_neg]
      · exact h.value name hlast i t w ht hname fun j t' w' ht' ↦ hmax j t' w' (.inl ht')
      · intro hbinds
        exact absurd (hn i t w ht) (Nat.not_lt.2 (hmax n s v (.inr ⟨rfl, rfl, rfl⟩) hbinds))
    · rw [if_pos hname]
  case unbound =>
    intro name hlast hnone
    rw [Statement.get?_scopeAfter, if_neg hlast, if_neg (hnone n s v (.inr ⟨rfl, rfl, rfl⟩))]
    exact h.unbound name hlast fun i t w ht ↦ hnone i t w (.inl ht)
  case results =>
    intro i w
    rw [List.mem_append, h.results, mem_shown, Value.isDisplayable_iff]
    constructor
    · rintro (⟨⟨t, w', ht, hreturned⟩, hdisplayable⟩ | ⟨rfl, rfl, hdisplayable⟩)
      · exact ⟨⟨t, w', .inl ht, hreturned⟩, hdisplayable⟩
      · exact ⟨⟨s, v, .inr ⟨rfl, rfl, rfl⟩, rfl⟩, hdisplayable⟩
    · rintro ⟨⟨t, w', ht | ⟨rfl, rfl, rfl⟩, hreturned⟩, hdisplayable⟩
      · exact .inl ⟨⟨t, w', ht, hreturned⟩, hdisplayable⟩
      · obtain rfl := hreturned
        exact .inr ⟨rfl, rfl, hdisplayable⟩
  case ascending =>
    refine List.pairwise_append.2 ⟨h.ascending, ?_, ?_⟩
    · rw [shown]
      cases (some (s.returned v)).filter Value.isDisplayable <;> simp
    · rintro ⟨i, w⟩ hi ⟨j, w'⟩ hj
      obtain ⟨⟨t, w'', ht, -⟩, -⟩ := (h.results i w).1 hi
      obtain ⟨rfl, -⟩ := mem_shown.1 hj
      exact hn i t w'' ht

end Sheet

/-! ### Passes -/

namespace Notebook

variable [Scalar K] {engine : Engine K} {notebook : Notebook K} {pass : Pass K}

/-- A pass over two parts of a document, one after the other. -/
theorem evaluateFrom_append (engine : Engine K) (registry : Nat → Registry K) (index : Nat)
    (reader : LineReader K) (scope : Scope K) (above below : List String) :
    evaluateFrom engine registry index reader scope (above ++ below) =
      let first := evaluateFrom engine registry index reader scope above
      let rest :=
        evaluateFrom engine registry (index + above.length) first.reader first.scope below
      ⟨rest.reader, first.results ++ rest.results, rest.scope⟩ := by
  induction above generalizing index reader scope with
  | nil => rfl
  | cons text above ih =>
    rw [List.cons_append, evaluateFrom_cons, evaluateFrom_cons]
    dsimp only
    rw [ih, List.length_cons, List.append_assoc, Nat.add_assoc, Nat.add_comm 1]

/-- A line that stands below all others: it finds the scope that they leave, and its result comes
last. -/
theorem sheet_afterPass_concat (h : Sound engine.limits notebook.reader)
    (registry : Nat → Registry K) (now : Date) (lines : List String) (text : String) :
    (afterPass engine notebook ⟨registry, now, lines ++ [text]⟩).sheet =
      let above := afterPass engine notebook ⟨registry, now, lines⟩
      let line := Sheet.line ⟨engine, registry lines.length⟩ above.scope text
      ⟨above.results ++ (shown lines.length line.1).toList, line.2⟩ := by
  have habove : Sound engine.limits (afterPass engine notebook ⟨registry, now, lines⟩).reader :=
    h.evaluateFrom lines
  have hline := habove.evaluateLine_eq (registry lines.length)
    (afterPass engine notebook ⟨registry, now, lines⟩).scope text
  dsimp only
  rw [← hline, sheet, afterPass, evaluateFrom_append]
  dsimp only
  rw [evaluateFrom_cons, Nat.zero_add]
  simp only [evaluateFrom, List.append_nil, afterPass]

/-- The line with the given index succeeds in a pass: it does so in the scope that the lines above it
leave. -/
def Succeeds (engine : Engine K) (notebook : Notebook K) (pass : Pass K) (index : Nat)
    (s : Statement K) (v : Value K) : Prop :=
  ∃ text, pass.lines[index]? = some text ∧
    Sheet.Succeeds ⟨engine, pass.registry index⟩
      (afterPass engine notebook { pass with lines := pass.lines.take index }).scope text s v

theorem Succeeds.index_lt {index : Nat} {s : Statement K} {v : Value K}
    (h : Succeeds engine notebook pass index s v) : index < pass.lines.length := by
  obtain ⟨text, htext, -⟩ := h
  exact (List.getElem?_eq_some_iff.1 htext).1

/-- The lines that succeed are those of the part above that do, and the line below if it does. -/
theorem succeeds_concat {registry : Nat → Registry K} {now : Date} {lines : List String}
    {text : String} {i : Nat} {s : Statement K} {v : Value K} :
    Succeeds engine notebook ⟨registry, now, lines ++ [text]⟩ i s v ↔
      Succeeds engine notebook ⟨registry, now, lines⟩ i s v ∨
        i = lines.length ∧ Sheet.Succeeds ⟨engine, registry i⟩
          (afterPass engine notebook ⟨registry, now, lines⟩).scope text s v := by
  rcases Nat.lt_trichotomy i lines.length with hlt | rfl | hgt
  · rw [Succeeds, Succeeds]
    dsimp only
    rw [List.getElem?_append_left hlt, List.take_append_of_le_length hlt.le]
    exact (or_iff_left fun hand ↦ hlt.ne hand.1).symm
  · have hnot : ¬Succeeds engine notebook ⟨registry, now, lines⟩ lines.length s v :=
      fun h ↦ Nat.lt_irrefl _ h.index_lt
    rw [or_iff_right hnot, Succeeds]
    simp
  · refine iff_of_false (fun h ↦ ?_) ?_
    · have hlt := h.index_lt
      rw [List.length_append, List.length_singleton] at hlt
      omega
    · rintro (h | ⟨heq, -⟩)
      · exact Nat.lt_asymm hgt h.index_lt
      · exact hgt.ne' heq

theorem Sound.justified_afterPass (h : Sound engine.limits notebook.reader) (pass : Pass K) :
    (afterPass engine notebook pass).sheet.Justified pass.now (Succeeds engine notebook pass) := by
  obtain ⟨registry, now, lines⟩ := pass
  induction lines using List.reverseRecOn with
  | nil =>
    refine (Sheet.justified_start now).congr fun i s v ↦ ?_
    exact iff_of_false id fun hs ↦ Nat.not_lt_zero i hs.index_lt
  | append_singleton lines text ih =>
    rw [sheet_afterPass_concat h]
    dsimp only
    rcases Sheet.line_cases ⟨engine, registry lines.length⟩
      (afterPass engine notebook ⟨registry, now, lines⟩).scope text with
      ⟨hnone, hline⟩ | ⟨s, v, hs⟩
    · rw [hline, shown, Option.filter_none, Option.map_none, Option.toList_none, List.append_nil]
      refine ih.congr fun i t w ↦ ?_
      rw [succeeds_concat, or_iff_left]
      rintro ⟨rfl, ht⟩
      exact hnone t w ht
    · rw [hs.line_eq]
      refine (ih.succeed (fun i t w ht ↦ ht.index_lt) s v).congr fun i t w ↦ ?_
      rw [succeeds_concat]
      refine or_congr_right (and_congr_right fun hi ↦ ?_)
      rw [hi]
      constructor
      · rintro ⟨rfl, rfl⟩
        exact hs
      · exact fun ht ↦ ht.unique hs

/-- **Scope and results after a pass are exactly what its lines justify**, whatever passes came before
it, and with currencies that may arrive between its lines. -/
theorem scope_and_results_justified (engine : Engine K) (passes : List (Pass K)) (pass : Pass K) :
    (afterPass engine (afterPasses engine passes) pass).sheet.Justified pass.now
      (Succeeds engine (afterPasses engine passes) pass) :=
  (sound_afterPasses engine passes).justified_afterPass pass

end Notebook

end Reckoner
