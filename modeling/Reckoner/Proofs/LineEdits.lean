import Reckoner.Proofs.LineMemory

/-!
# Edits of a document are local

A pass reads lines from top to bottom, and each line sees only the scope that the lines above it
have left. So a change of the document shows only from the changed line on, and a line that leaves no
trace in the scope shows nowhere else at all: the lines below it move down by one, and so do their
results.

Which lines leave no trace is `Sheet.Skips`: those that are blank, that have no meaning, and those
whose execution fails in the scope that they find. Wherever in an expression the failure occurs, a
line that fails has no scope of its own to leave behind (`Sheet.line_of_skips`).

All statements are about sheets, that is, about passes without a memory. That the memory of a
notebook does not show is known, so the two passes that are compared may come after different
passes, with different lines remembered.
-/

namespace Reckoner

variable {K : Type} [Scalar K]

namespace Sheet

variable {ctx : Context K}

/-! ### Passes from the middle of a document -/

/-- The sheet after more lines, the first of which has the given index. -/
def addLines (ctx : Context K) (index : Nat) (sheet : Sheet K) (lines : List String) : Sheet K :=
  (lines.zipIdx index).foldl (addLine ctx) sheet

@[simp]
theorem addLines_nil (index : Nat) (sheet : Sheet K) : addLines ctx index sheet [] = sheet :=
  rfl

theorem addLines_cons (index : Nat) (sheet : Sheet K) (text : String) (rest : List String) :
    addLines ctx index sheet (text :: rest) =
      addLines ctx (index + 1) (addLine ctx sheet (text, index)) rest := by
  rw [addLines, List.zipIdx_cons, List.foldl_cons, addLines]

theorem addLines_append (index : Nat) (sheet : Sheet K) (above below : List String) :
    addLines ctx index sheet (above ++ below) =
      addLines ctx (index + above.length) (addLines ctx index sheet above) below := by
  rw [addLines, List.zipIdx_append, List.foldl_append, addLines, addLines]

/-- The results so far stand in front of those of the lines to come and do not change them. -/
theorem addLines_eq (index : Nat) (results : List (Nat × Value K)) (scope : Scope K)
    (lines : List String) :
    addLines ctx index ⟨results, scope⟩ lines =
      ⟨results ++ (addLines ctx index ⟨[], scope⟩ lines).results,
        (addLines ctx index ⟨[], scope⟩ lines).scope⟩ := by
  induction lines generalizing index results scope with
  | nil => simp
  | cons text rest ih =>
    rw [addLines_cons, addLines_cons, addLine, addLine, ih, ih (index + 1) ([] ++ _)]
    simp

/-- The results of lines are that of the first one, if it has any, and those of the others. -/
theorem results_addLines_cons (index : Nat) (scope : Scope K) (text : String)
    (rest : List String) :
    (addLines ctx index ⟨[], scope⟩ (text :: rest)).results =
      (shown index (line ctx scope text).1).toList ++
        (addLines ctx (index + 1) ⟨[], (line ctx scope text).2⟩ rest).results := by
  rw [addLines_cons, addLine]
  dsimp only
  -- What the line does in its scope plays no role from here on.
  generalize line ctx scope text = outcome
  rw [addLines_eq, List.nil_append]

/-- The results of lines bear the indices of these lines. -/
theorem index_of_mem_results {index : Nat} {scope : Scope K} {lines : List String}
    {r : Nat × Value K} (h : r ∈ (addLines ctx index ⟨[], scope⟩ lines).results) :
    index ≤ r.1 ∧ r.1 < index + lines.length := by
  induction lines generalizing index scope with
  | nil => simp at h
  | cons text rest ih =>
    rw [results_addLines_cons] at h
    rw [List.length_cons]
    rcases List.mem_append.1 h with h | h
    · obtain ⟨v, -, hr⟩ := Option.map_eq_some_iff.1 (Option.mem_toList.1 h)
      obtain rfl := hr
      dsimp only
      omega
    · have := ih h
      omega

/-- Lines that stand one place further down have the same results there. -/
theorem addLines_succ (index : Nat) (scope : Scope K) (lines : List String) :
    addLines ctx (index + 1) ⟨[], scope⟩ lines =
      ⟨(addLines ctx index ⟨[], scope⟩ lines).results.map (Prod.map (· + 1) id),
        (addLines ctx index ⟨[], scope⟩ lines).scope⟩ := by
  induction lines generalizing index scope with
  | nil => rfl
  | cons text rest ih =>
    have hshown : ∀ v : Option (Value K),
        (shown (index + 1) v).toList = (shown index v).toList.map (Prod.map (· + 1) id) := by
      intro v
      rw [shown, shown]
      cases v.filter Value.isDisplayable <;> rfl
    rw [addLines_cons, addLines_cons, addLine, addLine, addLines_eq, ih,
      addLines_eq (index + 1) ([] ++ _)]
    simp only [List.nil_append, List.map_append, hshown]

theorem anew_eq_addLines (now : Date) (lines : List String) :
    anew ctx now lines = addLines ctx 0 ⟨[], Scope.atInstant now⟩ lines :=
  rfl

/-- A document in two parts: the results of the lines above do not depend on those below, which see
of them the scope that they leave. -/
theorem anew_append (now : Date) (above below : List String) :
    anew ctx now (above ++ below) =
      ⟨(anew ctx now above).results ++
          (addLines ctx above.length ⟨[], (anew ctx now above).scope⟩ below).results,
        (addLines ctx above.length ⟨[], (anew ctx now above).scope⟩ below).scope⟩ := by
  rw [anew_eq_addLines, addLines_append, Nat.zero_add, ← anew_eq_addLines, ← addLines_eq]

/-- Results bear indices of lines. -/
theorem index_lt_of_mem_results_anew {now : Date} {lines : List String} {r : Nat × Value K}
    (h : r ∈ (anew ctx now lines).results) : r.1 < lines.length := by
  rw [anew_eq_addLines] at h
  have := index_of_mem_results h
  omega

/-! ### The first lines -/

/-- The results of the first lines of a document are the results of these lines alone. -/
theorem filter_results_anew (now : Date) (lines : List String) (n : Nat) :
    (anew ctx now lines).results.filter (·.1 < n) = (anew ctx now (lines.take n)).results := by
  have hlines : anew ctx now lines = anew ctx now (lines.take n ++ lines.drop n) := by
    rw [List.take_append_drop]
  have hfirst : ∀ r ∈ (anew ctx now (lines.take n)).results, r.1 < n := by
    intro r hr
    have hlt := index_lt_of_mem_results_anew hr
    exact hlt.trans_le (List.length_take_le n lines)
  have hrest : ∀ r ∈ (addLines ctx (lines.take n).length
      ⟨[], (anew ctx now (lines.take n)).scope⟩ (lines.drop n)).results,
      ¬decide (r.1 < n) = true := by
    intro r hr
    have hindex := index_of_mem_results hr
    rw [List.length_take, List.length_drop] at hindex
    rw [decide_eq_true_eq]
    omega
  have hkeep := List.filter_eq_self.2 fun r hr ↦ decide_eq_true (hfirst r hr)
  have hdrop := List.filter_eq_nil_iff.2 hrest
  rw [hlines, anew_append, List.filter_append, hkeep, hdrop, List.append_nil]

/-! ### Lines that are skipped -/

/-- Whether a line leaves no trace where a pass reaches it in the given scope: it is blank, it has no
meaning, or its execution fails. -/
def Skips (ctx : Context K) (scope : Scope K) (text : String) : Prop :=
  (Text.trim text).isEmpty ∨
    (∃ e, Statement.ofText ctx.engine.limits.maxExpressionDepth (Text.trim text) =
      (.error e : Except ParseError (Statement K))) ∨
    ∃ s e, Statement.ofText ctx.engine.limits.maxExpressionDepth (Text.trim text) = .ok s ∧
      s.execute ctx scope = .error e

/-- A line that is skipped has no value and leaves the scope as it was. -/
theorem line_of_skips {scope : Scope K} {text : String} (h : Skips ctx scope text) :
    line ctx scope text = (none, scope) := by
  unfold line
  dsimp only
  by_cases hblank : (Text.trim text).isEmpty
  · rw [if_pos hblank]
  · rw [if_neg hblank]
    rcases h with h | ⟨e, h⟩ | ⟨s, e, h, herror⟩
    · exact absurd h hblank
    · rw [h]
    · rw [h]
      dsimp only
      rw [herror]

/-- The index of a line after another line has been put in at position `k`. -/
def moved (k index : Nat) : Nat := if k ≤ index then index + 1 else index

/-- **A skipped line is invisible**: the results below it move down by one, and everything else stays
as it is without the line. -/
theorem anew_insert_of_skips {now : Date} {above : List String} {text : String}
    (h : Skips ctx (anew ctx now above).scope text) (below : List String) :
    anew ctx now (above ++ text :: below) =
      ⟨(anew ctx now (above ++ below)).results.map (Prod.map (moved above.length) id),
        (anew ctx now (above ++ below)).scope⟩ := by
  have habove : ∀ r ∈ (anew ctx now above).results,
      Prod.map (moved above.length) id r = id r := by
    intro r hr
    have hlt := index_lt_of_mem_results_anew hr
    rw [Prod.map, moved, if_neg (Nat.not_le.2 hlt), id, id]
  have hbelow : ∀ r ∈ (addLines ctx above.length ⟨[], (anew ctx now above).scope⟩ below).results,
      Prod.map (moved above.length) id r = Prod.map (· + 1) id r := by
    intro r hr
    have hle := (index_of_mem_results hr).1
    rw [Prod.map, moved, if_pos hle, Prod.map]
  have hline : addLine ctx ⟨[], (anew ctx now above).scope⟩ (text, above.length) =
      ⟨[], (anew ctx now above).scope⟩ := by
    rw [addLine, line_of_skips h]
    rfl
  rw [anew_append, anew_append, addLines_cons, hline, addLines_succ]
  dsimp only
  rw [List.map_append, List.map_congr_left habove, List.map_id, List.map_congr_left hbelow]

end Sheet

namespace Notebook

/-- **Edits are local, and skipped lines are invisible.** For passes at one instant and with one
state of the currencies, whatever passes came before each of them:

* two documents that agree on their first `n` lines have the same results at all indices below `n`;
* a line that is blank, has no meaning, or fails where it stands can be put in at any position. The
  results are those of the document without it, with the indices from this position on moved by one,
  and the scope at the end is the same, the previous result included. -/
theorem edits_local (engine : Engine K) (registry : Registry K) (now : Date)
    (passes passes' : List (Pass K)) :
    (∀ n (lines lines' : List String), lines.take n = lines'.take n →
      ((afterPasses engine passes).evaluate engine registry now lines).results.filter (·.1 < n) =
        ((afterPasses engine passes').evaluate engine registry now lines').results.filter
          (·.1 < n)) ∧
    ∀ (above below : List String) (text : String),
      Sheet.Skips ⟨engine, registry⟩
        ((afterPasses engine passes').evaluate engine registry now above).scope text →
      ((afterPasses engine passes).evaluate engine registry now (above ++ text :: below)).results =
          ((afterPasses engine passes').evaluate engine registry now (above ++ below)).results.map
            (Prod.map (Sheet.moved above.length) id) ∧
        ((afterPasses engine passes).evaluate engine registry now (above ++ text :: below)).scope =
          ((afterPasses engine passes').evaluate engine registry now (above ++ below)).scope := by
  -- Every pass is a pass without a memory.
  have hsheet : ∀ (passes : List (Pass K)) (lines : List String),
      ((afterPasses engine passes).evaluate engine registry now lines).sheet =
        Sheet.anew ⟨engine, registry⟩ now lines :=
    fun passes lines ↦ (sound_afterPasses engine passes).sheet_evaluate registry now lines
  have hresults : ∀ (passes : List (Pass K)) (lines : List String),
      ((afterPasses engine passes).evaluate engine registry now lines).results =
        (Sheet.anew ⟨engine, registry⟩ now lines).results :=
    fun passes lines ↦ congrArg Sheet.results (hsheet passes lines)
  have hscope : ∀ (passes : List (Pass K)) (lines : List String),
      ((afterPasses engine passes).evaluate engine registry now lines).scope =
        (Sheet.anew ⟨engine, registry⟩ now lines).scope :=
    fun passes lines ↦ congrArg Sheet.scope (hsheet passes lines)
  refine ⟨fun n lines lines' hlines ↦ ?_, fun above below text hskips ↦ ?_⟩
  · rw [hresults, hresults, Sheet.filter_results_anew, Sheet.filter_results_anew, hlines]
  · rw [hscope] at hskips
    have hinsert := Sheet.anew_insert_of_skips hskips below
    rw [hresults, hresults, hscope, hscope, hinsert]
    exact ⟨rfl, rfl⟩

end Notebook

end Reckoner
