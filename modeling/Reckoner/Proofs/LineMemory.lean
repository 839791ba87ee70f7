import Mathlib.Data.List.DropRight
import Reckoner.Notebook.Basic

/-!
# What a notebook remembers does not show

A notebook keeps one thing from pass to pass that a pass reads: the memory of its line reader. Here
it is shown that this memory never shows. Whatever passes came before, and however small the memory
is, a pass gives the results and the scope of `Sheet.anew`, which reads every line anew.

The invariant is `LineReader.Faithful`: every remembered line is the reading of its key. It speaks
of single entries only, so neither their order nor which of them have been dropped plays a role, and
the three ways in which entries change (a use, a replacement, a new entry in place of the oldest)
need no more than that they add nothing but the entry that was put (`exists_entry_of_entries_get`,
`entry_of_entries_put`).

A line is trimmed when the notebook looks at it and once more by the reader, which is the same as
once (`Text.trim_trim`).
-/

namespace Reckoner

/-! ### Trimming -/

namespace Text

/-- Trimming once leaves no blanks to trim. -/
theorem trimChars_trimChars (cs : List Char) : trimChars (trimChars cs) = trimChars cs := by
  -- what is left after both ends are trimmed begins as it did when only the front was trimmed
  have hpre : trimChars cs <+: cs.dropWhile isBlank := List.rdropWhile_prefix isBlank _
  have hfront : (trimChars cs).dropWhile isBlank = trimChars cs := by
    rw [List.dropWhile_eq_self_iff]
    intro hl
    have hidem := List.dropWhile_idempotent isBlank cs
    rw [List.dropWhile_eq_self_iff] at hidem
    rw [hpre.getElem hl]
    exact hidem (hl.trans_le hpre.length_le)
  show ((trimChars cs).dropWhile isBlank).rdropWhile isBlank = trimChars cs
  rw [hfront]
  exact List.rdropWhile_idempotent isBlank _

theorem trim_trim (s : String) : trim (trim s) = trim s := by
  rw [trim, trim, String.toList_ofList, trimChars_trimChars]

end Text

/-! ### Entries of a cache -/

namespace RecencyCache

variable {α β : Type} [DecidableEq α] {c : RecencyCache α β} {a k : α} {b b' : β} {n : Nat}

/-- What a cache answers is the value of one of its entries. -/
theorem exists_entry_of_get (h : (c.get a).1 = some b) : ∃ n, c.entries.get? a = some (b, n) := by
  simp only [get] at h
  split at h
  · contradiction
  · rename_i b' n hentry
    obtain rfl := Option.some.inj h
    exact ⟨n, hentry⟩

/-- Reading adds no entry. -/
theorem exists_entry_of_entries_get (h : (c.get a).2.entries.get? k = some (b, n)) :
    ∃ n, c.entries.get? k = some (b, n) := by
  simp only [get] at h
  split at h
  · exact ⟨n, h⟩
  · rename_i b' n' hentry
    rw [Table.get?_insert] at h
    split at h
    · rename_i heq
      obtain ⟨rfl, -⟩ := Prod.mk.inj (Option.some.inj h)
      exact ⟨n', heq ▸ hentry⟩
    · exact ⟨n, h⟩

/-- Making room adds no entry. -/
theorem entry_of_entries_makeRoom {e : β × Nat} (h : (c.makeRoom a).2.entries.get? k = some e) :
    c.entries.get? k = some e := by
  rw [makeRoom] at h
  split at h
  · exact h
  · split at h
    · rw [evict] at h
      split at h
      · exact h
      · rw [Table.get?_erase] at h
        split at h
        · contradiction
        · exact h
    · exact h

/-- Putting an entry adds no other. -/
theorem entry_of_entries_put (h : (c.put a b).2.entries.get? k = some (b', n)) :
    (k = a ∧ b' = b) ∨ c.entries.get? k = some (b', n) := by
  replace h : ((c.next.makeRoom a).2.entries.insert a (b, (c.next.makeRoom a).2.tick)).get? k =
    some (b', n) := h
  rw [Table.get?_insert] at h
  split at h
  · rename_i heq
    obtain ⟨rfl, -⟩ := Prod.mk.inj (Option.some.inj h)
    exact .inl ⟨heq, rfl⟩
  · exact .inr (entry_of_entries_makeRoom (c := c.next) h)

end RecencyCache

variable {K : Type} [Scalar K]

/-! ### The reader -/

namespace LineReader

/-- Every remembered line is the reading of its key. -/
def Faithful (reader : LineReader K) : Prop :=
  ∀ key line used, reader.cache.entries.get? key = some (line, used) →
    Statement.ofText reader.maxDepth key = .ok line.statement

omit [Scalar K] in
@[simp]
theorem maxDepth_new (capacity maxDepth : Nat) :
    (new capacity maxDepth : LineReader K).maxDepth = maxDepth :=
  rfl

theorem faithful_new (capacity maxDepth : Nat) :
    (new capacity maxDepth : LineReader K).Faithful := by
  intro key line used h
  rw [new, RecencyCache.ofCapacity, Table.get?_empty] at h
  contradiction

@[simp]
theorem maxDepth_read (reader : LineReader K) (text : String) :
    (reader.read text).2.maxDepth = reader.maxDepth := by
  unfold read
  dsimp only
  split
  · rfl
  · unfold readAnew
    dsimp only
    split <;> rfl

/-- Looking up a key keeps the memory faithful. -/
theorem Faithful.get {reader : LineReader K} (h : reader.Faithful) (key : String) :
    { reader with cache := (reader.cache.get key).2 }.Faithful := by
  intro key' line used hentry
  obtain ⟨used', hentry⟩ := RecencyCache.exists_entry_of_entries_get hentry
  exact h key' line used' hentry

/-- Reading a line that is not remembered gives its statement. -/
theorem statement_readAnew (reader : LineReader K) (key : String) :
    (reader.readAnew key).1.map ReadLine.statement = Statement.ofText reader.maxDepth key := by
  unfold readAnew
  dsimp only
  split
  · rename_i h
    rw [h]
    rfl
  · rename_i h
    rw [h]
    rfl

theorem Faithful.readAnew {reader : LineReader K} (h : reader.Faithful) (key : String) :
    (reader.readAnew key).2.Faithful := by
  unfold LineReader.readAnew
  dsimp only
  split
  · exact h
  · rename_i statement hs
    intro key' line' used hentry
    rcases RecencyCache.entry_of_entries_put hentry with ⟨rfl, rfl⟩ | hentry
    · exact hs
    · exact h key' line' used hentry

/-- **A faithful reader is transparent**: with or without its memory, a line reads the same. -/
theorem Faithful.statement_read {reader : LineReader K} (h : reader.Faithful) (text : String) :
    (reader.read text).1.map ReadLine.statement =
      Statement.ofText reader.maxDepth (Text.trim text) := by
  unfold read
  dsimp only
  split
  · rename_i line cache hget
    obtain ⟨used, hentry⟩ := RecencyCache.exists_entry_of_get (congrArg Prod.fst hget)
    exact (h _ line used hentry).symm
  · rename_i cache _
    exact statement_readAnew { reader with cache } (Text.trim text)

theorem Faithful.read {reader : LineReader K} (h : reader.Faithful) (text : String) :
    (reader.read text).2.Faithful := by
  unfold LineReader.read
  dsimp only
  split
  · rename_i line cache hget
    obtain rfl : (reader.cache.get (Text.trim text)).2 = cache := congrArg Prod.snd hget
    exact h.get (Text.trim text)
  · rename_i cache hget
    obtain rfl : (reader.cache.get (Text.trim text)).2 = cache := congrArg Prod.snd hget
    exact (h.get (Text.trim text)).readAnew (Text.trim text)

end LineReader

/-! ### Passes -/

/-- What a pass over a document finds: the currencies that are known at each line, the instant, and
the lines. -/
structure Pass (K : Type) where
  registry : Nat → Registry K
  now : Date
  lines : List String

/-- What a pass shows: the results by the indices of their lines, and the scope at the end. -/
structure Sheet (K : Type) where
  results : List (Nat × Value K)
  scope : Scope K

/-- What is shown of a line, beside its index: its value, if it has one that can be displayed. -/
def shown (index : Nat) (v : Option (Value K)) : Option (Nat × Value K) :=
  (v.filter Value.isDisplayable).map (index, ·)

namespace Sheet

/-- The value of a line that is read on the spot, if it has one, and the scope after it. -/
def line (ctx : Context K) (scope : Scope K) (text : String) : Option (Value K) × Scope K :=
  let trimmed := Text.trim text
  if trimmed.isEmpty then (none, scope)
  else
    match Statement.ofText ctx.engine.limits.maxExpressionDepth trimmed with
    | .error _ => (none, scope)
    | .ok statement =>
      match statement.execute ctx scope with
      | .error _ => (none, scope)
      | .ok (v, after) => (some v, after.setLast v)

/-- The sheet after one more line. -/
def addLine (ctx : Context K) (sheet : Sheet K) (text : String × Nat) : Sheet K :=
  let (v, scope) := line ctx sheet.scope text.1
  ⟨sheet.results ++ (shown text.2 v).toList, scope⟩

/-- **The sheet of a document without any memory**: a fold over its lines, each of which is read
anew and executed in the scope that the lines before it have left. -/
def anew (ctx : Context K) (now : Date) (lines : List String) : Sheet K :=
  lines.zipIdx.foldl (addLine ctx) ⟨[], Scope.atInstant now⟩

end Sheet

namespace Notebook

/-- What the last pass has shown. -/
def sheet (notebook : Notebook K) : Sheet K := ⟨notebook.results, notebook.scope⟩

/-- The notebook after one more pass. -/
def afterPass (engine : Engine K) (notebook : Notebook K) (pass : Pass K) : Notebook K :=
  evaluateFrom engine pass.registry 0 notebook.reader (Scope.atInstant pass.now) pass.lines

/-- The notebook after some passes, the first of which finds it new. -/
def afterPasses (engine : Engine K) (passes : List (Pass K)) : Notebook K :=
  passes.foldl (afterPass engine) (new engine.limits)

/-- A reader that a pass over documents under the limits can have: its memory is faithful and it
reads as deep as they say. -/
structure Sound (limits : Limits) (reader : LineReader K) : Prop where
  faithful : reader.Faithful
  maxDepth : reader.maxDepth = limits.maxExpressionDepth

theorem sound_new (limits : Limits) : Sound limits (new limits : Notebook K).reader :=
  ⟨LineReader.faithful_new _ _, rfl⟩

theorem Sound.read {limits : Limits} {reader : LineReader K} (h : Sound limits reader)
    (text : String) : Sound limits (reader.read text).2 :=
  ⟨h.faithful.read text, (reader.maxDepth_read text).trans h.maxDepth⟩

/-- A line changes the reader at most by reading. -/
theorem reader_evaluateLine (ctx : Context K) (reader : LineReader K) (scope : Scope K)
    (text : String) :
    (evaluateLine ctx reader scope text).2.1 = reader ∨
      (evaluateLine ctx reader scope text).2.1 = (reader.read (Text.trim text)).2 := by
  unfold evaluateLine
  dsimp only
  split
  · exact .inl rfl
  · right
    split <;> rename_i hread <;> rw [hread]

theorem Sound.evaluateLine {engine : Engine K} {reader : LineReader K}
    (h : Sound engine.limits reader) (registry : Registry K) (scope : Scope K) (text : String) :
    Sound engine.limits (Notebook.evaluateLine ⟨engine, registry⟩ reader scope text).2.1 := by
  rcases reader_evaluateLine ⟨engine, registry⟩ reader scope text with heq | heq
  · rw [heq]
    exact h
  · rw [heq]
    exact h.read _

/-- The value of a line and the scope after it do not depend on what the reader remembers. -/
theorem Sound.evaluateLine_eq {engine : Engine K} {reader : LineReader K}
    (h : Sound engine.limits reader) (registry : Registry K) (scope : Scope K) (text : String) :
    ((Notebook.evaluateLine ⟨engine, registry⟩ reader scope text).1,
      (Notebook.evaluateLine ⟨engine, registry⟩ reader scope text).2.2) =
        Sheet.line ⟨engine, registry⟩ scope text := by
  -- The reader trims once more, which changes nothing.
  have hread := h.faithful.statement_read (Text.trim text)
  rw [Text.trim_trim, h.maxDepth] at hread
  unfold Notebook.evaluateLine Sheet.line
  dsimp only
  split
  · rfl
  · rw [← hread]
    cases hr : reader.read (Text.trim text) with
    | mk outcome after =>
      cases outcome with
      | error e => rfl
      | ok line =>
        simp only [execute, Except.map]
        cases line.statement.execute ⟨engine, registry⟩ scope with
        | error e => rfl
        | ok result => rfl

/-- What a pass keeps and shows: the rest of the pass, with the result of the first line in
front. -/
theorem evaluateFrom_cons (engine : Engine K) (registry : Nat → Registry K) (index : Nat)
    (reader : LineReader K) (scope : Scope K) (text : String) (rest : List String) :
    Notebook.evaluateFrom engine registry index reader scope (text :: rest) =
      let line := Notebook.evaluateLine ⟨engine, registry index⟩ reader scope text
      let after := Notebook.evaluateFrom engine registry (index + 1) line.2.1 line.2.2 rest
      ⟨after.reader, (shown index line.1).toList ++ after.results, after.scope⟩ := by
  rw [Notebook.evaluateFrom]
  rcases Notebook.evaluateLine ⟨engine, registry index⟩ reader scope text with ⟨v, reader, scope⟩
  dsimp only [shown]
  cases v.filter Value.isDisplayable with
  | none => rfl
  | some v => rfl

theorem Sound.evaluateFrom {engine : Engine K} {registry : Nat → Registry K} {index : Nat}
    {reader : LineReader K} {scope : Scope K} (h : Sound engine.limits reader)
    (lines : List String) :
    Sound engine.limits (evaluateFrom engine registry index reader scope lines).reader := by
  induction lines generalizing index reader scope with
  | nil => exact h
  | cons text rest ih =>
    rw [evaluateFrom_cons]
    dsimp only
    exact ih (h.evaluateLine (registry index) scope text)

/-- Every run of passes leaves the reader sound. -/
theorem sound_afterPasses (engine : Engine K) (passes : List (Pass K)) :
    Sound engine.limits (afterPasses engine passes).reader := by
  unfold afterPasses
  induction passes using List.reverseRecOn with
  | nil => exact sound_new engine.limits
  | append_singleton earlier pass ih =>
    rw [List.foldl_append, List.foldl_cons, List.foldl_nil, afterPass]
    exact ih.evaluateFrom pass.lines

/-- A pass is the fold over its lines, started from any line and any results before it. -/
theorem Sound.foldl_addLine {engine : Engine K} {reader : LineReader K}
    (h : Sound engine.limits reader) (registry : Registry K) (index : Nat)
    (results : List (Nat × Value K)) (scope : Scope K) (lines : List String) :
    (lines.zipIdx index).foldl (Sheet.addLine ⟨engine, registry⟩) ⟨results, scope⟩ =
      ⟨results ++
          (Notebook.evaluateFrom engine (fun _ ↦ registry) index reader scope lines).results,
        (Notebook.evaluateFrom engine (fun _ ↦ registry) index reader scope lines).scope⟩ := by
  induction lines generalizing index reader results scope with
  | nil => simp [Notebook.evaluateFrom]
  | cons text rest ih =>
    have hline := h.evaluateLine_eq registry scope text
    have hnext := h.evaluateLine registry scope text
    rw [List.zipIdx_cons, List.foldl_cons, Sheet.addLine, ← hline, evaluateFrom_cons]
    dsimp only
    rw [ih hnext, List.append_assoc]

theorem Sound.sheet_evaluate {engine : Engine K} {notebook : Notebook K}
    (h : Sound engine.limits notebook.reader) (registry : Registry K) (now : Date)
    (lines : List String) :
    (notebook.evaluate engine registry now lines).sheet =
      Sheet.anew ⟨engine, registry⟩ now lines := by
  have hfold := h.foldl_addLine registry 0 [] (Scope.atInstant now) lines
  rw [List.nil_append] at hfold
  rw [Sheet.anew, hfold, sheet, evaluate]

/-- **A pass does not depend on the passes before it, nor on the memory of the reader.** After any
passes, over any documents, at any instants and with any currencies, a pass gives the results and
the scope that it would give in a new notebook, and these are the ones of reading every line
anew. -/
theorem sheet_evaluate_afterPasses (engine : Engine K) (passes : List (Pass K))
    (registry : Registry K) (now : Date) (lines : List String) :
    ((afterPasses engine passes).evaluate engine registry now lines).sheet =
        ((new engine.limits).evaluate engine registry now lines).sheet ∧
      ((afterPasses engine passes).evaluate engine registry now lines).sheet =
        Sheet.anew ⟨engine, registry⟩ now lines := by
  have hlast := (sound_afterPasses engine passes).sheet_evaluate registry now lines
  have hnew := (sound_new engine.limits).sheet_evaluate registry now lines
  exact ⟨hlast.trans hnew.symm, hlast⟩

end Notebook

end Reckoner
