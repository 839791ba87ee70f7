import Reckoner.Editor.Keys
import Reckoner.Proofs.RegistryView

/-!
# The editor never shows stale results

Exchange rates arrive while the editor is open, at any time: between two operations, or while a pass
over the text is under way, between two of its lines. The editor notices by comparing two stages of
loading, the one before its last pass and the present one. Here it is shown that this is enough.

An operation either runs a pass over the text that it leaves, or it keeps lines, results and the
recorded stage as they are (`Operation.apply_cases`). So a run is one long alternation of passes and
events of loading, and one invariant carries it: since the last pass started, events have led from the
currencies of that moment to the present ones, and if they have not led to another stage, then the
results are those of evaluating the present lines with the present currencies (`Desk.Tracked`). That
no stage is ever come back to is what makes the comparison sound; that the stage is recorded before the
first line is looked at is what makes it sound for a pass that events interrupt.
-/

namespace Reckoner

/-! ### Moving the cursor -/

namespace Buffer

theorem rows_left (b : Buffer) : b.left.rows = b.rows := by
  obtain ⟨above, ⟨before, after⟩, below⟩ := b
  cases before with
  | nil => cases above <;> simp [left, CursorLine.left?, rows, CursorLine.chars, CursorLine.atEnd]
  | cons c before => simp [left, CursorLine.left?, rows, CursorLine.chars]

theorem rows_right (b : Buffer) : b.right.rows = b.rows := by
  obtain ⟨above, ⟨before, after⟩, below⟩ := b
  cases after with
  | nil => cases below <;> simp [right, CursorLine.right?, rows, CursorLine.chars, CursorLine.atStart]
  | cons c after => simp [right, CursorLine.right?, rows, CursorLine.chars]

theorem rows_up (b : Buffer) : b.up.rows = b.rows := by
  obtain ⟨above, current, below⟩ := b
  cases above <;> simp [up, rows]

theorem rows_down (b : Buffer) : b.down.rows = b.rows := by
  obtain ⟨above, current, below⟩ := b
  cases below <;> simp [down, rows]

theorem rows_home (b : Buffer) : b.home.rows = b.rows := by
  simp [home, rows, CursorLine.home]

theorem rows_lineEnd (b : Buffer) : b.lineEnd.rows = b.rows := by
  simp [lineEnd, rows, CursorLine.toEnd]

theorem rows_toStart (b : Buffer) : b.toStart.rows = b.rows := by
  have hrows : ∀ rows : List (List Char), rows ≠ [] → (ofLines rows).rows = rows := by
    intro rows hne
    cases rows with
    | nil => exact absurd rfl hne
    | cons first more => simp [ofLines, Buffer.rows]
  exact hrows b.rows (by simp [rows])

theorem rows_toEnd (b : Buffer) : b.toEnd.rows = b.rows := by
  rw [toEnd]
  split
  · rename_i last above h
    have hrows : b.rows = above.reverse ++ [last] := by
      rw [← List.reverse_cons, ← h, List.reverse_reverse]
    rw [hrows, rows, CursorLine.chars_atEnd]
  · rfl

end Buffer

/-! ### What operations do to results -/

namespace Editor

/-- The second editor shows the lines of the first one with the results of the same pass. -/
structure SamePass (e e' : Editor) : Prop where
  lines : e'.lines = e.lines
  notebook : e'.notebook = e.notebook
  evaluatedWith : e'.evaluatedWith = e.evaluatedWith

theorem SamePass.refl (e : Editor) : SamePass e e :=
  ⟨rfl, rfl, rfl⟩

theorem SamePass.trans {e e' e'' : Editor} (h : SamePass e e') (h' : SamePass e' e'') :
    SamePass e e'' :=
  ⟨h'.lines.trans h.lines, h'.notebook.trans h.notebook, h'.evaluatedWith.trans h.evaluatedWith⟩

theorem samePass_reveal (e : Editor) : SamePass e e.reveal := by
  unfold reveal
  dsimp only
  split
  · exact ⟨rfl, rfl, rfl⟩
  · split <;> exact ⟨rfl, rfl, rfl⟩

theorem samePass_moveInLine {f : Buffer → Buffer} (hf : ∀ b, (f b).rows = b.rows) (e : Editor) :
    SamePass e (e.moveInLine f) :=
  ⟨congrArg (List.map String.ofList) (hf e.buffer), rfl, rfl⟩

theorem samePass_move {f : Buffer → Buffer} (hf : ∀ b, (f b).rows = b.rows) (e : Editor) :
    SamePass e (e.move f) :=
  (samePass_moveInLine hf e).trans (samePass_reveal _)

theorem samePass_movePage {f : Buffer → Buffer} (hf : ∀ b, (f b).rows = b.rows) (available : Nat)
    (e : Editor) : SamePass e (e.movePage f available) := by
  have hrepeat : ∀ n, SamePass e (Nat.repeat (move f) n e) := by
    intro n
    induction n with
    | zero => exact SamePass.refl e
    | succ n ih => exact ih.trans (samePass_move hf _)
  exact (hrepeat _).trans (samePass_reveal _)

theorem samePass_pressControl (s : Surroundings) (key : Key) (e : Editor) :
    SamePass e (e.pressControl s key).1 := by
  unfold pressControl
  split
  · exact ⟨rfl, rfl, rfl⟩
  · exact ⟨rfl, rfl, rfl⟩
  · split <;> exact ⟨rfl, rfl, rfl⟩
  · exact samePass_move Buffer.rows_toStart e
  · exact samePass_move Buffer.rows_toEnd e
  · exact SamePass.refl e

theorem samePass_pressHelp (key : Key) (e : Editor) : SamePass e (e.pressHelp key) := by
  unfold pressHelp
  split <;> exact ⟨rfl, rfl, rfl⟩

theorem samePass_pressPrompt (purpose : Purpose) (input : CursorLine) (key : Key) (e : Editor) :
    SamePass e (e.pressPrompt purpose input key).1 := by
  unfold pressPrompt
  split <;> exact ⟨rfl, rfl, rfl⟩

/-- The last pass of the editor was a pass over its lines in these surroundings, with a reader that
remembers only what it has read. -/
structure Evaluated (s : Surroundings) (e : Editor) : Prop where
  evaluatedWith : e.evaluatedWith = s.registry.status
  notebook : ∃ reader : LineReader Float, Notebook.Sound s.engine.limits reader ∧
    e.notebook = Notebook.evaluateFrom s.engine s.during 0 reader (Scope.atInstant s.now) e.lines

theorem Evaluated.of_samePass {s : Surroundings} {e e' : Editor} (h : Evaluated s e)
    (hsame : SamePass e e') : Evaluated s e' := by
  obtain ⟨reader, hreader, hnotebook⟩ := h.notebook
  refine ⟨hsame.evaluatedWith.trans h.evaluatedWith, reader, hreader, ?_⟩
  rw [hsame.notebook, hsame.lines]
  exact hnotebook

variable {s : Surroundings} {e : Editor}

theorem evaluated_recalculate (h : Notebook.Sound s.engine.limits e.notebook.reader) :
    Evaluated s (e.recalculate s) :=
  ⟨rfl, e.notebook.reader, h, rfl⟩

theorem Evaluated.sound (h : Evaluated s e) :
    Notebook.Sound s.engine.limits e.notebook.reader := by
  obtain ⟨reader, hreader, hnotebook⟩ := h.notebook
  rw [hnotebook]
  exact hreader.evaluateFrom e.lines

theorem evaluated_edited (h : Notebook.Sound s.engine.limits e.notebook.reader) :
    Evaluated s (e.edited s) :=
  evaluated_recalculate h

/-- Scrolling before the pass makes no difference to it. -/
theorem evaluated_edited_reveal (h : Notebook.Sound s.engine.limits e.notebook.reader) :
    Evaluated s (e.reveal.edited s) := by
  refine evaluated_edited ?_
  rw [(samePass_reveal e).notebook]
  exact h

theorem evaluated_insert (h : Notebook.Sound s.engine.limits e.notebook.reader) (c : Char) :
    Evaluated s (e.insert s c) :=
  evaluated_edited (e := { e with buffer := e.buffer.insert c }) h

theorem evaluated_breakLine (h : Notebook.Sound s.engine.limits e.notebook.reader) :
    Evaluated s (e.breakLine s) :=
  evaluated_edited_reveal (e := { e with buffer := e.buffer.breakLine }) h

theorem evaluated_backspace (h : Notebook.Sound s.engine.limits e.notebook.reader)
    (hsome : e.buffer.backspace?.isSome = true) : Evaluated s (e.backspace s) := by
  obtain ⟨buffer, hbuffer⟩ := Option.isSome_iff_exists.1 hsome
  rw [backspace, hbuffer]
  dsimp only
  split
  · exact evaluated_edited_reveal (e := { e with buffer }) h
  · exact evaluated_edited (e := { e with buffer }) h

theorem evaluated_delete (h : Notebook.Sound s.engine.limits e.notebook.reader)
    (hsome : e.buffer.delete?.isSome = true) : Evaluated s (e.delete s) := by
  obtain ⟨buffer, hbuffer⟩ := Option.isSome_iff_exists.1 hsome
  rw [delete, hbuffer]
  exact evaluated_edited (e := { e with buffer }) h

theorem samePass_backspace (hnone : e.buffer.backspace?.isSome = false) :
    SamePass e (e.backspace s) := by
  rw [backspace, Option.isSome_eq_false_iff.1 hnone |> Option.isNone_iff_eq_none.1]
  exact SamePass.refl e

theorem samePass_delete (hnone : e.buffer.delete?.isSome = false) : SamePass e (e.delete s) := by
  rw [delete, Option.isSome_eq_false_iff.1 hnone |> Option.isNone_iff_eq_none.1]
  exact SamePass.refl e

end Editor

/-- Whether a key changes a text that is being edited. -/
def Key.edits (b : Buffer) : Key → Bool
  | .char _ | .tab | .enter => true
  | .backspace => b.backspace?.isSome
  | .delete => b.delete?.isSome
  | _ => false

namespace Editor

variable {s : Surroundings} {e : Editor}

/-- A key that changes the text runs a pass over it. -/
theorem evaluated_pressEditing (h : Notebook.Sound s.engine.limits e.notebook.reader) {key : Key}
    (hkey : key.edits e.buffer = true) : Evaluated s (e.pressEditing s key) := by
  cases key with
  | char c => exact evaluated_insert h c
  | tab =>
    -- Four passes, of which the last one counts.
    have hone : Evaluated s (e.insert s ' ') := evaluated_insert h ' '
    have htwo : Evaluated s ((e.insert s ' ').insert s ' ') := evaluated_insert hone.sound ' '
    exact evaluated_insert (evaluated_insert htwo.sound ' ').sound ' '
  | enter => exact evaluated_breakLine h
  | backspace => exact evaluated_backspace h hkey
  | delete => exact evaluated_delete h hkey
  | _ => exact absurd hkey Bool.false_ne_true

/-- Any other key leaves text and results alone. -/
theorem samePass_pressEditing {key : Key} (hkey : key.edits e.buffer = false) :
    SamePass e (e.pressEditing s key) := by
  cases key with
  | char c => exact absurd hkey.symm Bool.false_ne_true
  | tab => exact absurd hkey.symm Bool.false_ne_true
  | enter => exact absurd hkey.symm Bool.false_ne_true
  | backspace => exact samePass_backspace hkey
  | delete => exact samePass_delete hkey
  | left => exact samePass_move Buffer.rows_left e
  | right => exact samePass_move Buffer.rows_right e
  | up => exact samePass_move Buffer.rows_up e
  | down => exact samePass_move Buffer.rows_down e
  | home => exact samePass_moveInLine Buffer.rows_home e
  | lineEnd => exact samePass_moveInLine Buffer.rows_lineEnd e
  | pageUp => exact samePass_movePage Buffer.rows_up _ e
  | pageDown => exact samePass_movePage Buffer.rows_down _ e
  | escape => exact SamePass.refl e
  | insert => exact SamePass.refl e
  | function n =>
    -- Only the first of these keys has a meaning, and that is to show help.
    match n with
    | 1 => exact ⟨rfl, rfl, rfl⟩
    | 0 | _ + 2 => exact SamePass.refl e

end Editor

/-- What can be done with an editor. -/
inductive Operation where
  | insert (c : Char)
  | breakLine
  | backspace
  | delete
  | setContent (text : String)
  | loaded (outcome : Except String (String × String))
  | saved (outcome : Except String String)
  /-- A key in any mode: it edits, moves the cursor, scrolls, or belongs to help or a prompt. -/
  | press (control : Bool) (key : Key)
  | refresh

namespace Operation

/-- The editor after an operation. -/
def apply (s : Surroundings) (e : Editor) : Operation → Editor
  | insert c => e.insert s c
  | breakLine => e.breakLine s
  | backspace => e.backspace s
  | delete => e.delete s
  | setContent text => e.setContent s text
  | loaded outcome => e.loaded s outcome
  | saved outcome => e.saved outcome
  | press control key => (e.press s control key).1
  | refresh => (e.refresh s).2

/-- Whether an operation runs a pass over the text. -/
def runsPass (s : Surroundings) (e : Editor) : Operation → Bool
  | insert _ | breakLine | setContent _ | loaded (.ok _) => true
  | backspace => e.buffer.backspace?.isSome
  | delete => e.buffer.delete?.isSome
  | loaded (.error _) | saved _ => false
  | press control key => e.mode = .editing && !control && key.edits e.buffer
  | refresh => s.registry.status ≠ e.evaluatedWith

/-- **What an operation can do**: run a pass over the lines that it leaves, or nothing to lines and
results. -/
theorem apply_cases {s : Surroundings} {e : Editor}
    (h : Notebook.Sound s.engine.limits e.notebook.reader) (op : Operation) :
    (op.runsPass s e = true ∧ Editor.Evaluated s (op.apply s e)) ∨
      (op.runsPass s e = false ∧ Editor.SamePass e (op.apply s e)) := by
  cases op with
  | insert c => exact .inl ⟨rfl, Editor.evaluated_insert h c⟩
  | breakLine => exact .inl ⟨rfl, Editor.evaluated_breakLine h⟩
  | backspace =>
    cases hsome : e.buffer.backspace?.isSome with
    | true => exact .inl ⟨hsome, Editor.evaluated_backspace h hsome⟩
    | false => exact .inr ⟨hsome, Editor.samePass_backspace hsome⟩
  | delete =>
    cases hsome : e.buffer.delete?.isSome with
    | true => exact .inl ⟨hsome, Editor.evaluated_delete h hsome⟩
    | false => exact .inr ⟨hsome, Editor.samePass_delete hsome⟩
  | setContent text => exact .inl ⟨rfl, Editor.evaluated_recalculate h⟩
  | loaded outcome =>
    cases outcome with
    | ok loaded =>
      have hpass : Editor.Evaluated s (e.setContent s loaded.1) := Editor.evaluated_recalculate h
      exact .inl ⟨rfl, hpass.of_samePass ⟨rfl, rfl, rfl⟩⟩
    | error reason => exact .inr ⟨rfl, rfl, rfl, rfl⟩
  | saved outcome =>
    right
    cases outcome <;> exact ⟨rfl, rfl, rfl, rfl⟩
  | press control key =>
    rw [runsPass, apply, Editor.press]
    cases hmode : e.mode with
    | editing =>
      cases control with
      | true => exact .inr ⟨rfl, Editor.samePass_pressControl s key e⟩
      | false =>
        cases hkey : key.edits e.buffer with
        | true => exact .inl ⟨rfl, Editor.evaluated_pressEditing h hkey⟩
        | false => exact .inr ⟨rfl, Editor.samePass_pressEditing hkey⟩
    | help => exact .inr ⟨rfl, Editor.samePass_pressHelp key e⟩
    | prompt purpose input => exact .inr ⟨rfl, Editor.samePass_pressPrompt purpose input key e⟩
  | refresh =>
    rw [runsPass, apply, Editor.refresh]
    by_cases hstatus : s.registry.status = e.evaluatedWith
    · rw [if_pos hstatus]
      exact .inr ⟨by simp [hstatus], Editor.SamePass.refl e⟩
    · rw [if_neg hstatus]
      exact .inl ⟨by simp [hstatus], Editor.evaluated_recalculate h⟩

end Operation

/-! ### Runs -/

/-- An editor and the currencies that are known while it is open. -/
structure Desk where
  editor : Editor
  registry : Registry Float
  /-- The currencies that were known when the last pass started; before the first pass, those that
  were known when the editor was opened. No operation looks at them. -/
  atPass : Registry Float

namespace Desk

/-- What can happen. -/
inductive Event where
  /-- Loading the currencies goes on between two operations. -/
  | currency (event : CurrencyEvent Float)
  /-- Somebody operates the editor, and meanwhile loading goes on: the first events of `during` take
  effect after the pass has started and before its first line, the next ones before its second line,
  and so on. -/
  | operate (op : Operation) (during : List (List (CurrencyEvent Float)))

variable (engine : Engine Float) (format : Format) (now : Date)

/-- What an operation finds around the editor, if loading goes on during it. -/
def surroundings (d : Desk) (during : List (List (CurrencyEvent Float))) : Surroundings where
  engine
  format
  now
  registry := d.registry
  during index := d.registry.afterAll (during.take (index + 1)).flatten

/-- The desk after an event. -/
def step (d : Desk) : Event → Desk
  | .currency event => { d with registry := d.registry.after event }
  | .operate op during =>
    let s := d.surroundings engine format now during
    { editor := op.apply s d.editor
      registry := d.registry.afterAll during.flatten
      atPass := if op.runsPass s d.editor then d.registry else d.atPass }

/-- A desk with an editor that has just been opened. -/
def opened (registry : Registry Float) : Desk :=
  ⟨.new { engine, format, now, registry }, registry, registry⟩

/-- The desk after a run that begins with opening the editor. -/
def run (registry : Registry Float) (events : List Event) : Desk :=
  events.foldl (step engine format now) (opened engine format now registry)

/-- The results are those of evaluating the lines anew, with the currencies that are known now. -/
def UpToDate (d : Desk) : Prop :=
  d.editor.notebook.results =
    ((Notebook.new engine.limits).evaluate engine d.registry now d.editor.lines).results

/-- **The invariant of a run.** -/
structure Tracked (d : Desk) : Prop where
  sound : Notebook.Sound engine.limits d.editor.notebook.reader
  evaluatedWith : d.editor.evaluatedWith = d.atPass.status
  since : ∃ events, d.registry = d.atPass.afterAll events
  upToDate : d.registry.status = d.atPass.status → d.UpToDate engine now

variable {engine format now} {d : Desk}

/-- Evaluating anew gives the same with currencies that have not moved. -/
theorem evaluate_congr {r r' : Registry Float} (h : r.lookup = r'.lookup) (lines : List String) :
    (Notebook.new engine.limits).evaluate engine r now lines =
      (Notebook.new engine.limits).evaluate engine r' now lines := by
  rw [Notebook.evaluate, Notebook.evaluate]
  exact Notebook.evaluateFrom_congr (fun _ ↦ h) _ _ _ _

theorem afterAll_append (registry : Registry Float) (events more : List (CurrencyEvent Float)) :
    registry.afterAll (events ++ more) = (registry.afterAll events).afterAll more :=
  List.foldl_append

/-- Events of loading, with operations that leave the results alone, keep the invariant. -/
theorem Tracked.of_samePass (h : d.Tracked engine now) {e : Editor}
    (he : Editor.SamePass d.editor e) (events : List (CurrencyEvent Float)) :
    Tracked engine now ⟨e, d.registry.afterAll events, d.atPass⟩ := by
  obtain ⟨earlier, hearlier⟩ := h.since
  refine ⟨?_, ?_, ⟨earlier ++ events, ?_⟩, fun hstatus ↦ ?_⟩
  · rw [he.notebook]
    exact h.sound
  · rw [he.evaluatedWith]
    exact h.evaluatedWith
  · rw [afterAll_append, ← hearlier]
  · -- No event since the pass has led to another stage, neither these nor the earlier ones.
    have hbefore : d.registry.status = d.atPass.status := by
      rw [hearlier, ← afterAll_append] at hstatus
      rw [hearlier]
      exact (Registry.unmoved_of_status_append_eq hstatus).status
    have hunmoved := Registry.unmoved_of_status_eq (hstatus.trans hbefore.symm)
    rw [UpToDate, he.notebook, he.lines, evaluate_congr hunmoved.lookup]
    exact h.upToDate hbefore

/-- An operation that runs a pass establishes the invariant anew, whatever happens during the
pass. -/
theorem tracked_of_evaluated {e : Editor} (during : List (List (CurrencyEvent Float)))
    (he : Editor.Evaluated (d.surroundings engine format now during) e) :
    Tracked engine now ⟨e, d.registry.afterAll during.flatten, d.registry⟩ := by
  refine ⟨he.sound, he.evaluatedWith, ⟨during.flatten, rfl⟩, fun hstatus ↦ ?_⟩
  obtain ⟨reader, hreader, hnotebook⟩ := he.notebook
  -- At every line the pass could look up what can be looked up now.
  have hlookup : ∀ index, (d.registry.afterAll (during.take (index + 1)).flatten).lookup =
      (d.registry.afterAll during.flatten).lookup := by
    intro index
    have hflatten :
        during.flatten = (during.take (index + 1)).flatten ++ (during.drop (index + 1)).flatten := by
      rw [← List.flatten_append, List.take_append_drop]
    have hall := Registry.unmoved_of_status_eq hstatus
    rw [hflatten] at hstatus
    exact (Registry.unmoved_of_status_append_eq hstatus).lookup.trans hall.lookup.symm
  have hpass : Notebook.evaluateFrom engine
      (fun index ↦ d.registry.afterAll (during.take (index + 1)).flatten) 0 reader
      (Scope.atInstant now) e.lines =
        Notebook.evaluate ⟨reader, [], .empty⟩ engine (d.registry.afterAll during.flatten) now
          e.lines :=
    Notebook.evaluateFrom_congr hlookup 0 reader (Scope.atInstant now) e.lines
  have hsheet : (Notebook.evaluate ⟨reader, [], .empty⟩ engine (d.registry.afterAll during.flatten)
      now e.lines).sheet = ((Notebook.new engine.limits).evaluate engine
        (d.registry.afterAll during.flatten) now e.lines).sheet :=
    (hreader.sheet_evaluate _ now e.lines).trans
      ((Notebook.sound_new engine.limits).sheet_evaluate _ now e.lines).symm
  rw [UpToDate, hnotebook]
  exact (congrArg Notebook.results hpass).trans (congrArg Sheet.results hsheet)

theorem tracked_opened (registry : Registry Float) :
    (opened engine format now registry).Tracked engine now := by
  -- The text is one blank line, which has no result.
  have hline : Notebook.evaluateLine ⟨engine, registry⟩
      (Notebook.new (K := Float) engine.limits).reader (Scope.atInstant now) "" =
        (none, (Notebook.new engine.limits).reader, Scope.atInstant now) := by
    have hblank : (Text.trim "").isEmpty = true := rfl
    rw [Notebook.evaluateLine]
    dsimp only
    rw [if_pos hblank]
  have hlines : (opened engine format now registry).editor.lines = [""] := rfl
  refine ⟨Notebook.sound_new engine.limits, rfl, ⟨[], rfl⟩, fun _ ↦ ?_⟩
  rw [UpToDate, hlines, Notebook.evaluate, Notebook.evaluateFrom_cons]
  dsimp only [opened]
  rw [hline]
  rfl

theorem Tracked.step (h : d.Tracked engine now) (event : Event) :
    (d.step engine format now event).Tracked engine now := by
  cases event with
  | currency event => exact h.of_samePass (Editor.SamePass.refl d.editor) [event]
  | operate op during =>
    have hsound : Notebook.Sound (d.surroundings engine format now during).engine.limits
      d.editor.notebook.reader := h.sound
    rcases Operation.apply_cases hsound op with ⟨hruns, hpass⟩ | ⟨hruns, hsame⟩
    · rw [Desk.step, if_pos hruns]
      exact tracked_of_evaluated during hpass
    · rw [Desk.step, if_neg (by rw [hruns]; exact Bool.false_ne_true)]
      exact h.of_samePass hsame during.flatten

theorem tracked_run (registry : Registry Float) (events : List Event) :
    (run engine format now registry events).Tracked engine now := by
  unfold run
  induction events using List.reverseRecOn with
  | nil => exact tracked_opened registry
  | append_singleton earlier event ih =>
    rw [List.foldl_append, List.foldl_cons, List.foldl_nil]
    exact ih.step event

/-- **The editor never shows stale results.** After any run that begins with opening the editor,
with events of loading between and during its operations:

* if loading does not come to another stage while the editor is refreshed, then the results are those
  of evaluating the lines anew with the currencies that are known now;
* if loading has not come to another stage since the last pass started, then refreshing finds nothing
  to do, and the results are those ones already. -/
theorem never_stale (engine : Engine Float) (format : Format) (now : Date)
    (registry : Registry Float) (events : List Event) :
    let d := run engine format now registry events
    (∀ during, (d.registry.afterAll during.flatten).status = d.registry.status →
      (d.step engine format now (.operate .refresh during)).UpToDate engine now) ∧
    (d.registry.status = d.atPass.status →
      (d.editor.refresh (d.surroundings engine format now [])).1 = false ∧
        d.UpToDate engine now) := by
  intro d
  have h : d.Tracked engine now := tracked_run registry events
  refine ⟨fun during hstatus ↦ ?_, fun hstatus ↦ ⟨?_, h.upToDate hstatus⟩⟩
  · refine (h.step (.operate .refresh during)).upToDate ?_
    rw [step]
    dsimp only
    by_cases hsame : d.registry.status = d.editor.evaluatedWith
    · rw [if_neg (by simp [Operation.runsPass, surroundings, hsame])]
      exact hstatus.trans (hsame.trans h.evaluatedWith)
    · rw [if_pos (by simp [Operation.runsPass, surroundings, hsame])]
      exact hstatus
  · rw [Editor.refresh, if_pos]
    exact hstatus.trans h.evaluatedWith.symm

end Desk

end Reckoner
