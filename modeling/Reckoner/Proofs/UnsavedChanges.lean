import Reckoner.Editor.Session
import Reckoner.Proofs.FreshResults

/-!
# Unsaved changes are marked

A text that is not marked as changed is the text on file: its lines are those that there were when it
was last loaded or saved, or when the editor was opened (`Editor.changes_are_marked`).

What is on file depends on the whole history of keys, so a run is followed together with a record of it
(`Chronicle`): the lines on file, and the editor as it was before the prompt that is open now. Two facts
about a single key carry the record along. A key that neither saves nor loads either marks the text as
changed or leaves both lines and mark alone (`Editor.strike_cases`), and a key after which a prompt is
open has not touched the document (`Editor.sameDocument_of_purpose?`).

Whatever the system answers is allowed here; the keys of a session are the special case in which it is a
folder and a clipboard that answer (`Session.exists_keystroke`).
-/

namespace Reckoner

/-- What the prompt of a mode is for, if there is one. -/
def Mode.purpose? : Mode → Option Purpose
  | .prompt purpose _ => some purpose
  | _ => none

/-- A key, with all that its effect depends on: what the editor finds around it, and how the system
answers the request that the key may make. -/
structure Keystroke where
  key : Key
  control : Bool
  surroundings : Surroundings
  /-- Why a file cannot be written, if it cannot. -/
  writing : Except String Unit
  /-- What a file says, or why it cannot be read. -/
  reading : Except String String
  /-- Why a text cannot be copied, if it cannot. -/
  copying : Except String Unit

namespace Keystroke

/-- What the system answers to a request. -/
def reply (k : Keystroke) : (request : Request) → Except String request.Reply
  | .save _ _ => k.writing
  | .load _ => k.reading
  | .copy _ => k.copying

/-- Whether the system can do what a prompt is for. -/
def succeeds (k : Keystroke) : Purpose → Bool
  | .save => k.writing.isOk
  | .load => k.reading.isOk

/-- The key confirms a prompt, and the system does what it is for. -/
def Completes (k : Keystroke) (e : Editor) (purpose : Purpose) : Prop :=
  e.mode.purpose? = some purpose ∧ k.key = .enter ∧ k.succeeds purpose = true

/-- The key cancels a prompt, or confirms it in vain. -/
def Abandons (k : Keystroke) (e : Editor) : Prop :=
  ∃ purpose, e.mode.purpose? = some purpose ∧
    (k.key = .escape ∨ (k.key = .enter ∧ k.succeeds purpose = false))

instance (k : Keystroke) (e : Editor) (purpose : Purpose) : Decidable (k.Completes e purpose) :=
  inferInstanceAs (Decidable (_ ∧ _))

end Keystroke

namespace Editor

/-- **What a key does**, the answer to its request included. -/
def strike (k : Keystroke) (e : Editor) : Editor :=
  match e.press k.surroundings k.control k.key with
  | (e, none) => e
  | (e, some request) => e.answered k.surroundings request (k.reply request)

/-- Two editors have the same document: lines and cursor, the part that is shown, file name, mark of
changes, and results. -/
structure SameDocument (e e' : Editor) : Prop where
  buffer : e'.buffer = e.buffer
  scroll : e'.scroll = e.scroll
  filename : e'.filename = e.filename
  dirty : e'.dirty = e.dirty
  notebook : e'.notebook = e.notebook

theorem SameDocument.refl (e : Editor) : SameDocument e e := ⟨rfl, rfl, rfl, rfl, rfl⟩

theorem SameDocument.trans {e e' e'' : Editor} (h : SameDocument e e') (h' : SameDocument e' e'') :
    SameDocument e e'' where
  buffer := h'.buffer.trans h.buffer
  scroll := h'.scroll.trans h.scroll
  filename := h'.filename.trans h.filename
  dirty := h'.dirty.trans h.dirty
  notebook := h'.notebook.trans h.notebook

theorem SameDocument.lines {e e' : Editor} (h : SameDocument e e') : e'.lines = e.lines :=
  congrArg Buffer.lines h.buffer

/-- What comes of copying is only told. -/
theorem sameDocument_copied (e : Editor) (outcome : Except String String) :
    SameDocument e (e.copied outcome) := by
  cases outcome <;> exact ⟨rfl, rfl, rfl, rfl, rfl⟩

/-! ### Keys while the text is edited -/

section Editing

variable {s : Surroundings} {e : Editor}

theorem reveal_eq (e : Editor) : ∃ scroll, e.reveal = { e with scroll } := by
  unfold reveal
  dsimp only
  split
  · exact ⟨_, rfl⟩
  · split <;> exact ⟨_, rfl⟩

theorem move_eq (f : Buffer → Buffer) (e : Editor) :
    ∃ buffer scroll, e.move f = { e with buffer, scroll } := by
  obtain ⟨scroll, hscroll⟩ := reveal_eq { e with buffer := f e.buffer }
  exact ⟨_, scroll, hscroll⟩

theorem movePage_fields (f : Buffer → Buffer) (available : Nat) (e : Editor) :
    ∃ buffer scroll, e.movePage f available = { e with buffer, scroll } := by
  have hrepeat : ∀ n, ∃ buffer scroll, Nat.repeat (move f) n e = { e with buffer, scroll } := by
    intro n
    induction n with
    | zero => exact ⟨e.buffer, e.scroll, rfl⟩
    | succ n ih =>
      obtain ⟨buffer, scroll, hn⟩ := ih
      obtain ⟨buffer', scroll', hmove⟩ := move_eq f { e with buffer, scroll }
      refine ⟨buffer', scroll', ?_⟩
      rw [Nat.repeat, hn, hmove]
  obtain ⟨buffer, scroll, hpage⟩ := hrepeat (min (max e.viewport 1) available)
  obtain ⟨scroll', hreveal⟩ := reveal_eq { e with buffer, scroll }
  exact ⟨buffer, scroll', by rw [movePage, hpage, hreveal]⟩

/-- A key that changes the text marks it as changed, and shows no prompt. -/
theorem dirty_pressEditing {key : Key} (hkey : key.edits e.buffer = true) :
    (e.pressEditing s key).dirty = true ∧ (e.pressEditing s key).mode = e.mode := by
  have hreveal (e : Editor) : e.reveal.mode = e.mode := by
    obtain ⟨scroll, h⟩ := reveal_eq e
    rw [h]
  cases key with
  | char c => exact ⟨rfl, rfl⟩
  | tab => exact ⟨rfl, rfl⟩
  | enter => exact ⟨rfl, hreveal _⟩
  | backspace =>
    obtain ⟨buffer, hsome⟩ := Option.isSome_iff_exists.1 hkey
    show (e.backspace s).dirty = true ∧ (e.backspace s).mode = e.mode
    rw [backspace, hsome]
    dsimp only
    split
    · exact ⟨rfl, hreveal _⟩
    · exact ⟨rfl, rfl⟩
  | delete =>
    obtain ⟨buffer, hsome⟩ := Option.isSome_iff_exists.1 hkey
    show (e.delete s).dirty = true ∧ (e.delete s).mode = e.mode
    rw [delete, hsome]
    exact ⟨rfl, rfl⟩
  | _ => exact absurd hkey Bool.false_ne_true

/-- Any other key leaves the mark alone, and shows no prompt either. -/
theorem dirty_pressEditing_of_not_edits {key : Key} (hkey : key.edits e.buffer = false) :
    (e.pressEditing s key).dirty = e.dirty ∧
      ((e.pressEditing s key).mode = e.mode ∨ (e.pressEditing s key).mode = .help) := by
  have hmoved {e' : Editor} (h : ∃ buffer scroll, e' = { e with buffer, scroll }) :
      e'.dirty = e.dirty ∧ (e'.mode = e.mode ∨ e'.mode = .help) := by
    obtain ⟨buffer, scroll, rfl⟩ := h
    exact ⟨rfl, .inl rfl⟩
  cases key with
  | char c => exact absurd hkey.symm Bool.false_ne_true
  | tab => exact absurd hkey.symm Bool.false_ne_true
  | enter => exact absurd hkey.symm Bool.false_ne_true
  | backspace =>
    have hnone : e.buffer.backspace? = none := Option.isNone_iff_eq_none.1 (Option.isSome_eq_false_iff.1 hkey)
    have hsame : e.backspace s = e := by rw [backspace, hnone]
    exact ⟨congrArg dirty hsame, .inl (congrArg mode hsame)⟩
  | delete =>
    have hnone : e.buffer.delete? = none := Option.isNone_iff_eq_none.1 (Option.isSome_eq_false_iff.1 hkey)
    have hsame : e.delete s = e := by rw [delete, hnone]
    exact ⟨congrArg dirty hsame, .inl (congrArg mode hsame)⟩
  | left => exact hmoved (move_eq _ e)
  | right => exact hmoved (move_eq _ e)
  | up => exact hmoved (move_eq _ e)
  | down => exact hmoved (move_eq _ e)
  | home => exact ⟨rfl, .inl rfl⟩
  | lineEnd => exact ⟨rfl, .inl rfl⟩
  | pageUp => exact hmoved (movePage_fields _ _ e)
  | pageDown => exact hmoved (movePage_fields _ _ e)
  | escape => exact ⟨rfl, .inl rfl⟩
  | insert => exact ⟨rfl, .inl rfl⟩
  | function n =>
    obtain _ | _ | n := n
    · exact ⟨rfl, .inl rfl⟩
    · exact ⟨rfl, .inr rfl⟩
    · exact ⟨rfl, .inl rfl⟩

end Editing

/-! ### Keys in any mode -/

section Strike

variable {k : Keystroke} {e : Editor}

theorem purpose?_eq_some {purpose : Purpose} (h : e.mode.purpose? = some purpose) :
    ∃ input, e.mode = .prompt purpose input := by
  cases hmode : e.mode with
  | editing => rw [hmode] at h; exact nomatch h
  | help => rw [hmode] at h; exact nomatch h
  | prompt purpose' input =>
    rw [hmode] at h
    obtain rfl := Option.some.inj h
    exact ⟨input, rfl⟩

/-- Any key but the one that confirms a prompt acts on the prompt alone. -/
theorem pressPrompt_eq {key : Key} (h : key ≠ .enter) (e : Editor) (purpose : Purpose)
    (input : CursorLine) : ∃ mode, e.pressPrompt purpose input key = ({ e with mode }, none) := by
  unfold pressPrompt
  split
  · exact absurd rfl h
  · exact absurd rfl h
  · exact ⟨_, rfl⟩
  · exact ⟨_, rfl⟩

theorem strike_save {input : CursorLine} (hmode : e.mode = .prompt .save input)
    (hkey : k.key = .enter) : e.strike k = e.saved (k.writing.map fun _ ↦ nameOf input) := by
  rw [strike, press, hmode, hkey]
  rfl

theorem strike_load {input : CursorLine} (hmode : e.mode = .prompt .load input)
    (hkey : k.key = .enter) :
    e.strike k = e.loaded k.surroundings (k.reading.map (·, nameOf input)) := by
  rw [strike, press, hmode, hkey]
  rfl

/-- What the system cannot do leaves the document alone and closes the prompt. -/
theorem strike_of_fails {purpose : Purpose} (hpurpose : e.mode.purpose? = some purpose)
    (hkey : k.key = .enter) (hfails : k.succeeds purpose = false) :
    SameDocument e (e.strike k) ∧ (e.strike k).mode = .editing := by
  obtain ⟨input, hmode⟩ := purpose?_eq_some hpurpose
  cases purpose with
  | save =>
    rw [strike_save hmode hkey]
    cases hwriting : k.writing with
    | ok => rw [Keystroke.succeeds, hwriting] at hfails; exact nomatch hfails
    | error reason => exact ⟨⟨rfl, rfl, rfl, rfl, rfl⟩, rfl⟩
  | load =>
    rw [strike_load hmode hkey]
    cases hreading : k.reading with
    | ok => rw [Keystroke.succeeds, hreading] at hfails; exact nomatch hfails
    | error reason => exact ⟨⟨rfl, rfl, rfl, rfl, rfl⟩, rfl⟩

theorem mode_of_completes {purpose : Purpose} (h : k.Completes e purpose) :
    (e.strike k).mode = .editing := by
  obtain ⟨hpurpose, hkey, -⟩ := h
  obtain ⟨input, hmode⟩ := purpose?_eq_some hpurpose
  cases purpose with
  | save =>
    rw [strike_save hmode hkey]
    rfl
  | load =>
    rw [strike_load hmode hkey]
    rfl

/-- **While a prompt is open**, a key that does not complete what it is for leaves the document alone. -/
theorem sameDocument_of_prompt {purpose : Purpose} (hpurpose : e.mode.purpose? = some purpose)
    (h : ¬k.Completes e purpose) : SameDocument e (e.strike k) := by
  by_cases hkey : k.key = .enter
  · have hfails : k.succeeds purpose = false :=
      Bool.eq_false_iff.2 fun hsucceeds ↦ h ⟨hpurpose, hkey, hsucceeds⟩
    exact (strike_of_fails hpurpose hkey hfails).1
  · obtain ⟨input, hmode⟩ := purpose?_eq_some hpurpose
    obtain ⟨mode, hpress⟩ := pressPrompt_eq hkey e purpose input
    rw [strike, press, hmode]
    dsimp only
    rw [hpress]
    exact ⟨rfl, rfl, rfl, rfl, rfl⟩

/-- **What is abandoned leaves no trace** but a message. -/
theorem sameDocument_of_abandons (h : k.Abandons e) :
    SameDocument e (e.strike k) ∧ (e.strike k).mode = .editing := by
  obtain ⟨purpose, hpurpose, hkey | ⟨hkey, hfails⟩⟩ := h
  · obtain ⟨input, hmode⟩ := purpose?_eq_some hpurpose
    rw [strike, press, hmode, hkey]
    exact ⟨⟨rfl, rfl, rfl, rfl, rfl⟩, rfl⟩
  · exact strike_of_fails hpurpose hkey hfails

theorem sameDocument_of_help (hmode : e.mode = .help) : SameDocument e (e.strike k) := by
  rw [strike, press, hmode]
  dsimp only
  unfold pressHelp
  split <;> exact ⟨rfl, rfl, rfl, rfl, rfl⟩

/-- With control, a character opens a prompt, shows a message, or asks for a text to be copied. -/
theorem pressControl_char (s : Surroundings) (c : Char) (e : Editor) :
    ∃ e', SameDocument e e' ∧ (e.pressControl s (.char c) = (e', none) ∨
      ∃ text, e.pressControl s (.char c) = (e', some (.copy text))) := by
  unfold pressControl
  split
  · exact ⟨e.ask .save, ⟨rfl, rfl, rfl, rfl, rfl⟩, .inl rfl⟩
  · exact ⟨e.ask .load, ⟨rfl, rfl, rfl, rfl, rfl⟩, .inl rfl⟩
  · split
    · exact ⟨e, SameDocument.refl e, .inr ⟨_, rfl⟩⟩
    · exact ⟨{ e with message := some "Nothing to copy on this line" }, ⟨rfl, rfl, rfl, rfl, rfl⟩,
        .inl rfl⟩
  · contradiction
  · contradiction
  · exact ⟨e, SameDocument.refl e, .inl rfl⟩

/-- With control, a key leaves the document alone, or it moves the cursor. -/
theorem strike_control (hmode : e.mode = .editing) (hcontrol : k.control = true) :
    SameDocument e (e.strike k) ∨ ∃ buffer scroll,
      buffer.lines = e.lines ∧ e.strike k = { e with buffer, scroll } := by
  have hmove {f : Buffer → Buffer} (hf : ∀ b, (f b).rows = b.rows) :
      ∃ buffer scroll, buffer.lines = e.lines ∧ e.move f = { e with buffer, scroll } := by
    obtain ⟨scroll, hscroll⟩ := reveal_eq { e with buffer := f e.buffer }
    exact ⟨f e.buffer, scroll, congrArg (List.map String.ofList) (hf e.buffer), hscroll⟩
  have hpress : e.press k.surroundings k.control k.key = e.pressControl k.surroundings k.key := by
    rw [press, hmode]
    dsimp only
    rw [if_pos hcontrol]
  rw [strike, hpress]
  cases hkey : k.key with
  | home => exact .inr (hmove Buffer.rows_toStart)
  | lineEnd => exact .inr (hmove Buffer.rows_toEnd)
  | char c =>
    left
    obtain ⟨e', hsame, hnone | ⟨text, hcopy⟩⟩ := pressControl_char k.surroundings c e
    · rw [hnone]
      exact hsame
    · rw [hcopy]
      exact hsame.trans (sameDocument_copied e' _)
  | _ => exact .inl (SameDocument.refl e)

theorem strike_editing (hmode : e.mode = .editing) (hcontrol : k.control = false) :
    e.strike k = e.pressEditing k.surroundings k.key := by
  rw [strike, press, hmode]
  dsimp only
  rw [if_neg (Bool.eq_false_iff.1 hcontrol)]

/-- A key after which a prompt is open has not touched the document. -/
theorem sameDocument_of_purpose? (h : (e.strike k).mode.purpose? ≠ none) :
    SameDocument e (e.strike k) := by
  cases hmode : e.mode with
  | editing =>
    cases hcontrol : k.control with
    | true =>
      obtain hsame | ⟨buffer, scroll, -, heq⟩ := strike_control hmode hcontrol
      · exact hsame
      · rw [heq] at h
        exact absurd (congrArg Mode.purpose? hmode) h
    | false =>
      rw [strike_editing hmode hcontrol] at h
      cases hkey : k.key.edits e.buffer with
      | true =>
        rw [(dirty_pressEditing hkey).2] at h
        exact absurd (congrArg Mode.purpose? hmode) h
      | false =>
        obtain ⟨-, hsame | hhelp⟩ := dirty_pressEditing_of_not_edits (s := k.surroundings) hkey
        · rw [hsame] at h
          exact absurd (congrArg Mode.purpose? hmode) h
        · rw [hhelp] at h
          exact absurd rfl h
  | help => exact sameDocument_of_help hmode
  | prompt purpose input =>
    have hpurpose : e.mode.purpose? = some purpose := congrArg Mode.purpose? hmode
    refine sameDocument_of_prompt hpurpose fun hcompletes ↦ h ?_
    rw [mode_of_completes hcompletes]
    rfl

/-- **What a key can do** that neither saves nor loads: mark the text as changed, which takes a key
without control while the text is edited, or leave both lines and mark alone. -/
theorem strike_cases (h : ∀ purpose, ¬k.Completes e purpose) :
    ((e.strike k).dirty = true ∧ e.mode = .editing ∧ k.control = false) ∨
      ((e.strike k).lines = e.lines ∧ (e.strike k).dirty = e.dirty) := by
  cases hmode : e.mode with
  | editing =>
    cases hcontrol : k.control with
    | true =>
      right
      obtain hsame | ⟨buffer, scroll, hlines, heq⟩ := strike_control hmode hcontrol
      · exact ⟨hsame.lines, hsame.dirty⟩
      · rw [heq]
        exact ⟨hlines, rfl⟩
    | false =>
      rw [strike_editing hmode hcontrol]
      cases hkey : k.key.edits e.buffer with
      | true => exact .inl ⟨(dirty_pressEditing hkey).1, rfl, rfl⟩
      | false =>
        exact .inr ⟨(samePass_pressEditing hkey).lines, (dirty_pressEditing_of_not_edits hkey).1⟩
  | help =>
    have hsame : SameDocument e (e.strike k) := sameDocument_of_help hmode
    exact .inr ⟨hsame.lines, hsame.dirty⟩
  | prompt purpose input =>
    have hsame := sameDocument_of_prompt (congrArg Mode.purpose? hmode) (h purpose)
    exact .inr ⟨hsame.lines, hsame.dirty⟩

/-- A saved text has the lines that it had. -/
theorem lines_of_completes_save (h : k.Completes e .save) : (e.strike k).lines = e.lines := by
  obtain ⟨hpurpose, hkey, -⟩ := h
  obtain ⟨input, hmode⟩ := purpose?_eq_some hpurpose
  rw [strike_save hmode hkey]
  cases k.writing <;> rfl

end Strike

end Editor

/-- **A key in a session** does what it does when the system answers as folder and clipboard of the
session do. -/
theorem Session.exists_keystroke (s : Surroundings) (control : Bool) (key : Key) (session : Session) :
    ∃ k : Keystroke, k.key = key ∧ k.control = control ∧ k.surroundings = s ∧
      (session.press s control key).editor = session.editor.strike k := by
  rw [press]
  rcases hpress : session.editor.press s control key with ⟨e, request⟩
  cases request with
  | none =>
    refine ⟨⟨key, control, s, .error "", .error "", .error ""⟩, rfl, rfl, rfl, ?_⟩
    rw [Editor.strike, hpress]
  | some request =>
    cases request with
    | save text name =>
      refine ⟨⟨key, control, s, (session.reply (.save text name)).1, .error "", .error ""⟩, rfl, rfl,
        rfl, ?_⟩
      rw [Editor.strike, hpress]
      rfl
    | load name =>
      refine ⟨⟨key, control, s, .error "", (session.reply (.load name)).1, .error ""⟩, rfl, rfl, rfl,
        ?_⟩
      rw [Editor.strike, hpress]
      rfl
    | copy text =>
      refine ⟨⟨key, control, s, .error "", .error "", session.clipboard⟩, rfl, rfl, rfl, ?_⟩
      rw [Editor.strike, hpress]
      rfl

/-! ### Runs -/

/-- An editor, and what there is to remember of the keys so far. -/
structure Chronicle where
  editor : Editor
  /-- The lines as they were after the last key that saved or loaded, or else when the editor was
  opened. -/
  onFile : List String
  /-- The editor when it last had no prompt: while a prompt is open, as it was before that. -/
  beforePrompt : Editor

namespace Chronicle

/-- A chronicle begins with an editor that has just been opened. -/
def opened (s : Surroundings) : Chronicle := ⟨.new s, (Editor.new s).lines, .new s⟩

/-- The chronicle after one more key. -/
def after (c : Chronicle) (k : Keystroke) : Chronicle where
  editor := c.editor.strike k
  onFile := if k.Completes c.editor .save ∨ k.Completes c.editor .load then (c.editor.strike k).lines
    else c.onFile
  beforePrompt := if (c.editor.strike k).mode.purpose? = none then c.editor.strike k
    else c.beforePrompt

/-- The chronicle of a run of keys. -/
def run (s : Surroundings) (keys : List Keystroke) : Chronicle := keys.foldl after (opened s)

/-- What holds at any time: a text that is not marked is on file, and an open prompt has left the
document as it was. -/
structure Faithful (c : Chronicle) : Prop where
  onFile : c.editor.dirty = false → c.editor.lines = c.onFile
  beforePrompt : Editor.SameDocument c.beforePrompt c.editor

theorem faithful_opened (s : Surroundings) : (opened s).Faithful :=
  ⟨fun _ ↦ rfl, Editor.SameDocument.refl _⟩

theorem Faithful.after {c : Chronicle} (h : c.Faithful) (k : Keystroke) : (c.after k).Faithful where
  onFile := by
    intro hclean
    show (c.editor.strike k).lines = if _ then _ else _
    by_cases hcompletes : k.Completes c.editor .save ∨ k.Completes c.editor .load
    · rw [if_pos hcompletes]
    · rw [if_neg hcompletes]
      have hneither : ∀ purpose, ¬k.Completes c.editor purpose := by
        intro purpose hpurpose
        cases purpose with
        | save => exact hcompletes (.inl hpurpose)
        | load => exact hcompletes (.inr hpurpose)
      obtain ⟨hdirty, -⟩ | ⟨hlines, hsame⟩ := Editor.strike_cases hneither
      · exact absurd (hdirty.symm.trans hclean) (by decide)
      · rw [hlines]
        exact h.onFile (hsame.symm.trans hclean)
  beforePrompt := by
    show Editor.SameDocument (if _ then _ else _) (c.editor.strike k)
    by_cases hprompt : (c.editor.strike k).mode.purpose? = none
    · rw [if_pos hprompt]
      exact Editor.SameDocument.refl _
    · rw [if_neg hprompt]
      exact h.beforePrompt.trans (Editor.sameDocument_of_purpose? hprompt)

theorem faithful_run (s : Surroundings) (keys : List Keystroke) : (run s keys).Faithful := by
  induction keys using List.reverseRecOn with
  | nil => exact faithful_opened s
  | append_singleton keys k ih =>
    rw [run, List.foldl_concat]
    exact ih.after k

end Chronicle

/-- **Changes are marked, and prompts that come to nothing change nothing.** After any run of keys, in
any surroundings and whatever the system answers: a text without a mark has the lines that were last on
file; the next key can only change the lines if it is one without control while the text is edited, or
if it loads a file; and if it abandons a prompt, then the document is as it was before that. -/
theorem Editor.changes_are_marked (s : Surroundings) (keys : List Keystroke) (k : Keystroke) :
    let c := Chronicle.run s keys
    (c.editor.dirty = false → c.editor.lines = c.onFile) ∧
      ((c.editor.strike k).lines ≠ c.editor.lines →
        (c.editor.mode = .editing ∧ k.control = false) ∨ k.Completes c.editor .load) ∧
      (k.Abandons c.editor →
        (c.editor.strike k).mode = .editing ∧ SameDocument c.beforePrompt (c.editor.strike k)) := by
  have h := Chronicle.faithful_run s keys
  refine ⟨h.onFile, fun hchange ↦ ?_, fun habandons ↦ ?_⟩
  · refine or_iff_not_imp_right.2 fun hload ↦ ?_
    have hsave : ¬k.Completes (Chronicle.run s keys).editor .save :=
      fun hsave ↦ hchange (lines_of_completes_save hsave)
    have hneither : ∀ purpose, ¬k.Completes (Chronicle.run s keys).editor purpose := by
      intro purpose
      cases purpose with
      | save => exact hsave
      | load => exact hload
    obtain ⟨-, hedits⟩ | ⟨hlines, -⟩ := strike_cases hneither
    · exact hedits
    · exact absurd hlines hchange
  · obtain ⟨hsame, hmode⟩ := sameDocument_of_abandons habandons
    exact ⟨hmode, h.beforePrompt.trans hsame⟩

end Reckoner
