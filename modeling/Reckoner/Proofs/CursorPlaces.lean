import Mathlib.Data.List.Basic
import Reckoner.Editor.View
import Reckoner.Proofs.CheckedCursor
import Reckoner.Proofs.FlatText

/-!
# The cursor never leaves the text

The editor as it is used: keys in any mode, texts and files that come in, screens that change their
size, and the drawing of the text. Here all its places are followed through such a run by their numbers
(`Places`): row and column of the cursor, the first line that is shown, and the cursor of the prompt.
Every step that is only right within a range is checked, those of the text (`TextCaret`), those of the
prompt (`LineCaret`), and the subtractions of rows that scrolling and drawing do (`Places.reveal?`,
`Places.render?`).

No check ever fails, and the numbers are always those of the editor (`places_after`). That the cursor is
within its line and in one of the lines is then a property of the data that the editor keeps. What is a
property of runs is that no line with the cursor is above the first line that is shown
(`scroll_le_after`): an operation keeps the row, or shows the line with the cursor, or starts with a new
text.
-/

namespace Reckoner

/-! ### Showing the line with the cursor -/

namespace Editor

/-- The line with the cursor is among those that can be shown. -/
structure InView (e : Editor) : Prop where
  scroll_le : e.scroll ≤ e.buffer.row
  row_lt : e.buffer.row < e.scroll + max e.viewport 1

theorem inView_reveal (e : Editor) : e.reveal.InView := by
  rw [reveal]
  split
  · exact ⟨Nat.le_refl _, by dsimp only; omega⟩
  · split
    · exact ⟨by dsimp only; omega, by dsimp only; omega⟩
    · exact ⟨by omega, by omega⟩

/-- Nothing is scrolled if the line is shown already. -/
theorem reveal_of_inView {e : Editor} (h : e.InView) : e.reveal = e := by
  have hscroll := h.scroll_le
  have hrow := h.row_lt
  rw [reveal, if_neg (by omega), if_neg (by omega)]

theorem reveal_reveal (e : Editor) : e.reveal.reveal = e.reveal := reveal_of_inView e.inView_reveal

/-- Moves that run out of lines after `n` steps do nothing more than show the line with the cursor. -/
theorem repeat_move_add {f : Buffer → Buffer} {n : Nat} {e : Editor}
    (hend : f (Nat.repeat (move f) n e).buffer = (Nat.repeat (move f) n e).buffer) (k : Nat) :
    Nat.repeat (move f) (n + (k + 1)) e = (Nat.repeat (move f) n e).reveal := by
  have hmove : ∀ e' : Editor, f e'.buffer = e'.buffer → e'.move f = e'.reveal := by
    intro e' h
    rw [move, h]
  induction k with
  | zero => exact hmove _ hend
  | succ k ih =>
    show (Nat.repeat (move f) (n + (k + 1)) e).move f = _
    rw [ih, hmove _ (by rw [buffer_reveal, hend]), reveal_reveal]

/-- **A page is as many moves as lines can be shown**, even if fewer lines are there. -/
theorem movePage_eq {f : Buffer → Buffer} (left : Buffer → Nat)
    (hleft : ∀ b, left (f b) = left b - 1) (hend : ∀ b, left b = 0 → f b = b) (e : Editor) :
    e.movePage f (left e.buffer) = Nat.repeat (move f) (max e.viewport 1) e := by
  have hcount : ∀ n, left (Nat.repeat (move f) n e).buffer = left e.buffer - n := by
    intro n
    induction n with
    | zero => rfl
    | succ n ih =>
      show left ((Nat.repeat (move f) n e).move f).buffer = _
      rw [buffer_move, hleft, ih, Nat.sub_sub]
  rw [movePage]
  obtain ⟨k, hk⟩ : ∃ k, max e.viewport 1 = k + 1 := ⟨max e.viewport 1 - 1, by omega⟩
  rcases Nat.lt_or_ge (left e.buffer) (max e.viewport 1) with hlt | hge
  · obtain ⟨m, hm⟩ := Nat.exists_eq_add_of_lt hlt
    rw [Nat.min_eq_right hlt.le, hm]
    exact (repeat_move_add (hend _ (by rw [hcount, Nat.sub_self])) m).symm
  · rw [Nat.min_eq_left hge, hk]
    exact reveal_reveal _

theorem pageUp_eq (e : Editor) : e.pageUp = Nat.repeat (move .up) (max e.viewport 1) e := by
  refine movePage_eq (fun b ↦ b.above.length) (fun b ↦ ?_) (fun b h ↦ ?_) e
  · obtain ⟨above, current, below⟩ := b
    cases above <;> rfl
  · rw [Buffer.up, List.eq_nil_of_length_eq_zero h]

theorem pageDown_eq (e : Editor) : e.pageDown = Nat.repeat (move .down) (max e.viewport 1) e := by
  refine movePage_eq (fun b ↦ b.below.length) (fun b ↦ ?_) (fun b h ↦ ?_) e
  · obtain ⟨above, current, below⟩ := b
    cases below <;> rfl
  · rw [Buffer.down, List.eq_nil_of_length_eq_zero h]

end Editor

/-! ### Places -/

/-- What the keys act on. -/
inductive Panel where
  | text
  | help
  | prompt (purpose : Purpose)
deriving DecidableEq

/-- **The places of the editor**, as numbers. -/
structure Places where
  text : TextCaret
  /-- The index of the first line that is shown. -/
  scroll : Nat
  /-- How many lines can be shown. -/
  viewport : Nat
  panel : Panel
  /-- The input of the prompt; without one it is empty. -/
  input : LineCaret
  filename : Option String
deriving DecidableEq

namespace Places

/-- Scrolls as little as needed for the line with the cursor to be shown. -/
def reveal? (p : Places) : Option Places :=
  let height := max p.viewport 1
  if p.text.row < p.scroll then some { p with scroll := p.text.row }
  else if p.scroll + height ≤ p.text.row then do
    let scroll ← Checked.sub (p.text.row + 1) height
    some { p with scroll }
  else some p

/-- Puts a character before the cursor. -/
def insert? (c : Char) (p : Places) : Option Places := do
  let text ← p.text.insert? c
  some { p with text }

/-- Breaks the line at the cursor. -/
def breakLine? (p : Places) : Option Places := do
  let text ← p.text.breakLine?
  reveal? { p with text }

/-- Takes away the character before the cursor. -/
def backspace? (p : Places) : Option Places := do
  let text ← p.text.backspace?
  if p.text.column = 0 ∧ 0 < p.text.row then reveal? { p with text } else some { p with text }

/-- Takes away the character after the cursor. -/
def delete? (p : Places) : Option Places := do
  let text ← p.text.delete?
  some { p with text }

/-- Moves the cursor within its line. -/
def moveInLine? (f : TextCaret → Option TextCaret) (p : Places) : Option Places := do
  let text ← f p.text
  some { p with text }

/-- Moves the cursor and shows its line. -/
def move? (f : TextCaret → Option TextCaret) (p : Places) : Option Places := do
  let p ← p.moveInLine? f
  p.reveal?

/-- Does the same several times. -/
def repeat? (f : Places → Option Places) : Nat → Places → Option Places
  | 0, p => some p
  | n + 1, p => do
    let p ← repeat? f n p
    f p

/-- Replaces the whole text; no line counts as one empty line. -/
def setContent (text : String) (p : Places) : Places :=
  let rows := Text.linesOfChars text.toList
  { p with text := ⟨if rows.isEmpty then [[]] else rows, 0, 0⟩, scroll := 0 }

/-- Asks for the name of a file. -/
def ask (purpose : Purpose) (p : Places) : Places :=
  let name := (p.filename.getD Editor.defaultFilename).toList
  { p with panel := .prompt purpose, input := ⟨name, name.length⟩ }

/-- Closes a prompt. -/
def close (p : Places) : Places := { p with panel := .text, input := ⟨[], 0⟩ }

/-- A key with control while the text is edited. -/
def pressControl? (key : Key) (p : Places) : Option Places :=
  match key with
  | .char 's' => some (p.ask .save)
  | .char 'o' => some (p.ask .load)
  | .home => p.move? fun t ↦ some t.toStart
  | .lineEnd => p.move? TextCaret.toEnd?
  | _ => some p

/-- A key without control while the text is edited. -/
def pressText? (key : Key) (p : Places) : Option Places :=
  match key with
  | .char c => p.insert? c
  | .tab => repeat? (insert? ' ') 4 p
  | .enter => p.breakLine?
  | .backspace => p.backspace?
  | .delete => p.delete?
  | .left => p.move? TextCaret.left?
  | .right => p.move? TextCaret.right?
  | .up => p.move? TextCaret.up?
  | .down => p.move? TextCaret.down?
  | .home => p.moveInLine? fun t ↦ some t.home
  | .lineEnd => p.moveInLine? TextCaret.lineEnd?
  | .pageUp => repeat? (move? TextCaret.up?) (max p.viewport 1) p
  | .pageDown => repeat? (move? TextCaret.down?) (max p.viewport 1) p
  | .function 1 => some { p with panel := .help }
  | _ => some p

/-- A key while help is shown. -/
def pressHelp (key : Key) (p : Places) : Places :=
  match key with
  | .escape | .function 1 | .char 'q' => { p with panel := .text }
  | _ => p

/-- The input of a prompt after a key that edits it. -/
def editInput? (key : Key) (input : LineCaret) : Option LineCaret :=
  match key with
  | .char c => input.insert? c
  | .backspace => input.backspace?
  | .left => input.left?
  | .right => some input.right
  | .home => some input.home
  | .lineEnd => some input.toEnd
  | _ => some input

/-- A key while a prompt is shown. -/
def pressPrompt? (key : Key) (p : Places) : Option Places :=
  match key with
  | .enter => some p
  | .escape => some p.close
  | key => do
    let input ← editInput? key p.input
    some { p with input }

/-- What a key does. -/
def press? (control : Bool) (key : Key) (p : Places) : Option Places :=
  match p.panel with
  | .text => if control then p.pressControl? key else p.pressText? key
  | .help => some (p.pressHelp key)
  | .prompt _ => p.pressPrompt? key

/-- What an operation does. -/
def operate? (p : Places) : Operation → Option Places
  | .insert c => p.insert? c
  | .breakLine => p.breakLine?
  | .backspace => p.backspace?
  | .delete => p.delete?
  | .setContent text => some (p.setContent text)
  | .loaded (.ok (text, name)) => some { p.setContent text with filename := some name }.close
  | .loaded (.error _) => some p.close
  | .saved (.ok name) => some { p with filename := some name }.close
  | .saved (.error _) => some p.close
  | .press control key => p.press? control key
  | .refresh => some p

/-- Draws the text into an area of some height: the places after it, the lines from the first one that
is shown to the last, and how far below the first one the cursor is. -/
def render? (height : Nat) (p : Places) : Option (Places × List (List Char) × Nat) := do
  let p ← reveal? { p with viewport := max height 1 }
  let last := min (p.scroll + p.viewport) p.text.rows.length
  let count ← Checked.sub last p.scroll
  let lines ← (List.range' p.scroll count).mapM fun index ↦ p.text.rows[index]?
  let offset ← Checked.sub p.text.row p.scroll
  some (p, lines, offset)

/-- **All places are valid.** -/
structure Valid (p : Places) : Prop where
  rows_ne_nil : p.text.rows ≠ []
  row_lt : p.text.row < p.text.rows.length
  column_le : ∀ line, p.text.rows[p.text.row]? = some line → p.text.column ≤ line.length
  scroll_le : p.scroll ≤ p.text.row
  input_le : p.input.column ≤ p.input.chars.length

end Places

/-! ### The places of the editor -/

/-- What the keys act on in a mode. -/
def Mode.panel : Mode → Panel
  | .editing => .text
  | .help => .help
  | .prompt purpose _ => .prompt purpose

namespace Editor

variable (s : Surroundings) (e : Editor)

/-- The places of the editor. -/
def places : Places where
  text := e.buffer.caret
  scroll := e.scroll
  viewport := e.viewport
  panel := e.mode.panel
  input := e.input.caret
  filename := e.filename

theorem places_reveal : e.places.reveal? = some e.reveal.places := by
  rw [Places.reveal?, reveal]
  split
  · rename_i hrow
    have hrow' : e.buffer.row < e.scroll := hrow
    rw [if_pos hrow']
    rfl
  · rename_i hrow
    have hrow' : ¬e.buffer.row < e.scroll := hrow
    rw [if_neg hrow']
    split
    · rename_i hheight
      have hheight' : e.scroll + max e.viewport 1 ≤ e.buffer.row := hheight
      rw [if_pos hheight']
      show (Checked.sub (e.buffer.row + 1) (max e.viewport 1)).bind _ = _
      rw [Checked.sub_eq_some (by omega)]
      rfl
    · rename_i hheight
      have hheight' : ¬e.scroll + max e.viewport 1 ≤ e.buffer.row := hheight
      rw [if_neg hheight']

theorem places_insert (c : Char) : e.places.insert? c = some (e.insert s c).places := by
  show (e.buffer.caret.insert? c).bind _ = _
  rw [Buffer.caret_insert]
  rfl

theorem places_breakLine : e.places.breakLine? = some (e.breakLine s).places := by
  show e.buffer.caret.breakLine?.bind _ = _
  rw [Buffer.caret_breakLine]
  exact places_reveal { e with buffer := e.buffer.breakLine }

theorem places_backspace : e.places.backspace? = some (e.backspace s).places := by
  show e.buffer.caret.backspace?.bind _ = _
  rw [Buffer.caret_backspace, Option.bind_some, backspace]
  have hstart : e.buffer.column = 0 → (e.buffer.backspace? = none ↔ e.buffer.row = 0) := by
    obtain ⟨above, ⟨before, after⟩, below⟩ := e.buffer
    intro hcolumn
    obtain rfl := List.eq_nil_of_length_eq_zero hcolumn
    cases above <;> simp [Buffer.backspace?, CursorLine.backspace?, Buffer.row]
  cases hb : e.buffer.backspace? with
  | none =>
    have hkeep : ¬(e.buffer.column = 0 ∧ 0 < e.buffer.row) := fun h ↦
      h.2.ne' ((hstart h.1).1 hb)
    exact if_neg hkeep
  | some b =>
    dsimp only
    by_cases hcolumn : e.buffer.column = 0
    · have hrow : 0 < e.buffer.row := Nat.pos_of_ne_zero fun h ↦ by
        rw [(hstart hcolumn).2 h] at hb
        contradiction
      rw [if_pos hcolumn]
      exact (if_pos ⟨hcolumn, hrow⟩).trans (places_reveal { e with buffer := b })
    · rw [if_neg hcolumn]
      exact if_neg fun h ↦ hcolumn h.1

theorem places_delete : e.places.delete? = some (e.delete s).places := by
  show e.buffer.caret.delete?.bind _ = _
  rw [Buffer.caret_delete, Option.bind_some, delete]
  cases e.buffer.delete? <;> rfl

section

variable {f : Buffer → Buffer} {g : TextCaret → Option TextCaret}
  (h : ∀ b : Buffer, g b.caret = some (f b).caret)

include h

theorem places_moveInLine : e.places.moveInLine? g = some (e.moveInLine f).places := by
  show (g e.buffer.caret).bind _ = _
  rw [h]
  rfl

theorem places_move : e.places.move? g = some (e.move f).places := by
  rw [Places.move?, e.places_moveInLine h]
  exact places_reveal _

end

theorem places_repeat {f : Editor → Editor} {g : Places → Option Places}
    (h : ∀ e : Editor, g e.places = some (f e).places) (n : Nat) :
    Places.repeat? g n e.places = some (Nat.repeat f n e).places := by
  induction n with
  | zero => rfl
  | succ n ih =>
    show (Places.repeat? g n e.places).bind g = _
    rw [ih]
    exact h _

theorem places_setContent (text : String) :
    (e.setContent s text).places = e.places.setContent text := by
  have hcaret : ∀ rows : List (List Char),
      (Buffer.ofLines rows).caret = ⟨if rows.isEmpty then [[]] else rows, 0, 0⟩ := by
    intro rows
    cases rows <;> rfl
  rw [Places.setContent, ← hcaret]
  rfl

theorem places_ask (purpose : Purpose) : (e.ask purpose).places = e.places.ask purpose := by
  have hcaret : ∀ cs : List Char, (CursorLine.atEnd cs).caret = ⟨cs, cs.length⟩ := by
    intro cs
    rw [CursorLine.caret, CursorLine.chars_atEnd]
    exact congrArg (LineCaret.mk cs) List.length_reverse
  rw [Places.ask, ← hcaret]
  rfl

/-! ### Keys -/

theorem places_pressControl (key : Key) :
    e.places.pressControl? key = some (e.pressControl s key).1.places := by
  unfold Places.pressControl?
  split
  · exact congrArg some (e.places_ask .save).symm
  · exact congrArg some (e.places_ask .load).symm
  · exact e.places_move (f := .toStart) fun b ↦ congrArg some b.caret_toStart
  · exact e.places_move Buffer.caret_toEnd
  · rename_i hsave hload hhome hend
    unfold pressControl
    split
    · exact (hsave rfl).elim
    · exact (hload rfl).elim
    · split <;> rfl
    · exact (hhome rfl).elim
    · exact (hend rfl).elim
    · rfl

/-- Only a prompt has an input. -/
theorem input_eq_empty (hmode : ∀ purpose input, e.mode ≠ .prompt purpose input) :
    e.input = .empty := by
  rw [input]
  split
  · rename_i purpose input h
    exact absurd h (hmode purpose input)
  · rfl

theorem places_pressEditing (hmode : e.mode = .editing) (key : Key) :
    e.places.pressText? key = some (e.pressEditing s key).places := by
  cases key with
  | char c => exact e.places_insert s c
  | tab => exact e.places_repeat (fun e ↦ e.places_insert s ' ') 4
  | enter => exact e.places_breakLine s
  | backspace => exact e.places_backspace s
  | delete => exact e.places_delete s
  | left => exact e.places_move Buffer.caret_left
  | right => exact e.places_move Buffer.caret_right
  | up => exact e.places_move Buffer.caret_up
  | down => exact e.places_move Buffer.caret_down
  | home =>
    exact e.places_moveInLine (f := .home) (g := fun t ↦ some t.home) fun b ↦
      congrArg some b.caret_home
  | lineEnd => exact e.places_moveInLine Buffer.caret_lineEnd
  | pageUp =>
    show _ = some e.pageUp.places
    rw [pageUp_eq]
    exact e.places_repeat (fun e ↦ e.places_move Buffer.caret_up) _
  | pageDown =>
    show _ = some e.pageDown.places
    rw [pageDown_eq]
    exact e.places_repeat (fun e ↦ e.places_move Buffer.caret_down) _
  | escape => rfl
  | insert => rfl
  | function n =>
    match n with
    | 1 =>
      have hinput : e.input = .empty := e.input_eq_empty (by simp [hmode])
      show some { e.places with panel := .help } = _
      rw [places, hinput]
      rfl
    | 0 | _ + 2 => rfl

theorem places_pressHelp (hmode : e.mode = .help) (key : Key) :
    e.places.pressHelp key = (e.pressHelp key).places := by
  have hclose : { e.places with panel := .text } = e.close.places := by
    rw [places, e.input_eq_empty (by simp [hmode])]
    rfl
  unfold Places.pressHelp
  split
  · exact hclose
  · exact hclose
  · exact hclose
  · rename_i hescape hfunction hq
    unfold pressHelp
    split
    · exact (hescape rfl).elim
    · exact (hfunction rfl).elim
    · exact (hq rfl).elim
    all_goals rfl

theorem caret_editInput (key : Key) (input : CursorLine) :
    Places.editInput? key input.caret = some (editInput key input).caret := by
  cases key with
  | char c => exact input.caret_insert c
  | backspace => exact input.caret_backspace
  | left => exact input.caret_left
  | right => exact congrArg some input.caret_right
  | home => exact congrArg some input.caret_home
  | lineEnd => exact congrArg some input.caret_toEnd
  | _ => rfl

theorem places_pressPrompt {purpose : Purpose} {input : CursorLine}
    (hmode : e.mode = .prompt purpose input) (key : Key) :
    e.places.pressPrompt? key = some (e.pressPrompt purpose input key).1.places := by
  have hinput : e.places.input = input.caret := by
    rw [places, Editor.input, hmode]
  have hpanel : e.places.panel = .prompt purpose := by
    rw [places, hmode]
    rfl
  unfold Places.pressPrompt?
  split
  · cases purpose <;> rfl
  · rfl
  · rename_i henter hescape
    rw [hinput, caret_editInput]
    unfold pressPrompt
    split
    · exact (henter rfl).elim
    · exact (henter rfl).elim
    · exact (hescape rfl).elim
    · show some (Places.mk e.buffer.caret e.scroll e.viewport e.places.panel
        (editInput key input).caret e.filename) = _
      rw [hpanel]
      rfl

theorem places_press (control : Bool) (key : Key) :
    e.places.press? control key = some (e.press s control key).1.places := by
  have hpanel : e.places.panel = e.mode.panel := rfl
  rw [Places.press?, press, hpanel]
  cases hmode : e.mode with
  | editing =>
    cases control with
    | true => exact e.places_pressControl s key
    | false => exact e.places_pressEditing s hmode key
  | help => exact congrArg some (e.places_pressHelp hmode key)
  | prompt purpose input => exact e.places_pressPrompt hmode key

theorem places_apply (op : Operation) : e.places.operate? op = some (op.apply s e).places := by
  cases op with
  | insert c => exact e.places_insert s c
  | breakLine => exact e.places_breakLine s
  | backspace => exact e.places_backspace s
  | delete => exact e.places_delete s
  | setContent text => exact congrArg some (e.places_setContent s text).symm
  | loaded outcome =>
    cases outcome with
    | ok loaded =>
      show some { e.places.setContent loaded.1 with filename := some loaded.2 }.close = _
      rw [← e.places_setContent s]
      rfl
    | error reason => rfl
  | saved outcome => cases outcome <;> rfl
  | press control key => exact e.places_press s control key
  | refresh =>
    show some e.places = some (e.refresh s).2.places
    rw [refresh]
    split <;> rfl

/-! ### Drawing -/

/-- Lines that are read one after the other, from one index on. -/
theorem mapM_range'_getElem? {α : Type} (xs : List α) (first count : Nat)
    (h : first + count ≤ xs.length) :
    ((List.range' first count).mapM fun index ↦ xs[index]?) = some ((xs.drop first).take count) := by
  induction count generalizing first with
  | zero => rfl
  | succ count ih =>
    have hfirst : first < xs.length := by omega
    rw [List.range'_succ, List.mapM_cons, List.getElem?_eq_getElem hfirst,
      List.drop_eq_getElem_cons hfirst, List.take_succ_cons]
    show ((List.range' (first + 1) count).mapM fun index ↦ xs[index]?).bind _ = _
    rw [ih (first + 1) (by omega)]
    rfl

theorem map_visible :
    e.visible.map (fun line ↦ line.2.toList) = (e.buffer.rows.drop e.scroll).take e.viewport := by
  have hlines : e.lines.map String.toList = e.buffer.rows := by
    simp [lines, Buffer.lines, Function.comp_def]
  refine List.ext_getElem? fun i ↦ ?_
  rw [← hlines, ← List.map_drop, ← List.map_take, visible, List.getElem?_map, List.getElem?_mapIdx,
    List.getElem?_map, Option.map_map]
  rfl

/-- **Drawing reads the lines that are shown**, all of which are there. -/
theorem places_render (inner : Area) :
    e.places.render? inner.height.toNat =
      some ((e.fitted inner).places, (e.fitted inner).visible.map (fun line ↦ line.2.toList),
        (e.fitted inner).buffer.row - (e.fitted inner).scroll) := by
  have hview : (e.fitted inner).InView := inView_reveal _
  have hreveal : Places.reveal? { e.places with viewport := max inner.height.toNat 1 } =
      some (e.fitted inner).places := places_reveal { e with viewport := max inner.height.toNat 1 }
  rw [Places.render?, hreveal]
  generalize e.fitted inner = e at hview
  have hrow : e.scroll ≤ e.buffer.row := hview.scroll_le
  have hrows : e.buffer.row < e.buffer.rows.length := e.buffer.row_lt
  have hcount : Checked.sub (min (e.scroll + e.viewport) e.buffer.rows.length) e.scroll =
      some (min e.viewport (e.buffer.rows.length - e.scroll)) := by
    rw [Checked.sub_eq_some (by omega)]
    congr 1
    omega
  have hlines : ((List.range' e.scroll (min e.viewport (e.buffer.rows.length - e.scroll))).mapM
      fun index ↦ e.buffer.rows[index]?) = some (e.visible.map fun line ↦ line.2.toList) := by
    rw [mapM_range'_getElem? _ _ _ (by omega), map_visible, ← List.length_drop,
      ← List.take_eq_take_min]
  show (Checked.sub (min (e.scroll + e.viewport) e.buffer.rows.length) e.scroll).bind (fun count ↦
    ((List.range' e.scroll count).mapM fun index ↦ e.buffer.rows[index]?).bind fun lines ↦
      (Checked.sub e.buffer.row e.scroll).bind fun offset ↦ some (e.places, lines, offset)) = _
  rw [hcount, Option.bind_some, hlines, Option.bind_some, Checked.sub_eq_some hrow, Option.bind_some]

/-! ### Runs -/

/-- What can happen to the editor on a screen. -/
inductive Event where
  | operate (op : Operation)
  /-- Another number of lines can be shown. -/
  | resize (viewport : Nat)
  | render (width height : UInt16)

/-- The editor after an event. -/
def after (s : Surroundings) (e : Editor) : Event → Editor
  | .operate op => op.apply s e
  | .resize viewport => { e with viewport }
  | .render width height => (e.view s width height).2

/-- The editor after a run that begins with opening it. At each event it finds something else around it.
-/
def run (s : Surroundings) (events : List (Surroundings × Event)) : Editor :=
  events.foldl (fun e event ↦ e.after event.1 event.2) (new s)

end Editor

namespace Places

/-- The places after an event. -/
def after? (p : Places) : Editor.Event → Option Places
  | .operate op => p.operate? op
  | .resize viewport => some { p with viewport }
  | .render width height => do
    let (p, _, _) ← p.render? (screenAreas width height).2.1.inner.height.toNat
    some p

/-- The places at the start. -/
def start : Places := ⟨⟨[[]], 0, 0⟩, 0, 20, .text, ⟨[], 0⟩, none⟩

/-- The places after a run, if all checks of all its events succeed. -/
def run? (events : List Editor.Event) : Option Places := events.foldlM after? start

end Places

namespace Editor

theorem places_after (s : Surroundings) (e : Editor) (event : Event) :
    e.places.after? event = some (e.after s event).places := by
  cases event with
  | operate op => exact e.places_apply s op
  | resize viewport => rfl
  | render width height =>
    show (e.places.render? _).bind _ = _
    rw [e.places_render]
    rfl

theorem places_run (s : Surroundings) (events : List (Surroundings × Event)) :
    Places.run? (events.map Prod.snd) = some (run s events).places := by
  have hfold : ∀ e : Editor, (events.map Prod.snd).foldlM Places.after? e.places =
      some (events.foldl (fun e event ↦ e.after event.1 event.2) e).places := by
    induction events with
    | nil => exact fun _ ↦ rfl
    | cons event events ih =>
      intro e
      rw [List.map_cons, List.foldlM_cons, e.places_after event.1 event.2]
      exact ih _
  exact hfold (new s)

end Editor

/-! ### What runs keep -/

namespace Buffer

variable {b b' : Buffer}

/-- Within a line backspace keeps the row. -/
theorem row_of_backspace (hcolumn : b.column ≠ 0) (hb : b.backspace? = some b') : b'.row = b.row := by
  obtain ⟨above, ⟨before, after⟩, below⟩ := b
  cases before with
  | nil => exact absurd rfl hcolumn
  | cons c before =>
    obtain rfl := Option.some.inj hb
    rfl

theorem row_of_delete (hb : b.delete? = some b') : b'.row = b.row := by
  obtain ⟨above, ⟨before, after⟩, below⟩ := b
  cases after with
  | cons c after =>
    obtain rfl := Option.some.inj hb
    rfl
  | nil =>
    cases below with
    | nil => exact nomatch hb
    | cons line below =>
      obtain rfl := Option.some.inj hb
      rfl

end Buffer

namespace Editor

section

variable (s : Surroundings) {e : Editor} (h : e.scroll ≤ e.buffer.row)

include h

theorem scroll_le_backspace : (e.backspace s).scroll ≤ (e.backspace s).buffer.row := by
  rw [backspace]
  cases hb : e.buffer.backspace? with
  | none => exact h
  | some b =>
    dsimp only
    split
    · exact (inView_reveal { e with buffer := b }).scroll_le
    · rename_i hcolumn
      exact h.trans_eq (Buffer.row_of_backspace hcolumn hb).symm

theorem scroll_le_delete : (e.delete s).scroll ≤ (e.delete s).buffer.row := by
  rw [delete]
  cases hb : e.buffer.delete? with
  | none => exact h
  | some b => exact h.trans_eq (Buffer.row_of_delete hb).symm

theorem scroll_le_pressEditing (key : Key) :
    (e.pressEditing s key).scroll ≤ (e.pressEditing s key).buffer.row := by
  cases key with
  | enter => exact (inView_reveal { e with buffer := e.buffer.breakLine }).scroll_le
  | backspace => exact scroll_le_backspace s h
  | delete => exact scroll_le_delete s h
  | left | right | up | down | pageUp | pageDown => exact (inView_reveal _).scroll_le
  | function n =>
    match n with
    | 1 => exact h
    | 0 | _ + 2 => exact h
  | _ => exact h

theorem scroll_le_press (control : Bool) (key : Key) :
    (e.press s control key).1.scroll ≤ (e.press s control key).1.buffer.row := by
  rw [press]
  split
  · cases control with
    | false => exact scroll_le_pressEditing s h key
    | true =>
      show (e.pressControl s key).1.scroll ≤ (e.pressControl s key).1.buffer.row
      unfold pressControl
      split
      · exact h
      · exact h
      · split <;> exact h
      · exact (inView_reveal _).scroll_le
      · exact (inView_reveal _).scroll_le
      · exact h
  · show (e.pressHelp key).scroll ≤ (e.pressHelp key).buffer.row
    unfold pressHelp
    split <;> exact h
  · rename_i purpose input _
    show (e.pressPrompt purpose input key).1.scroll ≤ (e.pressPrompt purpose input key).1.buffer.row
    unfold pressPrompt
    split <;> exact h

/-- **The line with the cursor is never above the first line that is shown**, if it was not before. -/
theorem scroll_le_apply (op : Operation) :
    (op.apply s e).scroll ≤ (op.apply s e).buffer.row := by
  cases op with
  | insert c => exact h
  | breakLine => exact (inView_reveal { e with buffer := e.buffer.breakLine }).scroll_le
  | backspace => exact scroll_le_backspace s h
  | delete => exact scroll_le_delete s h
  | setContent text => exact Nat.zero_le _
  | loaded outcome =>
    cases outcome with
    | ok loaded => exact Nat.zero_le _
    | error reason => exact h
  | saved outcome => cases outcome <;> exact h
  | press control key => exact scroll_le_press s h control key
  | refresh =>
    show (e.refresh s).2.scroll ≤ (e.refresh s).2.buffer.row
    rw [refresh]
    split <;> exact h

end

theorem scroll_le_after (s : Surroundings) {e : Editor} (h : e.scroll ≤ e.buffer.row)
    (event : Event) : (e.after s event).scroll ≤ (e.after s event).buffer.row := by
  cases event with
  | operate op => exact scroll_le_apply s h op
  | resize viewport => exact h
  | render width height => exact (inView_reveal _).scroll_le

theorem scroll_le_run (s : Surroundings) (events : List (Surroundings × Event)) :
    (run s events).scroll ≤ (run s events).buffer.row := by
  induction events using List.reverseRecOn with
  | nil => exact Nat.le_refl 0
  | append_singleton events event ih =>
    rw [run, List.foldl_append, List.foldl_cons, List.foldl_nil]
    exact scroll_le_after event.1 ih event.2

/-- All places of an editor are valid, if the line with the cursor is not above the first one that is
shown. -/
theorem valid_places {e : Editor} (h : e.scroll ≤ e.buffer.row) : e.places.Valid where
  rows_ne_nil hnil := by
    have hrow : e.buffer.row < e.buffer.rows.length := e.buffer.row_lt
    rw [show e.buffer.rows = [] from hnil] at hrow
    exact absurd hrow (Nat.not_lt_zero _)
  row_lt := e.buffer.row_lt
  column_le line hline := by
    have hcurrent : e.buffer.rows[e.buffer.row]? = some line := hline
    rw [e.buffer.getElem?_rows_row] at hcurrent
    obtain rfl := Option.some.inj hcurrent
    exact e.buffer.current.column_le
  scroll_le := h
  input_le := e.input.column_le

/-- **All places are always valid.** After any run that begins with opening the editor, with keys in any
mode, texts and files that come in, changes of the number of lines that can be shown, and drawing on
screens of any size:

* there is a line, the cursor is in one of the lines and within it, the first line that is shown is not
  below the line with the cursor, and the cursor of the prompt is within its input;
* the run is the one of the places by their numbers, in which every index, every removal, every
  splitting and every difference is checked, and no check has failed;
* when the line with the cursor has been shown, in particular when the text has been drawn, it is among
  those that can be shown. -/
theorem places_always_valid (s : Surroundings) (events : List (Surroundings × Event)) :
    (run s events).places.Valid ∧
      Places.run? (events.map Prod.snd) = some (run s events).places ∧
      (run s events).reveal.InView ∧
      ∀ (s' : Surroundings) (width height : UInt16), ((run s events).view s' width height).2.InView :=
  ⟨valid_places (scroll_le_run s events), places_run s events, inView_reveal _,
    fun _ _ _ ↦ inView_reveal _⟩

end Editor

end Reckoner
