import Mathlib.Algebra.GroupWithZero.Nat
import Mathlib.Data.List.Basic
import Reckoner.Proofs.FreshResults

/-!
# Editing a flat text

The editor keeps its text as lines, one of which has the cursor. Joined by newlines, the lines are one
row of characters, and the cursor is a place in this row: `FlatText`. There editing is plain, since a
line break is a character like any other: what is put in goes to the place of the cursor, what is taken
away is the character before or after it, and moving changes nothing but the place.

The row before the cursor and the row after it say all that is needed (`Editor.flat_eq`). For each
operation on lines there is one lemma that says what it does to these two rows: it puts a character
between them, takes one away at their border, or moves the border by one; at an end of the text, where
there is no character, it does nothing.
-/

namespace Reckoner

/-- A row of characters with a place in it, given as the number of characters before it. -/
structure FlatText where
  chars : List Char
  offset : Nat
deriving DecidableEq, Repr

namespace FlatText

/-- Puts a character at the place, which moves behind it. -/
def insert (t : FlatText) (c : Char) : FlatText :=
  ⟨t.chars.take t.offset ++ c :: t.chars.drop t.offset, t.offset + 1⟩

/-- Takes away the character before the place, if there is one. -/
def backspace (t : FlatText) : FlatText :=
  if t.offset = 0 then t else ⟨t.chars.eraseIdx (t.offset - 1), t.offset - 1⟩

/-- Takes away the character after the place, if there is one. -/
def delete (t : FlatText) : FlatText :=
  if t.offset < t.chars.length then ⟨t.chars.eraseIdx t.offset, t.offset⟩ else t

/-- Moves the place towards the start, if it is not there. -/
def left (t : FlatText) : FlatText :=
  if t.offset = 0 then t else ⟨t.chars, t.offset - 1⟩

/-- Moves the place towards the end, if it is not there. -/
def right (t : FlatText) : FlatText :=
  if t.offset < t.chars.length then ⟨t.chars, t.offset + 1⟩ else t

/-- The text in two parts, before and after the place. -/
def ofParts (before after : List Char) : FlatText := ⟨before ++ after, before.length⟩

section

variable (before after : List Char) (c : Char)

theorem eraseIdx_length_append : (before ++ c :: after).eraseIdx before.length = before ++ after := by
  rw [List.eraseIdx_append_of_length_le (Nat.le_refl _), Nat.sub_self, List.eraseIdx_cons_zero]

theorem insert_ofParts : (ofParts before after).insert c = ofParts (before ++ [c]) after := by
  simp [insert, ofParts]

theorem backspace_ofParts_nil : (ofParts [] after).backspace = ofParts [] after := if_pos rfl

theorem backspace_ofParts_concat :
    (ofParts (before ++ [c]) after).backspace = ofParts before after := by
  simp [backspace, ofParts, eraseIdx_length_append]

theorem delete_ofParts_nil : (ofParts before []).delete = ofParts before [] := by
  simp [delete, ofParts]

theorem delete_ofParts_cons : (ofParts before (c :: after)).delete = ofParts before after := by
  simp [delete, ofParts, eraseIdx_length_append]

theorem left_ofParts_nil : (ofParts [] after).left = ofParts [] after := if_pos rfl

theorem left_ofParts_concat :
    (ofParts (before ++ [c]) after).left = ofParts before (c :: after) := by
  simp [left, ofParts]

theorem right_ofParts_nil : (ofParts before []).right = ofParts before [] := by
  simp [right, ofParts]

theorem right_ofParts_cons :
    (ofParts before (c :: after)).right = ofParts (before ++ [c]) after := by
  simp [right, ofParts]

end

end FlatText

/-! ### The two parts of a buffer -/

namespace Buffer

/-- The text before and after the cursor. -/
def flat (b : Buffer) : FlatText := .ofParts b.textBefore b.textAfter

theorem textBefore_insert (b : Buffer) (c : Char) :
    (b.insert c).textBefore = b.textBefore ++ [c] := by
  simp [textBefore, insert, CursorLine.insert]

theorem textBefore_breakLine (b : Buffer) : b.breakLine.textBefore = b.textBefore ++ ['\n'] := by
  simp [textBefore, breakLine, CursorLine.atStart]

theorem textAfter_breakLine (b : Buffer) : b.breakLine.textAfter = b.textAfter := by
  simp [textAfter, breakLine, CursorLine.atStart]

/-- Backspace takes away the last character before the cursor; there is none at the start only. -/
theorem backspace_cases (b : Buffer) :
    (b.textBefore = [] ∧ b.backspace? = none) ∨
      ∃ b' c, b.backspace? = some b' ∧ b.textBefore = b'.textBefore ++ [c] ∧
        b'.textAfter = b.textAfter := by
  obtain ⟨above, ⟨before, after⟩, below⟩ := b
  cases before with
  | cons c before =>
    exact .inr ⟨⟨above, ⟨before, after⟩, below⟩, c, rfl, by simp [textBefore], rfl⟩
  | nil =>
    cases above with
    | nil => exact .inl ⟨rfl, rfl⟩
    | cons line above =>
      exact .inr ⟨⟨above, ⟨line.reverse, after⟩, below⟩, '\n', rfl, by simp [textBefore], rfl⟩

/-- Delete takes away the first character after the cursor; there is none at the end only. -/
theorem delete_cases (b : Buffer) :
    (b.textAfter = [] ∧ b.delete? = none) ∨
      ∃ b' c, b.delete? = some b' ∧ b.textAfter = c :: b'.textAfter ∧
        b'.textBefore = b.textBefore := by
  obtain ⟨above, ⟨before, after⟩, below⟩ := b
  cases after with
  | cons c after => exact .inr ⟨⟨above, ⟨before, after⟩, below⟩, c, rfl, rfl, rfl⟩
  | nil =>
    cases below with
    | nil => exact .inl ⟨rfl, rfl⟩
    | cons line below => exact .inr ⟨⟨above, ⟨before, line⟩, below⟩, '\n', rfl, rfl, rfl⟩

theorem left_cases (b : Buffer) :
    (b.textBefore = [] ∧ b.left = b) ∨
      ∃ c, b.textBefore = b.left.textBefore ++ [c] ∧ b.left.textAfter = c :: b.textAfter := by
  obtain ⟨above, ⟨before, after⟩, below⟩ := b
  cases before with
  | cons c before => exact .inr ⟨c, by simp [textBefore, left, CursorLine.left?], rfl⟩
  | nil =>
    cases above with
    | nil => exact .inl ⟨rfl, rfl⟩
    | cons line above =>
      exact .inr ⟨'\n', by simp [textBefore, left, CursorLine.left?, CursorLine.atEnd], rfl⟩

theorem right_cases (b : Buffer) :
    (b.textAfter = [] ∧ b.right = b) ∨
      ∃ c, b.textAfter = c :: b.right.textAfter ∧ b.right.textBefore = b.textBefore ++ [c] := by
  obtain ⟨above, ⟨before, after⟩, below⟩ := b
  cases after with
  | cons c after => exact .inr ⟨c, rfl, by simp [textBefore, right, CursorLine.right?]⟩
  | nil =>
    cases below with
    | nil => exact .inl ⟨rfl, rfl⟩
    | cons line below =>
      refine .inr ⟨'\n', rfl, ?_⟩
      simp [textBefore, right, CursorLine.right?, CursorLine.atStart, CursorLine.chars]

/-- What was put in is what backspace takes away. -/
theorem backspace_insert (b : Buffer) (c : Char) : (b.insert c).backspace? = some b := rfl

theorem backspace_breakLine (b : Buffer) : b.breakLine.backspace? = some b := by
  obtain ⟨above, ⟨before, after⟩, below⟩ := b
  simp [breakLine, backspace?, CursorLine.atStart, CursorLine.backspace?]

/-- Lines that are joined: those above one of them, this one, and those below. -/
theorem intercalate_append_cons (above : List (List Char)) (line : List Char)
    (below : List (List Char)) :
    ['\n'].intercalate (above ++ line :: below) =
      above.flatMap (· ++ ['\n']) ++ (line ++ below.flatMap ('\n' :: ·)) := by
  induction above generalizing line with
  | nil =>
    rw [List.nil_append, List.flatMap_nil, List.nil_append]
    induction below generalizing line with
    | nil => simp [List.intercalate]
    | cons next below ih =>
      rw [List.intercalate_cons_cons, ih, List.flatMap_cons]
      simp
  | cons first above ih =>
    obtain ⟨next, rest, hrest⟩ : ∃ next rest, above ++ line :: below = next :: rest := by
      cases above <;> exact ⟨_, _, rfl⟩
    rw [List.cons_append, hrest, List.intercalate_cons_cons, ← hrest, ih, List.flatMap_cons]
    simp only [List.append_assoc]

/-- The lines joined by newlines are the text before the cursor and the text after it. -/
theorem intercalate_rows (b : Buffer) :
    ['\n'].intercalate b.rows = b.textBefore ++ b.textAfter := by
  rw [rows, intercalate_append_cons, CursorLine.chars, textBefore, textAfter]
  simp only [List.append_assoc]

/-- Every line above the cursor counts with its newline. -/
theorem length_textBefore (b : Buffer) :
    b.textBefore.length = ((b.rows.take b.row).map (·.length + 1)).sum + b.column := by
  have habove : b.rows.take b.row = b.above.reverse := by
    rw [rows, row, ← List.length_reverse, List.take_left]
  rw [habove, textBefore, List.length_append, List.length_flatMap, List.length_reverse, column,
    CursorLine.column]
  simp only [List.length_append, List.length_singleton]

/-- The line with the cursor is the one at its row. -/
theorem getElem?_lines_row (b : Buffer) : b.lines[b.row]? = some b.current.text := by
  rw [lines, rows, row, List.getElem?_map, List.getElem?_append_right (by simp)]
  simp [CursorLine.text]

/-- Every place in every row of lines is the one of a buffer. -/
theorem exists_of_place {rows : List (List Char)} {row column : Nat} {line : List Char}
    (hline : rows[row]? = some line) (hcolumn : column ≤ line.length) :
    ∃ b : Buffer, b.rows = rows ∧ b.row = row ∧ b.column = column := by
  obtain ⟨hrow, hline⟩ := List.getElem?_eq_some_iff.1 hline
  refine ⟨⟨(rows.take row).reverse, .atColumn line column, rows.drop (row + 1)⟩, ?_, ?_, ?_⟩
  · rw [Buffer.rows, List.reverse_reverse, CursorLine.chars_atColumn, ← hline,
      ← List.drop_eq_getElem_cons hrow, List.take_append_drop]
  · rw [Buffer.row, List.length_reverse, List.length_take, Nat.min_eq_left hrow.le]
  · rw [Buffer.column, CursorLine.atColumn, CursorLine.column, List.length_reverse,
      List.length_take, Nat.min_eq_left hcolumn]

end Buffer

namespace Editor

/-- **The text as one row of characters.** The lines are joined by newlines. In front of the cursor are
the characters of the lines above, each of which ends with a newline, and those of its own line. -/
def flat (e : Editor) : FlatText where
  chars := ("\n".intercalate e.lines).toList
  offset := ((e.lines.take e.buffer.row).map (·.length + 1)).sum + e.buffer.column

theorem flat_eq (e : Editor) : e.flat = e.buffer.flat := by
  have hlines : e.lines.map String.toList = e.buffer.rows := by
    simp [lines, Buffer.lines, Function.comp_def]
  rw [flat, Buffer.flat, FlatText.ofParts, String.toList_intercalate, hlines,
    Buffer.length_textBefore, ← Buffer.intercalate_rows]
  simp [lines, Buffer.lines, ← List.map_take, Function.comp_def]

/-! ### Editing -/

section

variable (s : Surroundings) (e : Editor)

theorem buffer_reveal : e.reveal.buffer = e.buffer := by
  rw [reveal]
  split
  · rfl
  · split <;> rfl

theorem buffer_breakLine : (e.breakLine s).buffer = e.buffer.breakLine :=
  buffer_reveal { e with buffer := e.buffer.breakLine }

theorem buffer_backspace : (e.backspace s).buffer = e.buffer.backspace?.getD e.buffer := by
  rw [backspace]
  cases hb : e.buffer.backspace? with
  | none => rfl
  | some buffer =>
    dsimp only
    split
    · exact buffer_reveal { e with buffer }
    · rfl

theorem buffer_delete : (e.delete s).buffer = e.buffer.delete?.getD e.buffer := by
  rw [delete]
  cases e.buffer.delete? <;> rfl

theorem buffer_move (f : Buffer → Buffer) : (e.move f).buffer = f e.buffer :=
  buffer_reveal { e with buffer := f e.buffer }

theorem flat_insert (c : Char) : (e.insert s c).flat = e.flat.insert c := by
  have hbuffer : (e.insert s c).buffer = e.buffer.insert c := rfl
  rw [flat_eq, flat_eq, hbuffer, Buffer.flat, Buffer.flat, FlatText.insert_ofParts,
    Buffer.textBefore_insert]
  rfl

theorem flat_breakLine : (e.breakLine s).flat = e.flat.insert '\n' := by
  rw [flat_eq, flat_eq, buffer_breakLine, Buffer.flat, Buffer.flat, FlatText.insert_ofParts,
    Buffer.textBefore_breakLine, Buffer.textAfter_breakLine]

theorem flat_backspace : (e.backspace s).flat = e.flat.backspace := by
  rw [flat_eq, flat_eq, buffer_backspace, Buffer.flat, Buffer.flat]
  rcases e.buffer.backspace_cases with ⟨hnil, hnone⟩ | ⟨b, c, hsome, hbefore, hafter⟩
  · rw [hnone, Option.getD_none, hnil, FlatText.backspace_ofParts_nil]
  · rw [hsome, Option.getD_some, hbefore, FlatText.backspace_ofParts_concat, hafter]

theorem flat_delete : (e.delete s).flat = e.flat.delete := by
  rw [flat_eq, flat_eq, buffer_delete, Buffer.flat, Buffer.flat]
  rcases e.buffer.delete_cases with ⟨hnil, hnone⟩ | ⟨b, c, hsome, hafter, hbefore⟩
  · rw [hnone, Option.getD_none, hnil, FlatText.delete_ofParts_nil]
  · rw [hsome, Option.getD_some, hafter, FlatText.delete_ofParts_cons, hbefore]

theorem flat_left : (e.move .left).flat = e.flat.left := by
  rw [flat_eq, flat_eq, buffer_move, Buffer.flat, Buffer.flat]
  rcases e.buffer.left_cases with ⟨hnil, hsame⟩ | ⟨c, hbefore, hafter⟩
  · rw [hsame, hnil, FlatText.left_ofParts_nil]
  · rw [hbefore, FlatText.left_ofParts_concat, hafter]

theorem flat_right : (e.move .right).flat = e.flat.right := by
  rw [flat_eq, flat_eq, buffer_move, Buffer.flat, Buffer.flat]
  rcases e.buffer.right_cases with ⟨hnil, hsame⟩ | ⟨c, hafter, hbefore⟩
  · rw [hsame, hnil, FlatText.right_ofParts_nil]
  · rw [hafter, FlatText.right_ofParts_cons, hbefore]

/-- At the start of the text backspace changes nothing, not even what is shown beside the text. -/
theorem backspace_of_offset_eq_zero (h : e.flat.offset = 0) : e.backspace s = e := by
  rw [flat_eq] at h
  rcases e.buffer.backspace_cases with ⟨-, hnone⟩ | ⟨b, c, -, hbefore, -⟩
  · rw [backspace, hnone]
  · rw [Buffer.flat, FlatText.ofParts, hbefore] at h
    simp at h

/-- At the end of the text delete changes nothing. -/
theorem delete_of_offset_eq_length (h : e.flat.offset = e.flat.chars.length) :
    e.delete s = e := by
  rw [flat_eq] at h
  rcases e.buffer.delete_cases with ⟨-, hnone⟩ | ⟨b, c, -, hafter, -⟩
  · rw [delete, hnone]
  · rw [Buffer.flat, FlatText.ofParts, hafter] at h
    simp at h

/-- **The laws of editing**: on the text as one row of characters, every operation does what it does to
a flat text. -/
structure EditsFlat : Prop where
  insert : ∀ c, (e.insert s c).flat = e.flat.insert c
  breakLine : (e.breakLine s).flat = e.flat.insert '\n'
  backspace : (e.backspace s).flat = e.flat.backspace
  backspace_start : e.flat.offset = 0 → e.backspace s = e
  delete : (e.delete s).flat = e.flat.delete
  delete_end : e.flat.offset = e.flat.chars.length → e.delete s = e
  left : (e.move .left).flat = e.flat.left
  right : (e.move .right).flat = e.flat.right
  /-- Moving changes no line. -/
  lines : (e.move .left).lines = e.lines ∧ (e.move .right).lines = e.lines
  /-- Backspace takes back what was put in, and the cursor is where it was. -/
  backspace_insert : ∀ c, ((e.insert s c).backspace s).buffer = e.buffer
  backspace_breakLine : ((e.breakLine s).backspace s).buffer = e.buffer

end

/-- **The editor edits a flat text.** Its states are all texts of lines with a cursor within one of
them, and in each of them the laws of editing hold. -/
theorem edits_flatText (s : Surroundings) :
    (∀ (lines : List String) (row column : Nat),
      (∃ line, lines[row]? = some line ∧ column ≤ line.length) ↔
        ∃ e : Editor, e.lines = lines ∧ e.buffer.row = row ∧ e.buffer.column = column) ∧
    ∀ e : Editor, EditsFlat s e := by
  refine ⟨fun lines row column ↦ ⟨?_, ?_⟩, fun e ↦ ?_⟩
  · rintro ⟨line, hline, hcolumn⟩
    have hchars : (lines.map String.toList)[row]? = some line.toList := by
      rw [List.getElem?_map, hline, Option.map_some]
    obtain ⟨b, hrows, hrow, hcolumn⟩ := Buffer.exists_of_place hchars hcolumn
    refine ⟨{ Editor.new s with buffer := b }, ?_, hrow, hcolumn⟩
    rw [Editor.lines, Buffer.lines, hrows]
    simp [Function.comp_def]
  · rintro ⟨e, rfl, rfl, rfl⟩
    refine ⟨e.buffer.current.text, e.buffer.getElem?_lines_row, ?_⟩
    rw [CursorLine.text, String.length_ofList]
    exact e.buffer.current.column_le
  · constructor
    case insert => exact e.flat_insert s
    case breakLine => exact e.flat_breakLine s
    case backspace => exact e.flat_backspace s
    case backspace_start => exact e.backspace_of_offset_eq_zero s
    case delete => exact e.flat_delete s
    case delete_end => exact e.delete_of_offset_eq_length s
    case left => exact e.flat_left
    case right => exact e.flat_right
    case lines =>
      rw [Editor.lines, Editor.lines, Editor.lines, buffer_move, buffer_move, Buffer.lines,
        Buffer.lines, Buffer.lines, Buffer.rows_left, Buffer.rows_right]
      exact ⟨rfl, rfl⟩
    case backspace_insert =>
      intro c
      exact (e.insert s c).buffer_backspace s
    case backspace_breakLine =>
      rw [buffer_backspace, buffer_breakLine, Buffer.backspace_breakLine, Option.getD_some]

end Editor

end Reckoner
