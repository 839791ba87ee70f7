import Reckoner.Editor.CursorLine

/-!
# The text that is edited

The text is a row of lines, one of which has the cursor. It is kept as the lines above that line, the
line itself and the lines below, so there is always at least one line, and the cursor always lies
within the text.

Seen as one row of characters with newlines between lines (`textBefore` and `textAfter`), editing is
plain: a character is put in or taken away at the cursor.
-/

namespace Reckoner

/-- Lines with a cursor in one of them. -/
structure Buffer where
  /-- The lines above the cursor, the nearest first. -/
  above : List (List Char)
  current : CursorLine
  /-- The lines below the cursor. -/
  below : List (List Char)
deriving DecidableEq, Repr

namespace Buffer

/-- The text of one empty line. -/
def empty : Buffer := ⟨[], .empty, []⟩

/-- The text of some lines with the cursor at its start; no line counts as one empty line. -/
def ofLines : List (List Char) → Buffer
  | [] => empty
  | first :: more => ⟨[], .atStart first, more⟩

/-! ### Views -/

/-- All lines, as rows of characters. -/
def rows (b : Buffer) : List (List Char) := b.above.reverse ++ b.current.chars :: b.below

/-- All lines. -/
def lines (b : Buffer) : List String := b.rows.map String.ofList

/-- The index of the line with the cursor. -/
def row (b : Buffer) : Nat := b.above.length

/-- The number of characters before the cursor in its line. -/
def column (b : Buffer) : Nat := b.current.column

/-- The text before the cursor. -/
def textBefore (b : Buffer) : List Char :=
  b.above.reverse.flatMap (· ++ ['\n']) ++ b.current.before.reverse

/-- The text after the cursor. -/
def textAfter (b : Buffer) : List Char := b.current.after ++ b.below.flatMap ('\n' :: ·)

/-! ### Editing -/

/-- Puts a character before the cursor. -/
def insert (b : Buffer) (c : Char) : Buffer := { b with current := b.current.insert c }

/-- Breaks the line at the cursor, which goes to the start of the new line. -/
def breakLine (b : Buffer) : Buffer :=
  ⟨b.current.before.reverse :: b.above, .atStart b.current.after, b.below⟩

/-- Takes away the character before the cursor; at the start of a line, joins it to the line above. -/
def backspace? (b : Buffer) : Option Buffer :=
  match b.current.backspace?, b.above with
  | some current, _ => some { b with current }
  | none, line :: above => some ⟨above, ⟨line.reverse, b.current.after⟩, b.below⟩
  | none, [] => none

/-- Takes away the character after the cursor; at the end of a line, joins the line below to it. -/
def delete? (b : Buffer) : Option Buffer :=
  match b.current.delete?, b.below with
  | some current, _ => some { b with current }
  | none, line :: below => some ⟨b.above, ⟨b.current.before, line⟩, below⟩
  | none, [] => none

/-! ### Moving -/

/-- Moves the cursor back by one character, from the start of a line to the end of the one above. -/
def left (b : Buffer) : Buffer :=
  match b.current.left?, b.above with
  | some current, _ => { b with current }
  | none, line :: above => ⟨above, .atEnd line, b.current.chars :: b.below⟩
  | none, [] => b

/-- Moves the cursor on by one character, from the end of a line to the start of the one below. -/
def right (b : Buffer) : Buffer :=
  match b.current.right?, b.below with
  | some current, _ => { b with current }
  | none, line :: below => ⟨b.current.chars :: b.above, .atStart line, below⟩
  | none, [] => b

/-- Moves the cursor to the line above, in the same column if that line is long enough. -/
def up (b : Buffer) : Buffer :=
  match b.above with
  | line :: above => ⟨above, .atColumn line b.column, b.current.chars :: b.below⟩
  | [] => b

/-- Moves the cursor to the line below, in the same column if that line is long enough. -/
def down (b : Buffer) : Buffer :=
  match b.below with
  | line :: below => ⟨b.current.chars :: b.above, .atColumn line b.column, below⟩
  | [] => b

/-- Moves the cursor to the start of its line. -/
def home (b : Buffer) : Buffer := { b with current := b.current.home }

/-- Moves the cursor to the end of its line. -/
def lineEnd (b : Buffer) : Buffer := { b with current := b.current.toEnd }

/-- Moves the cursor to the start of the text. -/
def toStart (b : Buffer) : Buffer := ofLines b.rows

/-- Moves the cursor to the end of the text. -/
def toEnd (b : Buffer) : Buffer :=
  match b.rows.reverse with
  | last :: above => ⟨above, .atEnd last, []⟩
  | [] => b

/-- The cursor is in one of the lines. -/
theorem row_lt (b : Buffer) : b.row < b.rows.length := by
  simp [row, rows]

end Buffer

end Reckoner
