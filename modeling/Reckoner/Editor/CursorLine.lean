/-!
# A line with a cursor

A line that is being edited is kept in two parts, before and after the cursor. The part before it is
kept backwards, so that everything that happens at the cursor happens at the front of a list, and the
cursor can never lie outside of the line.
-/

namespace Reckoner

/-- A line and a place between two of its characters, or at one of its ends. -/
structure CursorLine where
  /-- The characters before the cursor, the nearest first. -/
  before : List Char
  /-- The characters after the cursor. -/
  after : List Char
deriving DecidableEq, Repr

namespace CursorLine

/-- The line without characters. -/
def empty : CursorLine := ⟨[], []⟩

/-- All characters. -/
def chars (l : CursorLine) : List Char := l.before.reverse ++ l.after

/-- The text of the line. -/
def text (l : CursorLine) : String := String.ofList l.chars

/-- The number of characters before the cursor. -/
def column (l : CursorLine) : Nat := l.before.length

/-- A line with the cursor at a column, or at its end if it is shorter. -/
def atColumn (cs : List Char) (column : Nat) : CursorLine := ⟨(cs.take column).reverse, cs.drop column⟩

/-- A line with the cursor at its start. -/
def atStart (cs : List Char) : CursorLine := ⟨[], cs⟩

/-- A line with the cursor at its end. -/
def atEnd (cs : List Char) : CursorLine := ⟨cs.reverse, []⟩

/-- Puts a character before the cursor. -/
def insert (l : CursorLine) (c : Char) : CursorLine := ⟨c :: l.before, l.after⟩

/-- Takes away the character before the cursor. -/
def backspace? (l : CursorLine) : Option CursorLine :=
  match l.before with
  | _ :: before => some ⟨before, l.after⟩
  | [] => none

/-- Takes away the character after the cursor. -/
def delete? (l : CursorLine) : Option CursorLine :=
  match l.after with
  | _ :: after => some ⟨l.before, after⟩
  | [] => none

/-- Moves the cursor one character to the left. -/
def left? (l : CursorLine) : Option CursorLine :=
  match l.before with
  | c :: before => some ⟨before, c :: l.after⟩
  | [] => none

/-- Moves the cursor one character to the right. -/
def right? (l : CursorLine) : Option CursorLine :=
  match l.after with
  | c :: after => some ⟨c :: l.before, after⟩
  | [] => none

/-- Moves the cursor to the start. -/
def home (l : CursorLine) : CursorLine := atStart l.chars

/-- Moves the cursor to the end. -/
def toEnd (l : CursorLine) : CursorLine := atEnd l.chars

@[simp]
theorem chars_atStart (cs : List Char) : (atStart cs).chars = cs := by simp [atStart, chars]

@[simp]
theorem chars_atEnd (cs : List Char) : (atEnd cs).chars = cs := by simp [atEnd, chars]

@[simp]
theorem chars_atColumn (cs : List Char) (column : Nat) : (atColumn cs column).chars = cs := by
  simp [atColumn, chars]

/-- The cursor is within the line. -/
theorem column_le (l : CursorLine) : l.column ≤ l.chars.length := by simp [column, chars]

end CursorLine

end Reckoner
