import Reckoner.Editor.Buffer
import Reckoner.Notebook.Basic
import Reckoner.Text.Lines
import Reckoner.Value.Format

/-!
# The editor

The editor keeps a text together with the results of its lines, which are evaluated anew after every
change of the text. It shows part of the text, help, or a prompt for the name of a file.

Exchange rates arrive while the editor is open. Each pass over the text records the stage of loading
before it starts, and `refresh` runs another pass when the stage is not that one any more.
-/

namespace Reckoner

/-- What the editor finds around it. -/
structure Surroundings where
  engine : Engine Float
  format : Format
  now : Date
  /-- The currencies that are known when a pass over the text starts. -/
  registry : Registry Float
  /-- The currencies that are known when the pass reaches the line with the given index. -/
  during : Nat → Registry Float := fun _ ↦ registry

/-- What a prompt is for. -/
inductive Purpose where
  | save
  | load
deriving DecidableEq, Repr

/-- What the keys of the editor act on. -/
inductive Mode where
  | editing
  | help
  | prompt (purpose : Purpose) (input : CursorLine)
deriving DecidableEq, Repr

/-- What the editor asks of the system. -/
inductive Request where
  | save (text name : String)
  | load (name : String)
  | copy (text : String)
deriving DecidableEq, Repr

/-- What the system answers when it can do what it is asked. -/
def Request.Reply : Request → Type
  | .save _ _ => Unit
  | .load _ => String
  | .copy _ => Unit

/-- The state of the editor. -/
structure Editor where
  buffer : Buffer
  /-- The index of the first line that is shown. -/
  scroll : Nat := 0
  /-- How many lines can be shown. -/
  viewport : Nat := 20
  mode : Mode := .editing
  /-- How far the help is scrolled. -/
  helpScroll : Nat := 0
  /-- The name of the file of the text, if it has one. -/
  filename : Option String := none
  /-- What is shown in the status line. -/
  message : Option String := none
  /-- Whether there are changes that are not saved. -/
  dirty : Bool := false
  notebook : Notebook Float
  /-- The stage of loading currencies before the last pass. -/
  evaluatedWith : LoadingStatus

namespace Editor

/-- An editor with an empty text. -/
def new (s : Surroundings) : Editor :=
  { buffer := .empty
    notebook := .new s.engine.limits
    evaluatedWith := s.registry.status }

/-- The name of a file that has no other. -/
def defaultFilename : String := "notes.math"

/-! ### Results -/

/-- The lines of the text. -/
def lines (e : Editor) : List String := e.buffer.lines

/-- The whole text, with a newline after every line. -/
def content (e : Editor) : String := Text.unlines e.lines

/-- Evaluates the text. -/
def recalculate (s : Surroundings) (e : Editor) : Editor :=
  { e with
    evaluatedWith := s.registry.status
    notebook := Notebook.evaluateFrom s.engine s.during 0 e.notebook.reader (Scope.atInstant s.now)
      e.lines }

/-- Evaluates the text if loading has come to another stage since the last pass, and tells whether it
has. -/
def refresh (s : Surroundings) (e : Editor) : Bool × Editor :=
  if s.registry.status = e.evaluatedWith then (false, e) else (true, e.recalculate s)

/-- The result of a line. -/
def result? (e : Editor) (line : Nat) : Option (Value Float) := e.notebook.results.lookup line

/-- The result of a line, as it is shown. -/
def shown? (s : Surroundings) (e : Editor) (line : Nat) : Option String :=
  (e.result? line).map s.format.value

/-- The result of the line with the cursor, as it is shown. -/
def copyText? (s : Surroundings) (e : Editor) : Option String := e.shown? s e.buffer.row

/-! ### Scrolling -/

/-- Scrolls as little as needed for the line with the cursor to be shown. -/
def reveal (e : Editor) : Editor :=
  let height := max e.viewport 1
  let row := e.buffer.row
  if row < e.scroll then { e with scroll := row }
  else if e.scroll + height ≤ row then { e with scroll := row + 1 - height }
  else e

/-! ### Editing and moving -/

/-- The editor after a change of its text. -/
def edited (s : Surroundings) (e : Editor) : Editor :=
  recalculate s { e with dirty := true, message := none }

/-- Puts a character before the cursor. -/
def insert (s : Surroundings) (c : Char) (e : Editor) : Editor :=
  edited s { e with buffer := e.buffer.insert c }

/-- Breaks the line at the cursor. -/
def breakLine (s : Surroundings) (e : Editor) : Editor :=
  edited s (reveal { e with buffer := e.buffer.breakLine })

/-- Takes away the character before the cursor. -/
def backspace (s : Surroundings) (e : Editor) : Editor :=
  match e.buffer.backspace? with
  | none => e
  | some buffer =>
    let changed := { e with buffer }
    edited s (if e.buffer.column = 0 then changed.reveal else changed)

/-- Takes away the character after the cursor. -/
def delete (s : Surroundings) (e : Editor) : Editor :=
  match e.buffer.delete? with
  | none => e
  | some buffer => edited s { e with buffer }

/-- Moves the cursor and shows its line. -/
def move (f : Buffer → Buffer) (e : Editor) : Editor := reveal { e with buffer := f e.buffer }

/-- Moves the cursor within its line. -/
def moveInLine (f : Buffer → Buffer) (e : Editor) : Editor := { e with buffer := f e.buffer }

/-- Moves the cursor by as many lines as can be shown, of which `available` are there. -/
def movePage (f : Buffer → Buffer) (available : Nat) (e : Editor) : Editor :=
  reveal (Nat.repeat (move f) (min (max e.viewport 1) available) e)

/-- Moves the cursor up by as many lines as can be shown. -/
def pageUp (e : Editor) : Editor := e.movePage .up e.buffer.above.length

/-- Moves the cursor down by as many lines as can be shown. -/
def pageDown (e : Editor) : Editor := e.movePage .down e.buffer.below.length

/-! ### Files and the clipboard -/

/-- Replaces the whole text. -/
def setContent (s : Surroundings) (text : String) (e : Editor) : Editor :=
  recalculate s
    { e with buffer := .ofLines (Text.linesOfChars text.toList), scroll := 0, dirty := false }

/-- Asks for the name of a file, and offers the one that the text has. -/
def ask (purpose : Purpose) (e : Editor) : Editor :=
  let name := e.filename.getD defaultFilename
  { e with mode := .prompt purpose (.atEnd name.toList), message := none }

/-- The name that a prompt gives; without input it is the default name. -/
def nameOf (input : CursorLine) : String :=
  if input.chars.isEmpty then defaultFilename else input.text

/-- What has been put into the prompt. -/
def input (e : Editor) : CursorLine :=
  match e.mode with
  | .prompt _ input => input
  | _ => .empty

/-- Closes help or a prompt. -/
def close (e : Editor) : Editor := { e with mode := .editing }

/-- The editor after saving, given the name of the file or why it could not be written. -/
def saved (outcome : Except String String) (e : Editor) : Editor :=
  close <| match outcome with
    | .ok name => { e with message := some s!"Saved to {name}", filename := some name, dirty := false }
    | .error reason => { e with message := some s!"Save failed: {reason}" }

/-- The editor after loading, given text and name of the file or why it could not be read. -/
def loaded (s : Surroundings) (outcome : Except String (String × String)) (e : Editor) : Editor :=
  close <| match outcome with
    | .ok (text, name) =>
      { e.setContent s text with message := some s!"Loaded from {name}", filename := some name }
    | .error reason => { e with message := some s!"Load failed: {reason}" }

/-- The editor after copying, given the text or why it could not be copied. -/
def copied (outcome : Except String String) (e : Editor) : Editor :=
  match outcome with
  | .ok text => { e with message := some s!"Copied {text}" }
  | .error reason => { e with message := some s!"Copy failed: {reason}" }

/-- **The editor after its request has been answered.** -/
def answered (s : Surroundings) (e : Editor) :
    (request : Request) → Except String request.Reply → Editor
  | .save _ name, reply => e.saved (reply.map fun _ ↦ name)
  | .load name, reply => e.loaded s (reply.map (·, name))
  | .copy text, reply => e.copied (reply.map fun _ ↦ text)

end Editor

end Reckoner
