import Reckoner.Editor.Basic
import Reckoner.Editor.Help
import Reckoner.Screen.Basic

/-!
# What the editor shows

From top to bottom the screen has a line about the place of the cursor and about currencies, the text
in a box, and a box with the status. Where the screen is too low, the first line comes before the
status and the text comes last. Before each line of the text stands its number, and after it its
result; results are in one column, to the right of the longest line that is shown, as far as there is
room for them. Help is put over the middle of the screen.

Sizes and places on the screen are numbers of 16 bits, as they are for terminals.
-/

namespace Reckoner

/-- A screen with a text. -/
structure View where
  rows : List String
  /-- The place of the cursor, column and row, if it is shown. -/
  cursor : Option (UInt16 × UInt16)

/-- A part of the screen. -/
structure Area where
  x : UInt16
  y : UInt16
  width : UInt16
  height : UInt16
deriving DecidableEq, Repr

/-- The difference of two numbers, or zero. -/
def saturatingSub (a b : UInt16) : UInt16 := if a < b then 0 else a - b

/-- The part of an area within its border. -/
def Area.inner (a : Area) : Area :=
  { x := min (a.x + 1) (a.x + a.width)
    y := min (a.y + 1) (a.y + a.height)
    width := saturatingSub a.width 2
    height := saturatingSub a.height 2 }

/-- The areas of the first line, the text and the status. -/
def screenAreas (width height : UInt16) : Area × Area × Area :=
  let top := min height 1
  let bottom := min 3 (height - top)
  let middle := height - top - bottom
  (⟨0, 0, width, top⟩, ⟨0, top, width, middle⟩, ⟨0, top + middle, width, bottom⟩)

/-- The area of help on a screen. -/
def helpArea (width height : UInt16) : Area :=
  ⟨width / 10, height / 10, width * 4 / 5, height * 4 / 5⟩

/-- The stage of loading currencies, as it is shown. -/
def LoadingStatus.label : LoadingStatus → String
  | .uninitialized => "currencies off"
  | .loading => "loading currencies…"
  | .ready => "currencies ready"
  | .failed => "currencies unavailable"

namespace Editor

/-! ### The first line and the status -/

/-- The first line of the screen. -/
def heading (s : Surroundings) (e : Editor) : List String :=
  [s!"mathpad - Math Notepad | Ln {e.buffer.row + 1}, Col {e.buffer.column + 1} | ",
    s.registry.status.label]

/-- The text of the status. -/
def statusText (e : Editor) : String :=
  match e.mode with
  | .editing =>
    let keys := "Ctrl+S: save | Ctrl+O: load | Ctrl+Y: copy result | F1: help | Ctrl+Q: quit"
    e.message.getD ("File: " ++ e.filename.getD "unsaved" ++ " | " ++ keys)
  | .help => "↑↓/jk: scroll | PgUp/PgDn: fast scroll | Home: top | Esc/q: close help"
  | .prompt .save input => s!"Save as: {input.text} (Enter to save, Esc to cancel)"
  | .prompt .load input => s!"Load file: {input.text} (Enter to load, Esc to cancel)"

/-- The title of the text: the name of its file, marked if there are changes. -/
def title (e : Editor) : String :=
  match e.filename with
  | some name => if e.dirty then s!"{name} *" else name
  | none => "untitled"

/-! ### The text -/

/-- The number of cells before each line, for its number. -/
def gutter : UInt16 := 5

/-- The number of a line, right-aligned. -/
def numberText (n : Nat) : String :=
  let digits := toString n
  String.ofList (List.replicate (4 - digits.length) ' ') ++ digits ++ " "

/-- The lines that are shown, with their indices. -/
def visible (e : Editor) : List (Nat × String) :=
  ((e.lines.drop e.scroll).take e.viewport).mapIdx fun i line ↦ (e.scroll + i, line)

/-- The length of the longest line that is shown. -/
def visibleWidth (e : Editor) : Nat := (e.visible.map fun (_, line) ↦ line.length).foldl max 0

/-- The column of the results in an area of the given width. -/
def resultColumn (e : Editor) (width : UInt16) : UInt16 :=
  min (gutter + e.visibleWidth.toUInt16 + 2) (saturatingSub width 12)

/-- The pieces of a line that is shown: its number, itself, and its result after some space. -/
def linePieces (s : Surroundings) (e : Editor) (column : UInt16) : Nat × String → List String
  | (index, line) =>
    let result := match e.shown? s index with
      | some text =>
        let space := max (column.toNat - (gutter.toNat + line.length)) 1
        [String.ofList (List.replicate space ' '), s!"= {text}"]
      | none => []
    numberText (index + 1) :: line :: result

/-- The place of the cursor on the screen, where `inner` is the area of the text. -/
def cursorIn (e : Editor) (inner : Area) : Option (UInt16 × UInt16) :=
  let x := inner.x + gutter + e.buffer.column.toUInt16
  let y := inner.y + (e.buffer.row - e.scroll).toUInt16
  if e.mode = .editing ∧ x < inner.x + inner.width ∧ y < inner.y + inner.height then some (x, y)
  else none

/-! ### Help -/

/-- The box of help on a screen. -/
def helpBox (e : Editor) (a : Area) : List Screen.Row :=
  let height := (saturatingSub a.height 2).toNat
  let start := min e.helpScroll (helpLines.length - height)
  let lines := (helpLines.drop start).take height
  Screen.box s!"mathpad Help (Line {start + 1}/{helpLines.length})" a.width.toNat a.height.toNat
    (Screen.area (saturatingSub a.width 2).toNat height (lines.map ([·])))

/-! ### The screen -/

/-- The editor on a screen on which the text has the area `inner`. -/
def fitted (e : Editor) (inner : Area) : Editor :=
  reveal { e with viewport := max inner.height.toNat 1 }

/-- A box around pieces of text. -/
def textBox (title : String) (a : Area) (rows : List (List String)) : List Screen.Row :=
  Screen.box title a.width.toNat a.height.toNat
    (Screen.area a.inner.width.toNat a.inner.height.toNat rows)

/-- **Shows the editor on a screen.** The number of lines that can be shown becomes that of the screen,
and the line with the cursor is among them. -/
def view (s : Surroundings) (width height : UInt16) (e : Editor) : View × Editor :=
  let (top, middle, bottom) := screenAreas width height
  let e := e.fitted middle.inner
  let column := e.resultColumn middle.inner.width
  let rows :=
    Screen.area top.width.toNat top.height.toNat [e.heading s] ++
      textBox e.title middle (e.visible.map (e.linePieces s column)) ++
      textBox "Status" bottom ((Text.lines e.statusText).map ([·]))
  let help := helpArea width height
  let rows := if e.mode = .help then Screen.put help.x.toNat help.y.toNat (e.helpBox help) rows
    else rows
  (⟨rows.map Screen.rowText, e.cursorIn middle.inner⟩, e)

end Editor

end Reckoner
