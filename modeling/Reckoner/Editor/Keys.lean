import Reckoner.Editor.Basic

/-!
# Keys

What a key does depends on the mode. The control key counts only while the text is edited; there, keys
with control never change the text.
-/

namespace Reckoner

/-- A key. -/
inductive Key where
  | char (c : Char)
  | enter
  | backspace
  | delete
  | left
  | right
  | up
  | down
  | home
  | lineEnd
  | pageUp
  | pageDown
  | tab
  | escape
  | insert
  | function (n : Nat)
deriving DecidableEq, Repr

/-- The key that types a character. -/
def Key.ofChar (c : Char) : Key := if c = '\n' then .enter else .char c

namespace Editor

/-- A key with control while the text is edited. -/
def pressControl (s : Surroundings) (key : Key) (e : Editor) : Editor × Option Request :=
  match key with
  | .char 's' => (e.ask .save, none)
  | .char 'o' => (e.ask .load, none)
  | .char 'y' => match e.copyText? s with
    | some text => (e, some (.copy text))
    | none => ({ e with message := some "Nothing to copy on this line" }, none)
  | .home => (e.move .toStart, none)
  | .lineEnd => (e.move .toEnd, none)
  | _ => (e, none)

/-- A key without control while the text is edited. -/
def pressEditing (s : Surroundings) (key : Key) (e : Editor) : Editor :=
  match key with
  | .char c => e.insert s c
  | .tab => Nat.repeat (insert s ' ') 4 e
  | .enter => e.breakLine s
  | .backspace => e.backspace s
  | .delete => e.delete s
  | .left => e.move .left
  | .right => e.move .right
  | .up => e.move .up
  | .down => e.move .down
  | .home => e.moveInLine .home
  | .lineEnd => e.moveInLine .lineEnd
  | .pageUp => e.pageUp
  | .pageDown => e.pageDown
  | .function 1 => { e with mode := .help, helpScroll := 0 }
  | _ => e

/-- A key while help is shown. -/
def pressHelp (key : Key) (e : Editor) : Editor :=
  match key with
  | .escape | .function 1 | .char 'q' => e.close
  | .up | .char 'k' => { e with helpScroll := e.helpScroll - 1 }
  | .down | .char 'j' => { e with helpScroll := e.helpScroll + 1 }
  | .pageUp => { e with helpScroll := e.helpScroll - 5 }
  | .pageDown => { e with helpScroll := e.helpScroll + 5 }
  | .home => { e with helpScroll := 0 }
  | _ => e

/-- The input of a prompt after a key that edits it. -/
def editInput (key : Key) (input : CursorLine) : CursorLine :=
  match key with
  | .char c => input.insert c
  | .backspace => input.backspace?.getD input
  | .left => input.left?.getD input
  | .right => input.right?.getD input
  | .home => input.home
  | .lineEnd => input.toEnd
  | _ => input

/-- A key while a prompt is shown. -/
def pressPrompt (purpose : Purpose) (input : CursorLine) (key : Key) (e : Editor) :
    Editor × Option Request :=
  match key, purpose with
  | .enter, .save => (e, some (.save e.content (nameOf input)))
  | .enter, .load => (e, some (.load (nameOf input)))
  | .escape, _ => (e.close, none)
  | key, _ => ({ e with mode := .prompt purpose (editInput key input) }, none)

/-- **What a key does.** -/
def press (s : Surroundings) (control : Bool) (key : Key) (e : Editor) : Editor × Option Request :=
  match e.mode with
  | .editing => if control then e.pressControl s key else (e.pressEditing s key, none)
  | .help => (e.pressHelp key, none)
  | .prompt purpose input => e.pressPrompt purpose input key

end Editor

end Reckoner
