/-!
# Lines of text

A text is split into lines at newlines. A carriage return before a newline belongs to the line break.
A newline at the end of the text ends the last line and does not start another one, so that a text
that is written line by line, each with a newline after it, reads back as these lines.
-/

namespace Reckoner.Text

/-- The pieces between newlines; the last one has no newline after it. -/
def splitAtNewlines : List Char → List (List Char)
  | [] => [[]]
  | c :: cs =>
    if c = '\n' then [] :: splitAtNewlines cs
    else
      match splitAtNewlines cs with
      | [] => [[c]]
      | piece :: more => (c :: piece) :: more

/-- A piece without a carriage return at its end. -/
def dropFinalReturn (cs : List Char) : List Char :=
  if cs.getLast? = some '\r' then cs.dropLast else cs

/-- The lines of pieces: only before a newline is a carriage return part of the line break, and an
empty piece at the end is no line. -/
def linesOfPieces : List (List Char) → List (List Char)
  | [] => []
  | [last] => if last.isEmpty then [] else [last]
  | piece :: more => dropFinalReturn piece :: linesOfPieces more

/-- The lines of a row of characters. -/
def linesOfChars (cs : List Char) : List (List Char) := linesOfPieces (splitAtNewlines cs)

/-- **The lines of a text.** -/
def lines (text : String) : List String := (linesOfChars text.toList).map String.ofList

/-- The text in which every line ends with a newline. -/
def unlines (lines : List String) : String := String.join (lines.map (· ++ "\n"))

end Reckoner.Text
