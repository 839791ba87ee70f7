import Reckoner.Text.Ranges

/-!
# Blank characters

The characters with the Unicode property *White_Space*, and trimming of text by them.
-/

namespace Reckoner.Text

/-- The code points with the property *White_Space*. -/
def blankRanges : List (Nat × Nat) :=
  [(0x9, 0xD), (0x20, 0x20), (0x85, 0x85), (0xA0, 0xA0), (0x1680, 0x1680), (0x2000, 0x200A),
    (0x2028, 0x2029), (0x202F, 0x202F), (0x205F, 0x205F), (0x3000, 0x3000)]

/-- Whether a character is white space. -/
def isBlank (c : Char) : Bool := inRanges blankRanges c

/-- The characters without blanks at both ends. -/
def trimChars (cs : List Char) : List Char :=
  ((cs.dropWhile isBlank).reverse.dropWhile isBlank).reverse

/-- The text without blanks at both ends. -/
def trim (s : String) : String := String.ofList (trimChars s.toList)

end Reckoner.Text
