import Reckoner.Text.Ranges

/-!
# Conjuncts

In six scripts of India a consonant, a sign that links it to the next one, and that next consonant are
written as one: they are the characters whose Unicode property *Indic_Conjunct_Break* is *Consonant*
or *Linker*.
-/

namespace Reckoner.Text

/-- The code points of linking signs. -/
def linkerRanges : List (Nat × Nat) :=
  [(0x94D, 0x94D), (0x9CD, 0x9CD), (0xACD, 0xACD), (0xB4D, 0xB4D), (0xC4D, 0xC4D), (0xD4D, 0xD4D)]

/-- Whether a character links two consonants. -/
def isLinker (c : Char) : Bool := inRanges linkerRanges c

/-- The code points of consonants that can be linked. -/
def linkedConsonantRanges : List (Nat × Nat) :=
  [(0x915, 0x939), (0x958, 0x95F), (0x978, 0x97F), (0x995, 0x9A8), (0x9AA, 0x9B0), (0x9B2, 0x9B2),
    (0x9B6, 0x9B9), (0x9DC, 0x9DD), (0x9DF, 0x9DF), (0x9F0, 0x9F1), (0xA95, 0xAA8), (0xAAA, 0xAB0),
    (0xAB2, 0xAB3), (0xAB5, 0xAB9), (0xAF9, 0xAF9), (0xB15, 0xB28), (0xB2A, 0xB30), (0xB32, 0xB33),
    (0xB35, 0xB39), (0xB5C, 0xB5D), (0xB5F, 0xB5F), (0xB71, 0xB71), (0xC15, 0xC28), (0xC2A, 0xC39),
    (0xC58, 0xC5A), (0xD15, 0xD3A)]

/-- Whether a character is a consonant that can be linked. -/
def isLinkedConsonant (c : Char) : Bool := inRanges linkedConsonantRanges c

end Reckoner.Text
