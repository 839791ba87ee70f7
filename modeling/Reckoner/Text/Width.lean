import Reckoner.Text.Cluster
import Reckoner.Text.Wide

/-!
# Width on the screen

A character takes one cell of the screen, or two if it is wide, or none if it only modifies what is
before it. A cluster takes the cells of its characters, but pictographs that are joined or modified
take the two cells of a single one, and so does a narrow character that is followed by the request to
look like a picture. A carriage return with a newline takes one cell.
-/

namespace Reckoner.Text

/-- Whether a character changes the colour of a pictograph. -/
def isPictographModifier (c : Char) : Bool := 0x1F3FB ≤ c.toNat && c.toNat ≤ 0x1F3FF

/-- The request to look like a picture. -/
def pictureRequest : Char := '\ufe0f'

/-- The number of cells that a character takes. -/
def charWidth (c : Char) : Nat :=
  if c.toNat < 0xAD then 1
  else if isPictographModifier c then 2
  else if isExtending c || isInvisible c || c = joiner then 0
  else if isWide c then 2
  else 1

/-- The number of cells that some characters take one by one. -/
def charsWidth (cs : List Char) : Nat := cs.foldl (fun n c ↦ n + charWidth c) 0

/-- **The number of cells that a cluster takes.** -/
def clusterWidth : List Char → Nat
  | [] => 0
  | ['\r', '\n'] => 1
  | c :: rest =>
    if isPictograph c && rest.any fun d ↦ isPictograph d || isPictographModifier d then 2
    else if rest.head? = some pictureRequest ∧ isPictureBase c then 2 + charsWidth rest
    else charsWidth (c :: rest)

end Reckoner.Text
