import Reckoner.Text.Conjuncts
import Reckoner.Text.Controls
import Reckoner.Text.Marks
import Reckoner.Text.Pictographs

/-!
# Clusters of characters

What a reader takes for one character may be several: a letter with its marks, a Korean syllable in
its parts, consonants that are linked, pictographs that are joined into one, or the two halves of a
flag. A text is split into such clusters from left to right; whether two neighbours belong together
depends on what the cluster holds so far.
-/

namespace Reckoner.Text

/-- The character that joins pictographs. -/
def joiner : Char := '\u200d'

/-- Whether a character is half of a flag. -/
def isFlagHalf (c : Char) : Bool := 0x1F1E6 ≤ c.toNat && c.toNat ≤ 0x1F1FF

/-- The parts of Korean syllables. -/
inductive SyllablePart where
  | leading
  | vowel
  | trailing
  /-- A syllable that may get a trailing part. -/
  | openSyllable
  | closedSyllable
  | none
deriving DecidableEq, Repr

/-- The part of a syllable that a character is. -/
def syllablePart (c : Char) : SyllablePart :=
  let n := c.toNat
  if 0x1100 ≤ n ∧ n ≤ 0x115F ∨ 0xA960 ≤ n ∧ n ≤ 0xA97C then .leading
  else if 0x1160 ≤ n ∧ n ≤ 0x11A7 ∨ 0xD7B0 ≤ n ∧ n ≤ 0xD7C6 then .vowel
  else if 0x11A8 ≤ n ∧ n ≤ 0x11FF ∨ 0xD7CB ≤ n ∧ n ≤ 0xD7FB then .trailing
  else if 0xAC00 ≤ n ∧ n ≤ 0xD7A3 then
    if (n - 0xAC00) % 28 = 0 then .openSyllable else .closedSyllable
  else .none

/-- Whether two parts belong to one syllable. -/
def SyllablePart.continues : SyllablePart → SyllablePart → Bool
  | .leading, .leading => true
  | .leading, .vowel => true
  | .leading, .openSyllable => true
  | .leading, .closedSyllable => true
  | .openSyllable, .vowel => true
  | .openSyllable, .trailing => true
  | .vowel, .vowel => true
  | .vowel, .trailing => true
  | .closedSyllable, .trailing => true
  | .trailing, .trailing => true
  | _, _ => false

/-- A cluster so far, the last character first. -/
abbrev OpenCluster := List Char

/-- Whether the cluster ends in a pictograph, perhaps with marks, and a joiner. -/
def endsInJoinedPictograph : OpenCluster → Bool
  | c :: rest => c = joiner && (rest.dropWhile isExtending).head?.any isPictograph
  | [] => false

/-- The character that keeps consonants apart although it extends the one before it. -/
def nonJoiner : Char := '\u200c'

/-- Whether a mark may stand between linked consonants. -/
def isConjunctMark (c : Char) : Bool := (isExtending c && c != nonJoiner) || c = joiner

/-- Whether the cluster ends in a consonant and marks, of which at least one links it to the next. -/
def endsInLinkedConsonant (cluster : OpenCluster) : Bool :=
  (cluster.takeWhile isConjunctMark).any isLinker &&
    (cluster.dropWhile isConjunctMark).head?.any isLinkedConsonant

/-- Whether the cluster ends in a first half of a flag. -/
def endsInFlagHalf (cluster : OpenCluster) : Bool := (cluster.takeWhile isFlagHalf).length % 2 = 1

/-- **Whether a character belongs to the cluster before it.** -/
def joins (cluster : OpenCluster) (next : Char) : Bool :=
  match cluster with
  | [] => true
  | last :: _ =>
    if last = '\r' ∧ next = '\n' then true
    else if isControl last || isControl next then false
    else
      (syllablePart last).continues (syllablePart next) || isExtending next || next = joiner ||
        isSpacingMark next || isPrepended last ||
        (endsInLinkedConsonant cluster && isLinkedConsonant next) ||
        (endsInJoinedPictograph cluster && isPictograph next) ||
        (endsInFlagHalf cluster && isFlagHalf next)

/-- The clusters of some characters, of which the first one is open. -/
def clustersFrom (cluster : OpenCluster) : List Char → List (List Char)
  | [] => if cluster.isEmpty then [] else [cluster.reverse]
  | c :: cs =>
    if joins cluster c then clustersFrom (c :: cluster) cs
    else cluster.reverse :: clustersFrom [c] cs

/-- **The clusters of a row of characters.** -/
def clusters (cs : List Char) : List (List Char) := clustersFrom [] cs

/-- Nothing is lost in clusters. -/
theorem clustersFrom_flatten (cs : List Char) (cluster : OpenCluster) :
    (clustersFrom cluster cs).flatten = cluster.reverse ++ cs := by
  induction cs generalizing cluster with
  | nil =>
    cases cluster <;> simp [clustersFrom]
  | cons c cs ih =>
    rw [clustersFrom]
    split <;> simp [ih]

end Reckoner.Text
