/-!
# Readers of text

A reader takes a value off the front of some characters and gives the characters after it, or refuses
and takes nothing. Readers are put together one after another (`do`) and as alternatives (`<|>`), of
which the first one that does not refuse counts.

Repetition is bounded by the number of characters: a step of a repetition that takes no character ends
it.
-/

namespace Reckoner.Text

/-- A reader of values of type `α`. -/
def Reader (α : Type) : Type := List Char → Option (α × List Char)

namespace Reader

variable {α β : Type}

instance : Monad Reader where
  pure a := fun cs ↦ some (a, cs)
  bind p f := fun cs ↦ (p cs).bind fun (a, rest) ↦ f a rest

/-- Refuses. -/
def refuse : Reader α := fun _ ↦ none

instance : Alternative Reader where
  failure := refuse
  orElse p q := fun cs ↦ (p cs).orElse fun _ ↦ q () cs

/-- Gives a value that is there, and refuses otherwise. -/
def lift (a : Option α) : Reader α := fun cs ↦ a.map (·, cs)

/-- The next character, which stays where it is. -/
def peek : Reader (Option Char) := fun cs ↦ some (cs.head?, cs)

/-- The next character, if it satisfies a test. -/
def character (test : Char → Bool) : Reader Char
  | c :: rest => if test c then some (c, rest) else none
  | [] => none

/-- One given character. -/
def exactly (c : Char) : Reader Unit := do
  let _ ← character (· = c)

/-- A given row of characters. -/
def row (cs : List Char) : Reader Unit := cs.forM exactly

/-- All characters up to the first that fails a test. -/
def many (test : Char → Bool) : Reader (List Char) :=
  fun cs ↦ some (cs.takeWhile test, cs.dropWhile test)

/-- As many characters as satisfy a test, at least one. -/
def many1 (test : Char → Bool) : Reader (List Char) := do
  let cs ← many test
  if cs.isEmpty then refuse else pure cs

/-- Exactly `n` characters that satisfy a test. -/
def times (n : Nat) (test : Char → Bool) : Reader (List Char) :=
  fun cs ↦
    let taken := cs.take n
    if taken.length = n ∧ taken.all test then some (taken, cs.drop n) else none

/-- As many values as can be read, at most `n`, up to one that takes no character. -/
def repeatUpTo (p : Reader α) : Nat → Reader (List α)
  | 0 => pure []
  | n + 1 => fun cs ↦
    match p cs with
    | none => some ([], cs)
    | some (a, rest) =>
      if rest.length < cs.length then (repeatUpTo p n rest).map fun (as, rest) ↦ (a :: as, rest)
      else some ([a], rest)

/-- As many values as can be read. -/
def repeated (p : Reader α) : Reader (List α) := fun cs ↦ repeatUpTo p cs.length cs

/-- Values with a separator between any two; none at all is possible. -/
def separated (p : Reader α) (separator : Reader Unit) : Reader (List α) := (do
  let first ← p
  let more ← repeated (do separator; p)
  pure (first :: more)) <|> pure []

/-- The value of a text that a reader takes as a whole. -/
def whole? (p : Reader α) (cs : List Char) : Option α :=
  match p cs with
  | some (a, []) => some a
  | _ => none

end Reader

end Reckoner.Text
