import Reckoner.Outcome
import Reckoner.Scalar

/-!
# Tokens

A line of the notepad is a row of tokens: numbers, names, and marks. The power sign has two spellings,
which count as different marks of one meaning; the words `to` and `in` are one mark.

`Tokens` is what is left to read. It ends where the line ends, or at the first character that starts
no token. A reader sees one token ahead, so it meets such a character when it steps onto it, and not
before: `advance` fails there.
-/

namespace Reckoner

/-- Why a line has no meaning. -/
inductive ParseError where
  /-- The character, in the given column from zero, starts no token. -/
  | unexpectedCharacter (character : Char) (column : Nat)
  /-- The exponent of a unit, in its written form, is not a whole number within the limit. -/
  | invalidNumber (text : String)
  | expected (what found : String)
  | unexpectedToken (text : String)
  | invalidAssignment
  /-- The expression is nested deeper than the limit. -/
  | tooDeep (limit : Nat)
deriving DecidableEq, Repr

/-- The message for the user. -/
def ParseError.message : ParseError → String
  | .unexpectedCharacter c column => s!"unexpected character '{c}' at column {column}"
  | .invalidNumber text => s!"invalid number: {text}"
  | .expected what found => s!"expected {what}, found {found}"
  | .unexpectedToken text => s!"unexpected token: {text}"
  | .invalidAssignment => "invalid assignment target"
  | .tooDeep limit => s!"expression nested deeper than {limit} levels"

/-- A token whose numbers are of type `K`. -/
inductive Token (K : Type) where
  | number (value : K)
  | name (text : String)
  | plus
  | minus
  | times
  | divide
  | modulo
  /-- The power sign `**`. -/
  | stars
  /-- The power sign `^`. -/
  | caret
  | less
  | lessEqual
  | greater
  | greaterEqual
  | equal
  | notEqual
  | assign
  /-- One of the words `to` and `in`. -/
  | into
  | leftParen
  | rightParen
  | comma
  | semicolon
deriving DecidableEq, Repr

namespace Token

variable {K : Type}

/-- A token as messages write it. -/
def text [Scalar K] : Token K → String
  | number value => Scalar.text value
  | name text => text
  | plus => "+"
  | minus => "-"
  | times => "*"
  | divide => "/"
  | modulo => "%"
  | stars => "**"
  | caret => "^"
  | less => "<"
  | lessEqual => "<="
  | greater => ">"
  | greaterEqual => ">="
  | equal => "=="
  | notEqual => "!="
  | assign => "="
  | into => "to"
  | leftParen => "("
  | rightParen => ")"
  | comma => ","
  | semicolon => ";"

/-- Whether the token is one of the two power signs. -/
def isPower : Token K → Bool
  | stars | caret => true
  | _ => false

/-- Whether the token is a minus sign. -/
def isMinus : Token K → Bool
  | minus => true
  | _ => false

/-- Whether the token is a semicolon. -/
def isSemicolon : Token K → Bool
  | semicolon => true
  | _ => false

end Token

/-- The tokens that are left to read. -/
inductive Tokens (K : Type) where
  /-- The line ends here. -/
  | done
  /-- A character follows that starts no token. -/
  | broken (error : ParseError)
  | more (token : Token K) (rest : Tokens K)
deriving DecidableEq, Repr

namespace Tokens

variable {K : Type}

/-- How many tokens can still be read. -/
def length : Tokens K → Nat
  | done => 0
  | broken _ => 0
  | more _ rest => rest.length + 1

/-- The next token; none at the end of the line. -/
def peek : Tokens K → Option (Token K)
  | more t _ => some t
  | _ => none

/-- Looks at the first token, which fails on a character that starts none. -/
def look : Tokens K → Except ParseError (Tokens K)
  | broken e => .error e
  | ts => .ok ts

/-- Drops the next token and looks at the one after it. -/
def advance : Tokens K → Except ParseError (Tokens K)
  | more _ rest => rest.look
  | ts => ts.look

/-- Drops the next token if it satisfies a test, and tells whether it did. -/
def advanceIf (test : Token K → Bool) (ts : Tokens K) : Except ParseError (Bool × Tokens K) :=
  if ts.peek.any test then ts.advance.map (true, ·) else .ok (false, ts)

/-- The next token as messages write it. -/
def found [Scalar K] (ts : Tokens K) : String :=
  match ts.peek with
  | some t => t.text
  | none => "end of input"

theorem eq_of_look {ts us : Tokens K} (h : ts.look = .ok us) : us = ts := by
  cases ts <;> simp_all [look]

/-- Stepping over a token shortens what is left. -/
theorem length_advance {ts us : Tokens K} {t : Token K} (hp : ts.peek = some t)
    (h : ts.advance = .ok us) : us.length < ts.length := by
  cases ts with
  | more t rest => simp only [advance] at h; simp [length, eq_of_look h]
  | done => simp [peek] at hp
  | broken e => simp [peek] at hp

theorem length_advance_le {ts us : Tokens K} (h : ts.advance = .ok us) :
    us.length ≤ ts.length := by
  cases ts with
  | more t rest => simp only [advance] at h; simp [length, eq_of_look h]
  | done => simp only [advance] at h; simp [eq_of_look h]
  | broken e => simp only [advance] at h; simp [eq_of_look h]

theorem length_advanceIf_le {test : Token K → Bool} {ts us : Tokens K} {b : Bool}
    (h : ts.advanceIf test = .ok (b, us)) : us.length ≤ ts.length := by
  simp only [advanceIf] at h
  split at h
  · obtain ⟨vs, hv, h⟩ := Outcome.map_eq_ok.1 h
    simp only [Prod.mk.injEq] at h
    exact h.2 ▸ length_advance_le hv
  · simp_all

end Tokens

end Reckoner
