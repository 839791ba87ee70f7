import Reckoner.Expr.Basic

/-!
# Statements

A line of the notepad is one statement: nothing but a comment, an expression, an assignment, or the
definition of a function by one expression. A semicolon at its end makes it silent.
-/

namespace Reckoner

/-- What a line does. -/
inductive Action (K : Type) where
  /-- Nothing: the line holds a comment or a lone semicolon. -/
  | empty
  | expression (e : Expr K)
  | assign (name : String) (value : Expr K)
  | define (name : String) (params : List String) (body : Expr K)
deriving Repr

/-- A line that has been read. -/
structure Statement (K : Type) where
  action : Action K
  /-- Whether the result stays hidden. -/
  silent : Bool
deriving Repr

end Reckoner
