/-!
# Kinds of values

The kind of a value is what operator rules are selected by, and what messages call it.
-/

namespace Reckoner

/-- The kinds of values. -/
inductive Kind where
  | number
  | date
  | quantity
  | function
  | undefined
  | error
deriving DecidableEq, Repr

namespace Kind

/-- The name of a kind in messages. -/
def name : Kind → String
  | number => "Number"
  | date => "Date"
  | quantity => "Unit"
  | function => "Function"
  | undefined => "Undefined"
  | error => "Error"

/-- All kinds, in the order in which they are listed. -/
def all : List Kind := [number, date, quantity, function, undefined, error]

end Kind

end Reckoner
