/-!
# JSON values

Files that the program keeps for itself are written in JSON. A number is kept as it is written, digit
by digit, so that reading a file decides nothing about what its numbers mean.
-/

namespace Reckoner

/-- A number as it is written: `-whole.fraction` times ten to the power of `exponent`. -/
structure Json.Numeral where
  negative : Bool
  whole : List Char
  fraction : List Char
  exponent : Int
deriving DecidableEq, Repr

/-- A JSON value. Members keep their order, and a name may occur twice. -/
inductive Json where
  | null
  | boolean (b : Bool)
  | number (n : Json.Numeral)
  | string (text : String)
  | array (items : List Json)
  | object (members : List (String × Json))
deriving Repr

namespace Json

/-- The last value of a name in a list of members. -/
def lastMember? (members : List (String × Json)) (name : String) : Option Json :=
  (members.reverse.find? (·.1 = name)).map (·.2)

/-- The value of a member of an object. -/
def member? (name : String) : Json → Option Json
  | object members => lastMember? members name
  | _ => none

/-- The fields of a record. An object gives fields by name, each at most once, and may have further
members; an array gives exactly all fields in order. -/
def record? (names : List String) : Json → Option (List (Option Json))
  | object members =>
    if names.all fun name ↦ members.countP (·.1 = name) ≤ 1 then
      some (names.map (lastMember? members))
    else none
  | array items => if items.length = names.length then some (items.map some) else none
  | _ => none

/-- The text of a string. -/
def string? : Json → Option String
  | string text => some text
  | _ => none

end Json

end Reckoner
