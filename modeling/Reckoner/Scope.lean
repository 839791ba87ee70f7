import Reckoner.Table
import Reckoner.Value.Basic

/-!
# Scopes

The names that the lines of a document have bound so far, with three names of special meaning: `last`
is the result of the previous line, and `today` and `now` are dates.
-/

namespace Reckoner

/-- Names and their values. -/
abbrev Scope (K : Type) := Table String (Value K)

namespace Scope

variable {K : Type}

/-- The name of the previous result. -/
def lastName : String := "last"

/-- The name of the start of the current day. -/
def todayName : String := "today"

/-- The name of the current instant. -/
def nowName : String := "now"

/-- The previous result. -/
def last? (scope : Scope K) : Option (Value K) := scope.get? lastName

/-- Records the result of a line. -/
def setLast (scope : Scope K) (v : Value K) : Scope K := scope.insert lastName v

/-- The scope at the start of a document: the current day and instant. -/
def atInstant (now : Date) : Scope K :=
  Table.ofList [(todayName, .date now.midnight), (nowName, .date now)]

end Scope

end Reckoner
