import Reckoner.EvalError
import Reckoner.Scalar
import Reckoner.Units.Dimension

/-!
# Units

A unit is a name with a dimension and a factor, which takes a value in this unit to the base unit of
the dimension. Units are combined into products of powers such as `kg m / s^2`.

A product keeps its terms in the order in which the names first appeared, and drops those whose power
has become zero. Its dimension is computed along with the terms, so a product whose exponents do not
fit is never built.
-/

namespace Reckoner

/-- A unit under the name that the user wrote. -/
structure NamedUnit (K : Type) where
  name : String
  dimension : Dimension
  /-- The value of one such unit in base units. -/
  factor : K
deriving Repr

/-- A power of a unit within a product. -/
structure UnitTerm (K : Type) where
  unit : NamedUnit K
  power : Int
deriving Repr

/-- A product of powers of units. -/
structure Units (K : Type) where
  terms : List (UnitTerm K)
  dimension : Dimension
deriving Repr

/-- Whether an integer fits a power of a unit. -/
def fitsPower (n : Int) : Bool := Int32.minValue.toInt ≤ n && n ≤ Int32.maxValue.toInt

namespace Units

variable {K : Type}

/-- The product of no units. -/
def one : Units K := ⟨[], .none⟩

/-- A single unit. -/
def single (u : NamedUnit K) : Units K := ⟨[⟨u, 1⟩], u.dimension⟩

/-- Whether there is no unit in the product. -/
def isOne (us : Units K) : Bool := us.terms.isEmpty

/-- Multiplies a row of terms by one more: the power is added to the term with the same unit name, or
the term is appended. -/
def addTerm (t : UnitTerm K) : List (UnitTerm K) → Except EvalError (List (UnitTerm K))
  | [] => .ok [t]
  | u :: rest =>
    if u.unit.name = t.unit.name then
      if fitsPower (u.power + t.power) then .ok ({ u with power := u.power + t.power } :: rest)
      else .error .exponentOverflow
    else (addTerm t rest).map (u :: ·)

/-- The product of two products. -/
def mul (us vs : Units K) : Except EvalError (Units K) :=
  match us.dimension.mul? vs.dimension with
  | none => .error .exponentOverflow
  | some dimension => do
    let terms ← vs.terms.foldlM (fun ts t ↦ addTerm t ts) us.terms
    .ok ⟨terms.filter (·.power ≠ 0), dimension⟩

/-- A term with its power multiplied. -/
def powTerm (n : Int) (t : UnitTerm K) : Except EvalError (UnitTerm K) :=
  if fitsPower (t.power * n) then .ok { t with power := t.power * n }
  else .error .exponentOverflow

/-- The power of a product. -/
def pow (us : Units K) (n : Int) : Except EvalError (Units K) :=
  match us.dimension.pow? n with
  | none => .error .exponentOverflow
  | some dimension => do
    let terms ← us.terms.mapM (powTerm n)
    .ok ⟨terms.filter (·.power ≠ 0), dimension⟩

/-- The quotient: the product with the inverse. -/
def div (us vs : Units K) : Except EvalError (Units K) := do
  us.mul (← vs.pow (-1))

/-- The value of the product in base units. -/
def factor [Scalar K] (us : Units K) : K :=
  us.terms.foldl (fun f t ↦ f * Scalar.powInt t.unit.factor t.power) 1

/-! ### Text -/

/-- A unit with its power, which is not written if it is one. -/
def powerText (name : String) (power : Int) : String :=
  if power = 1 then name else s!"{name}^{power}"

/-- The text of a product: the positive powers, and after a slash the negative ones with their signs
changed, in parentheses if there are several. Without positive powers the negative ones stand alone
and keep their signs. -/
def text (us : Units K) : String :=
  let row := fun (ts : List (UnitTerm K)) (sign : Int) ↦
    " ".intercalate (ts.map fun t ↦ powerText t.unit.name (sign * t.power))
  let above := us.terms.filter (·.power > 0)
  let below := us.terms.filter (·.power < 0)
  match above, below with
  | [], _ => row below 1
  | _, [] => row above 1
  | _, [_] => s!"{row above 1} / {row below (-1)}"
  | _, _ => s!"{row above 1} / ({row below (-1)})"

end Units

end Reckoner
