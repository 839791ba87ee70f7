import Reckoner.Units.Basic
import Reckoner.Table

/-!
# The units that are known by name

The built-in units have one or more names each. Some take the short prefixes of their symbols (`km`),
others the long prefixes of their words (`kilometer`), and the rest none.

A name is looked up as it stands first, then as a short prefix and the rest, then as a long prefix and
the rest.
-/

namespace Reckoner

/-- Which prefixes the names of a unit take. -/
inductive Prefixes where
  | none
  | short
  | long
deriving DecidableEq, Repr

/-- A unit with all its names. -/
structure UnitDefinition (K : Type) where
  names : List String
  dimension : Dimension
  factor : K
  prefixes : Prefixes

namespace Units

variable {K : Type} [Scalar K]

/-- The prefixes of unit symbols, in the order in which they are tried. -/
def shortPrefixes : List (String × K) :=
  [("da", 1e1), ("Y", 1e24), ("Z", 1e21), ("E", 1e18), ("P", 1e15), ("T", 1e12), ("G", 1e9),
    ("M", 1e6), ("k", 1e3), ("h", 1e2), ("d", 1e-1), ("c", 1e-2), ("m", 1e-3), ("u", 1e-6),
    ("µ", 1e-6), ("n", 1e-9), ("p", 1e-12), ("f", 1e-15), ("a", 1e-18)]

/-- The prefixes of unit words, in the order in which they are tried. -/
def longPrefixes : List (String × K) :=
  [("tera", 1e12), ("giga", 1e9), ("mega", 1e6), ("kilo", 1e3), ("hecto", 1e2), ("deca", 1e1),
    ("deci", 1e-1), ("centi", 1e-2), ("milli", 1e-3), ("micro", 1e-6), ("nano", 1e-9),
    ("pico", 1e-12)]

/-! ### Dimensions of derived units -/

/-- The dimension with the given exponents of length, mass, time and current. -/
def mechanical (length mass time current : Int) : Dimension :=
  (Dimension.ofInts? fun i ↦ [length, mass, time, current].getD i 0).getD .none

/-- The dimension of volume. -/
def volume : Dimension := mechanical 3 0 0 0

/-- The dimension of frequency. -/
def frequency : Dimension := mechanical 0 0 (-1) 0

/-- The dimension of velocity. -/
def velocity : Dimension := mechanical 1 0 (-1) 0

/-- The dimension of force. -/
def force : Dimension := mechanical 1 1 (-2) 0

/-- The dimension of energy. -/
def energy : Dimension := mechanical 2 1 (-2) 0

/-- The dimension of power. -/
def power : Dimension := mechanical 2 1 (-3) 0

/-- The dimension of pressure. -/
def pressure : Dimension := mechanical (-1) 1 (-2) 0

/-- The dimension of voltage. -/
def voltage : Dimension := mechanical 2 1 (-3) (-1)

/-! ### The built-in units -/

/-- Half the circumference of the unit circle. -/
def pi : K := 3.141592653589793

/-- The built-in units. -/
def builtin : List (UnitDefinition K) :=
  let length := Dimension.base .length
  let mass := Dimension.base .mass
  let time := Dimension.base .time
  let current := Dimension.base .current
  let angle := Dimension.base .angle
  let information := Dimension.base .information
  [⟨["m"], length, 1, .short⟩,
    ⟨["meter", "meters", "metre", "metres"], length, 1, .long⟩,
    ⟨["inch", "inches"], length, 0.0254, .none⟩,
    ⟨["ft", "foot", "feet"], length, 0.3048, .none⟩,
    ⟨["yd", "yard", "yards"], length, 0.9144, .none⟩,
    ⟨["mi", "mile", "miles"], length, 1609.344, .none⟩,
    ⟨["nmi"], length, 1852, .none⟩,
    ⟨["g"], mass, 1e-3, .short⟩,
    ⟨["gram", "grams"], mass, 1e-3, .long⟩,
    ⟨["t", "tonne", "tonnes"], mass, 1e3, .none⟩,
    ⟨["lb", "lbs", "pound", "pounds"], mass, 0.45359237, .none⟩,
    ⟨["oz", "ounce", "ounces"], mass, 0.028349523125, .none⟩,
    ⟨["s"], time, 1, .short⟩,
    ⟨["sec", "secs", "second", "seconds"], time, 1, .long⟩,
    ⟨["min", "mins", "minute", "minutes"], time, 60, .none⟩,
    ⟨["h", "hr", "hrs", "hour", "hours"], time, 3600, .none⟩,
    ⟨["day", "days"], time, 86400, .none⟩,
    ⟨["week", "weeks"], time, 604800, .none⟩,
    ⟨["month", "months"], time, 2629800, .none⟩,
    ⟨["year", "years"], time, 31557600, .none⟩,
    ⟨["A"], current, 1, .short⟩,
    ⟨["ampere", "amperes"], current, 1, .long⟩,
    ⟨["K"], .base .temperature, 1, .short⟩,
    ⟨["kelvin"], .base .temperature, 1, .none⟩,
    ⟨["mol"], .base .amount, 1, .short⟩,
    ⟨["cd"], .base .luminosity, 1, .none⟩,
    ⟨["rad"], angle, 1, .short⟩,
    ⟨["radian", "radians"], angle, 1, .long⟩,
    ⟨["deg", "degree", "degrees"], angle, pi / 180, .none⟩,
    ⟨["b"], information, 1, .short⟩,
    ⟨["bit", "bits"], information, 1, .long⟩,
    ⟨["B"], information, 8, .short⟩,
    ⟨["byte", "bytes"], information, 8, .long⟩,
    ⟨["L", "l"], volume, 1e-3, .short⟩,
    ⟨["liter", "liters", "litre", "litres"], volume, 1e-3, .long⟩,
    ⟨["Hz"], frequency, 1, .short⟩,
    ⟨["mph"], velocity, 0.44704, .none⟩,
    ⟨["N"], force, 1, .short⟩,
    ⟨["J"], energy, 1, .short⟩,
    ⟨["cal"], energy, 4.184, .short⟩,
    ⟨["Wh"], energy, 3600, .short⟩,
    ⟨["W"], power, 1, .short⟩,
    ⟨["Pa"], pressure, 1, .short⟩,
    ⟨["V"], voltage, 1, .short⟩]

/-- The built-in unit that has a name as it stands. -/
def definition? (name : String) : Option (UnitDefinition K) :=
  builtin.find? fun d ↦ d.names.contains name

/-- The rest of a name after a prefix. -/
def afterPrefix? (lead name : String) : Option String :=
  let cs := name.toList
  if lead.toList.isPrefixOf cs then some (String.ofList (cs.drop lead.length)) else none

/-- The unit whose name is one of the given prefixes and the name of a unit that takes them. -/
def prefixed? (kind : Prefixes) (prefixes : List (String × K)) (name : String) :
    Option (NamedUnit K) :=
  prefixes.findSome? fun (lead, scale) ↦ do
    let d ← definition? (← afterPrefix? lead name)
    if d.prefixes = kind then some ⟨name, d.dimension, d.factor * scale⟩ else none

/-- **The unit of a name**: as it stands, with a short prefix, or with a long one. -/
def lookup (name : String) : Option (NamedUnit K) :=
  match definition? name with
  | some d => some ⟨name, d.dimension, d.factor⟩
  | none => prefixed? .short shortPrefixes name <|> prefixed? .long longPrefixes name

/-- How many names the built-in units have. -/
def nameCount : Nat := (builtin (K := K)).foldl (fun n unit ↦ n + unit.names.length) 0

end Units

end Reckoner
