/-!
# Values of a settings file

Settings are written in TOML: keys with values, gathered in tables. This module holds the values and
says how keys and headers put tables together.

A table remembers how it came to be, because that decides what may still be added to it. A header
`[a.b]` makes the table `b` and, where it is missing, the table `a` around it. A dotted key `a.b = 1`
makes the table `a` as well, but then only dotted keys may add to it. A table `{ … }` in one line is
complete as it stands.
-/

namespace Reckoner

namespace Toml

/-- How a table came to be. -/
inductive Origin where
  /-- By its own header. -/
  | header
  /-- By the header of a table inside it. -/
  | implied
  /-- By a dotted key. -/
  | dotted
  /-- Written in one line. -/
  | inline
deriving DecidableEq, Repr

end Toml

/-- A value of a settings file. Dates and times are recognised but no setting is one, so what they
say is not kept. -/
inductive Toml where
  | string (text : String)
  | integer (n : Int)
  | float (x : Float)
  | boolean (b : Bool)
  | date
  | array (items : List Toml)
  | table (origin : Toml.Origin) (entries : List (String × Toml))
  /-- Tables of one name, in the order of their headers `[[a]]`. -/
  | tables (items : List (List (String × Toml)))

namespace Toml

/-- The entries of a table. -/
abbrev Entries := List (String × Toml)

/-- The value of a key. -/
def Entries.get? : Entries → String → Option Toml
  | [], _ => none
  | (k, v) :: rest, key => if k = key then some v else Entries.get? rest key

/-- The entries with the value of a key, which is present, changed. -/
def Entries.set (entries : Entries) (key : String) (v : Toml) : Entries :=
  entries.map fun (k, old) ↦ (k, if k = key then v else old)

/-- The entries with a further key. -/
def Entries.add (entries : Entries) (key : String) (v : Toml) : Entries := entries ++ [(key, v)]

/-- Whether a path may lead through a table. Dotted keys do not add to a table that has a header. -/
def Origin.admits (dotted : Bool) : Origin → Bool
  | .header => !dotted
  | .implied => true
  | .dotted => true
  | .inline => false

/-- Changes the table at the end of a path. Tables that are missing on the way are made; of tables of
one name the last is entered. -/
def changeAt (dotted : Bool) (change : Origin → Entries → Option Entries) :
    (path : List String) → Origin → Entries → Option Entries
  | [], origin, entries => change origin entries
  | key :: path, _, entries =>
    match entries.get? key with
    | none => do
      let origin := if dotted then .dotted else .implied
      let inner ← changeAt dotted change path origin []
      some (entries.add key (.table origin inner))
    | some (.table origin inner) =>
      if origin.admits dotted then do
        let inner ← changeAt dotted change path origin inner
        some (entries.set key (.table origin inner))
      else none
    | some (.tables items) => do
      let inner ← changeAt dotted change path .header (items.getLast?.getD [])
      some (entries.set key (.tables (items.dropLast ++ [inner])))
    | some _ => none

/-- Adds a key at the end of a dotted path. The key must be new, and a path that is not empty must
end in a table that dotted keys made. -/
def assign (path : List String) (key : String) (v : Toml) (origin : Origin) (entries : Entries) :
    Option Entries :=
  changeAt true (fun origin entries ↦
    if (origin = .dotted ↔ path = []) ∨ (entries.get? key).isSome then none
    else some (entries.add key v)) path origin entries

/-- Opens the table of a header, which must be new or only implied so far. -/
def openTable (path : List String) (key : String) (entries : Entries) : Option Entries :=
  changeAt false (fun _ entries ↦
    match entries.get? key with
    | none => some (entries.add key (.table .header []))
    | some (.table .implied inner) => some (entries.set key (.table .header inner))
    | some _ => none) path .header entries

/-- Opens one more table of one name. -/
def appendTable (path : List String) (key : String) (entries : Entries) : Option Entries :=
  changeAt false (fun _ entries ↦
    match entries.get? key with
    | none => some (entries.add key (.tables [[]]))
    | some (.tables items) => some (entries.set key (.tables (items ++ [[]])))
    | some _ => none) path .header entries

/-! ### Documents -/

/-- What a line of a settings file says. -/
inductive Directive where
  /-- `[path.key]` -/
  | table (path : List String) (key : String)
  /-- `[[path.key]]` -/
  | tables (path : List String) (key : String)
  /-- `path.key = value` -/
  | value (path : List String) (key : String) (v : Toml)

/-- Adds directives to a document in which the table at the path `current` is open. -/
def build (current : List String) (entries : Entries) : List Directive → Option Entries
  | [] => some entries
  | .table path key :: rest => do build (path ++ [key]) (← openTable path key entries) rest
  | .tables path key :: rest => do build (path ++ [key]) (← appendTable path key entries) rest
  | .value path key v :: rest => do
    build current (← changeAt false (assign path key v) current .header entries) rest

/-- The document of some directives. -/
def ofDirectives? (directives : List Directive) : Option Entries := build [] [] directives

/-- The table that is written in one line with the given keys. -/
def inlineTable? (pairs : List (List String × String × Toml)) : Option Toml := do
  let entries ← pairs.foldlM (fun entries (path, key, v) ↦ assign path key v .inline entries) []
  some (.table .inline entries)

end Toml

end Reckoner
