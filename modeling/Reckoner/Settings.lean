import Reckoner.Engine.Basic
import Reckoner.Toml.Reader
import Reckoner.Value.Format

/-!
# Settings

Limits, the format of numbers and the handling of currencies can be set in a file. Every setting has a
default, and what a file says beyond the settings is ignored. A section is a table; an array in its
place gives the settings of the section in their order.
-/

namespace Reckoner

/-- How exchange rates are obtained. -/
structure CurrencySettings where
  enabled : Bool := true
  /-- Where rates are fetched from. -/
  url : String := "https://api.exchangeratesapi.io/latest"
  /-- Where fetched rates are kept, if not at the default place. -/
  cacheFile : Option String := none
  /-- For how many days rates count as fresh. -/
  freshDays : UInt64 := 7
  timeoutSeconds : UInt64 := 10
deriving DecidableEq, Repr

/-- All settings. -/
structure Settings where
  limits : Limits := {}
  format : Format := {}
  currency : CurrencySettings := {}
deriving DecidableEq, Repr

/-- The file for fetched rates of a user with the given home directory. -/
def defaultCachePath : (home : Option String) → String
  | some home => home ++ (if home.endsWith "/" then "" else "/") ++ ".cache/mathpad/rates.json"
  | none => "/tmp/mathpad-rates.json"

/-- The file in which fetched rates are kept. -/
def CurrencySettings.cachePath (s : CurrencySettings) (home : Option String) : String :=
  s.cacheFile.getD (defaultCachePath home)

/-- Why there are no settings. -/
inductive SettingsError where
  /-- The file cannot be read. -/
  | unreadable (reason : String)
  /-- The file is not written correctly, or a setting has a value of the wrong kind. -/
  | malformed
deriving DecidableEq, Repr

namespace Settings

/-- The values of a section. -/
inductive Section where
  | byName (entries : Toml.Entries)
  | inOrder (items : List Toml)

/-- A value as a section. A date stands for a section that sets nothing. -/
def Section.ofToml? : Toml → Option Section
  | .table _ entries => some (.byName entries)
  | .tables items => some (.inOrder (items.map (.table .header)))
  | .array items => some (.inOrder items)
  | .date => some (.byName [])
  | _ => none

/-- The value of the setting with the given name and place. -/
def Section.get? (s : Section) (name : String) (index : Nat) : Option Toml :=
  match s with
  | .byName entries => entries.get? name
  | .inOrder items => items[index]?

/-- A setting, where absence gives the default and a value of the wrong kind refuses. -/
def Section.read {α : Type} (s : Section) (name : String) (index : Nat) (read? : Toml → Option α)
    (default : α) : Option α :=
  match s.get? name index with
  | none => some default
  | some v => read? v

/-! ### Kinds of settings -/

/-- A count. -/
def count? : Toml → Option Nat
  | .integer n => if 0 ≤ n then some n.toNat else none
  | _ => none

/-- A count of 64 bits. -/
def word? (v : Toml) : Option UInt64 := (count? v).map Nat.toUInt64

/-- An integer of 32 bits. -/
def exponent? : Toml → Option Int
  | .integer n => if Int32.minValue.toInt ≤ n ∧ n ≤ Int32.maxValue.toInt then some n else none
  | _ => none

/-- A truth value. -/
def truth? : Toml → Option Bool
  | .boolean b => some b
  | _ => none

/-- A text. -/
def text? : Toml → Option String
  | .string s => some s
  | _ => none

/-! ### Sections -/

/-- The limits of a section. -/
def limits? (s : Section) : Option Limits := do
  let d : Limits := {}
  some
    { cacheCapacity := ← s.read "cache_capacity" 0 count? d.cacheCapacity
      maxExpressionDepth := ← s.read "max_expression_depth" 1 count? d.maxExpressionDepth
      stepBudget := ← s.read "step_budget" 2 count? d.stepBudget
      maxCallDepth := ← s.read "max_call_depth" 3 count? d.maxCallDepth }

/-- The format of a section. -/
def format? (s : Section) : Option Format := do
  let d : Format := {}
  some
    { lowerExponent := ← s.read "lower_exp" 0 exponent? d.lowerExponent
      upperExponent := ← s.read "upper_exp" 1 exponent? d.upperExponent }

/-- The handling of currencies of a section. -/
def currency? (s : Section) : Option CurrencySettings := do
  let d : CurrencySettings := {}
  some
    { enabled := ← s.read "enabled" 0 truth? d.enabled
      url := ← s.read "url" 1 text? d.url
      cacheFile := ← s.read "cache_file" 2 (fun v ↦ (text? v).map some) d.cacheFile
      freshDays := ← s.read "ttl_days" 3 word? d.freshDays
      timeoutSeconds := ← s.read "timeout_secs" 4 word? d.timeoutSeconds }

/-- The settings of the entries of a file. -/
def ofEntries? (entries : Toml.Entries) : Option Settings := do
  let file := Section.byName entries
  let inSection := fun {α : Type} (read? : Section → Option α) (v : Toml) ↦
    (Section.ofToml? v).bind read?
  some
    { limits := ← file.read "engine" 0 (inSection limits?) {}
      format := ← file.read "format" 1 (inSection format?) {}
      currency := ← file.read "currency" 2 (inSection currency?) {} }

/-- **The settings that a text gives.** -/
def ofText? (text : String) : Option Settings := (Toml.ofText? text).bind ofEntries?

/-- The settings of a file, given what reading it gave; without a file, the default settings. -/
def ofFile : Option (Except String String) → Except SettingsError Settings
  | none => .ok {}
  | some (.error reason) => .error (.unreadable reason)
  | some (.ok text) => match ofText? text with
    | some settings => .ok settings
    | none => .error .malformed

end Settings

end Reckoner
