import Reckoner.CommandLine.Arguments
import Reckoner.Currency.RateCache
import Reckoner.Notebook.Basic
import Reckoner.Settings
import Reckoner.Text.Lines

/-!
# Running a command

The command `print` evaluates a document and prints each of its lines, followed by its result if it has
one. How files are read is left open, so that the same definition runs on the files of a system and on
a folder that is given as a value. No request over the network is made: where rates are not fresh in
the file, the source fails.
-/

namespace Reckoner.CommandLine

/-- What a command leaves behind. -/
structure Outcome where
  code : UInt32
  output : String := ""
  errors : String := ""
deriving DecidableEq, Repr

/-- The name and version of the program. -/
def versionText : String := "mathpad 0.1.0"

/-- The lines of a document, each with its result. -/
def printout (format : Format) (lines : List String) (results : List (Nat × Value Float)) : String :=
  Text.unlines <| lines.mapIdx fun i line ↦
    match results.lookup i with
    | some v => s!"{line} = {format.value v}"
    | none => line

/-- A document with its results, printed. -/
def print (settings : Settings) (registry : Registry Float) (now : Date) (text : String) : String :=
  let lines := Text.lines text
  let notebook := (Notebook.new settings.limits).evaluate (Engine.standard settings.limits) registry
    now lines
  printout settings.format lines notebook.results

/-- The settings with what the arguments say about currencies. -/
def Arguments.adjust (a : Arguments) (settings : Settings) : Settings :=
  { settings with currency :=
      { settings.currency with
        enabled := settings.currency.enabled && !a.offline
        url := a.ratesUrl.getD settings.currency.url } }

/-- The answer of a source over the network. -/
def request (url : String) : RateAnswer := .ofResponse (.error s!"no connection to {url}")

/-- The message of settings that cannot be used. -/
def settingsMessage (path : String) : SettingsError → String
  | .unreadable reason => s!"cannot read config file {path}: {reason}"
  | .malformed => s!"invalid config file {path}"

/-- The surroundings of a run. -/
structure System (m : Type → Type) where
  /-- Reads a text file, or tells why it cannot. -/
  readFile : String → m (Except String String)
  home : Option String
  now : Date

variable {m : Type → Type} [Monad m]

/-- The currencies that are known when loading has ended. -/
def loadCurrencies (system : System m) (s : CurrencySettings) : m (Registry Float) := do
  if s.enabled then
    let file ← system.readFile (s.cachePath system.home)
    let now : Timestamp := ⟨system.now.millis * 1000000⟩
    let fetch := fetchRates (timeToLive s.freshDays) (request s.url) now now file.toOption
    pure (Registry.uninitialized.load fun _ ↦ fetch.answer).2
  else pure .uninitialized

/-- Prints a document. -/
def runPrint (system : System m) (a : Arguments) (file : String) : m Outcome := do
  let found ← a.config.mapM system.readFile
  match Settings.ofFile found with
  | .error e => pure { code := 1, errors := settingsMessage (a.config.getD "") e }
  | .ok settings =>
    let settings := a.adjust settings
    let registry ← loadCurrencies system settings.currency
    match ← system.readFile file with
    | .error reason => pure { code := 1, errors := s!"failed to read {file}: {reason}" }
    | .ok text => pure { code := 0, output := print settings registry system.now text }

/-- **Runs the program with arguments.** -/
def run (system : System m) (arguments : List String) : m Outcome :=
  match Command.ofArguments? arguments with
  | none => pure { code := 2, errors := "the arguments are not used correctly" }
  | some .version => pure { code := 0, output := versionText ++ "\n" }
  | some (.edit _) => pure { code := 1, errors := "editing needs a terminal" }
  | some (.print a file) => runPrint system a file

end Reckoner.CommandLine
