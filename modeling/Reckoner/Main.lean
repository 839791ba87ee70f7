import Reckoner.CommandLine.Run

/-!
# The program

The command line over the files of the system.
-/

namespace Reckoner

/-- Reads a text file of the system. -/
def readSystemFile (path : String) : IO (Except String String) := do
  try
    pure (.ok (← IO.FS.readFile path))
  catch e =>
    pure (.error (toString e))

/-- The time of the system, read off a file that has just been made. -/
def systemTime : IO Date := do
  let (_, path) ← IO.FS.createTempFile
  let time := (← path.metadata).modified
  IO.FS.removeFile path
  pure ((Date.ofMillis? (time.sec * 1000 + time.nsec.toNat / 1000000)).getD ⟨0, by decide⟩)

end Reckoner

open Reckoner in
/-- Runs the program. -/
def main (arguments : List String) : IO UInt32 := do
  let system := ⟨readSystemFile, ← IO.getEnv "HOME", ← systemTime⟩
  let outcome ← CommandLine.run system arguments
  IO.print outcome.output
  if !outcome.errors.isEmpty then IO.eprintln outcome.errors
  pure outcome.code
