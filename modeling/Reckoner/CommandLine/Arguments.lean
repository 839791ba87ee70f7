/-!
# Arguments of the command line

The program opens a document in the editor, or prints it with the command `print`. Options may stand
before and after the command, and those after it count if both are given; only the log file is an
option that `print` does not take. After `--` there are no options any more.

An option is given at most once on each side of the command. Names of files are not empty.
-/

namespace Reckoner.CommandLine

/-- Options that take a value. -/
inductive ValueOption where
  | config
  | ratesUrl
  | logFile
deriving DecidableEq, Repr

/-- What the arguments on one side of the command give. -/
structure Arguments where
  config : Option String := none
  ratesUrl : Option String := none
  logFile : Option String := none
  offline : Bool := false
  /-- The document. -/
  file : Option String := none
deriving DecidableEq, Repr

/-- What the program is asked to do. -/
inductive Command where
  | version
  | edit (arguments : Arguments)
  | print (arguments : Arguments) (file : String)
deriving DecidableEq, Repr

namespace Arguments

/-- Sets an option, which must not be set already. -/
def set? (a : Arguments) (name : ValueOption) (value : String) : Option Arguments :=
  match name with
  | .config =>
    if a.config.isSome ∨ value.isEmpty then none else some { a with config := some value }
  | .ratesUrl => if a.ratesUrl.isSome then none else some { a with ratesUrl := some value }
  | .logFile =>
    if a.logFile.isSome ∨ value.isEmpty then none else some { a with logFile := some value }

/-- Sets the document, which must not be set already. -/
def setFile? (a : Arguments) (name : String) : Option Arguments :=
  if a.file.isSome ∨ name.isEmpty then none else some { a with file := some name }

/-- Switches the network off, which must not be off already. -/
def setOffline? (a : Arguments) : Option Arguments :=
  if a.offline then none else some { a with offline := true }

/-- The arguments before the command, updated by those after it. -/
def followedBy (before after : Arguments) : Arguments :=
  { after with
    config := after.config.or before.config
    ratesUrl := after.ratesUrl.or before.ratesUrl
    logFile := before.logFile
    offline := after.offline || before.offline }

end Arguments

/-- One argument by its form. -/
inductive Word where
  /-- The mark after which there are no options. -/
  | endOfOptions
  /-- An option with a long name and perhaps a value. -/
  | long (name : String) (value : Option String)
  /-- Options with names of one letter. -/
  | short (names : List Char)
  /-- Anything else. -/
  | plain (text : String)
deriving DecidableEq, Repr

/-- The form of an argument. -/
def Word.ofText (text : String) : Word :=
  match text.toList with
  | ['-', '-'] => .endOfOptions
  | '-' :: '-' :: cs =>
    let name := String.ofList (cs.takeWhile (· ≠ '='))
    match cs.dropWhile (· ≠ '=') with
    | _ :: value => .long name (some (String.ofList value))
    | [] => .long name none
  | '-' :: c :: cs => .short (c :: cs)
  | _ => .plain text

/-- The option of a long name; after the command, there is none for the log file. -/
def ValueOption.ofName? (afterCommand : Bool) (name : String) : Option ValueOption :=
  if name = "config" then some .config
  else if name = "rates-url" then some .ratesUrl
  else if name = "log-file" ∧ !afterCommand then some .logFile
  else none

/-- Reads the arguments after the command; `options` tells whether there may be options still. -/
def readAfter (options : Bool) (a : Arguments) : List String → Option Arguments
  | [] => some a
  | text :: rest =>
    match if options then Word.ofText text else .plain text with
    | .endOfOptions => readAfter false a rest
    | .plain text => do readAfter options (← a.setFile? text) rest
    | .short _ => none
    | .long name value =>
      match ValueOption.ofName? true name, value, rest with
      | some o, some value, rest => do readAfter options (← a.set? o value) rest
      | some o, none, value :: rest =>
        match Word.ofText value with
        | .plain value => do readAfter options (← a.set? o value) rest
        | _ => none
      | some _, none, [] => none
      | none, value, rest =>
        if name = "offline" ∧ value = none then do readAfter options (← a.setOffline?) rest
        else none

/-- Reads all arguments; `options` tells whether there may be options and commands still. -/
def read (options : Bool) (a : Arguments) : List String → Option Command
  | [] => some (.edit a)
  | text :: rest =>
    match if options then Word.ofText text else .plain text with
    | .endOfOptions => read false a rest
    | .plain text =>
      if options ∧ text = "print" then do
        let after ← readAfter true {} rest
        some (.print (a.followedBy after) (← after.file))
      else do read options (← a.setFile? text) rest
    | .short names => if names.head? = some 'V' then some .version else none
    | .long name value =>
      match ValueOption.ofName? false name, value, rest with
      | some o, some value, rest => do read options (← a.set? o value) rest
      | some o, none, value :: rest =>
        match Word.ofText value with
        | .plain value => do read options (← a.set? o value) rest
        | _ => none
      | some _, none, [] => none
      | none, value, rest =>
        if name = "version" ∧ value = none then some .version
        else if name = "offline" ∧ value = none then do read options (← a.setOffline?) rest
        else none

/-- **The command of some arguments**, if they are used correctly. -/
def Command.ofArguments? (arguments : List String) : Option Command := read true {} arguments

end Reckoner.CommandLine
