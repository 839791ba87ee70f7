import Reckoner.Table

/-!
# Folders of text files

A folder holds text files and further folders. Files are named by paths from the folder; the parts of a
path are separated by slashes, where empty parts and single dots mean nothing and two dots lead back
out. A path that ends in a slash or in dots can only mean a folder.
-/

namespace Reckoner

/-- Why a file cannot be read or written. -/
inductive FileError where
  | notFound
  | notFolder
  | isFolder
  | nameTooLong
  | zeroCharacter
deriving DecidableEq, Repr

/-- The message for the user. -/
def FileError.message : FileError → String
  | .notFound => "No such file or directory (os error 2)"
  | .notFolder => "Not a directory (os error 20)"
  | .isFolder => "Is a directory (os error 21)"
  | .nameTooLong => "File name too long (os error 36)"
  | .zeroCharacter => "file name contained an unexpected NUL byte"

/-- What a path leads to. -/
inductive FolderEntry where
  | file (text : String)
  | folder
deriving DecidableEq, Repr

/-- Everything in a folder, by the parts of its path. -/
structure Folder where
  entries : Table (List String) FolderEntry

namespace Folder

/-- The folder without files. -/
def empty : Folder := ⟨.empty⟩

/-- What is at a path; the path without parts is the folder itself. -/
def get? (folder : Folder) (path : List String) : Option FolderEntry :=
  if path.isEmpty then some .folder else folder.entries.get? path

/-- A path as it is written. -/
structure Path where
  parts : List String
  /-- Whether the path can only mean a folder. -/
  meansFolder : Bool

/-- The parts of a path. A path must not be empty, nor contain the character with code zero. -/
def Path.ofText (text : String) : Except FileError Path :=
  if text.toList.contains '\x00' then .error .zeroCharacter
  else if text.isEmpty ∨ text.startsWith "/" then .error .notFound
  else if 4096 ≤ text.utf8ByteSize then .error .nameTooLong
  else
    let parts := text.splitOn "/"
    .ok
      { parts := parts.filter fun part ↦ part ≠ "" && part ≠ "."
        meansFolder := ["", ".", ".."].contains (parts.getLast?.getD "") }

/-- Follows the parts of a path from the folder at `start`. All but the last must be folders. -/
def follow (folder : Folder) (start : List String) : List String → Except FileError (List String)
  | [] => .ok start
  | part :: more =>
    let next := if part = ".." then start.dropLast else start ++ [part]
    if 255 < part.utf8ByteSize then .error .nameTooLong
    else if more.isEmpty then .ok next
    else
      match folder.get? next with
      | some .folder => follow folder next more
      | some (.file _) => .error .notFolder
      | none => .error .notFound

/-- Where a path leads, and what is there. -/
def find (folder : Folder) (path : Path) : Except FileError (List String × Option FolderEntry) :=
  match folder.follow [] path.parts with
  | .error e => .error e
  | .ok place =>
    match folder.get? place with
    | some (.file text) =>
      if path.meansFolder then .error .notFolder else .ok (place, some (.file text))
    | entry => .ok (place, entry)

/-- **The text of a file.** -/
def read (folder : Folder) (name : String) : Except FileError String := do
  match ← folder.find (← Path.ofText name) with
  | (_, some (.file text)) => .ok text
  | (_, some .folder) => .error .isFolder
  | (_, none) => .error .notFound

/-- **The folder with the text of a file written.** The file need not exist, but its folder must. -/
def write (folder : Folder) (name text : String) : Except FileError Folder := do
  let path ← Path.ofText name
  match ← folder.find path with
  | (_, some .folder) => .error .isFolder
  | (place, some (.file _)) => .ok ⟨folder.entries.insert place (.file text)⟩
  | (place, none) =>
    if path.meansFolder then .error .isFolder
    else .ok ⟨folder.entries.insert place (.file text)⟩

/-- The folder with a file or folder put in, together with the folders on the way to it. -/
def put (folder : Folder) (parts : List String) (entry : FolderEntry) : Folder :=
  let ways := (List.range (parts.length - 1)).map fun n ↦ parts.take (n + 1)
  ⟨(ways.foldl (fun t way ↦ t.insert way .folder) folder.entries).insert parts entry⟩

/-- The folder with the given files and folders. -/
def ofList (entries : List (String × FolderEntry)) : Folder :=
  entries.foldl (fun folder (name, entry) ↦ folder.put (name.splitOn "/") entry) empty

end Folder

end Reckoner
