import Reckoner.Editor.Keys
import Reckoner.Folder

/-!
# Editing in a folder

An editor whose requests are answered by the files of a folder and by a clipboard.
-/

namespace Reckoner

/-- An editor, the folder that it works in, and the clipboard. -/
structure Session where
  editor : Editor
  folder : Folder
  /-- Why a text cannot be copied, if it cannot. -/
  clipboard : Except String Unit

namespace Session

/-- What the system answers to a request, and the folder afterwards. -/
def reply (session : Session) : (request : Request) → Except String request.Reply × Folder
  | .save text name => match session.folder.write name text with
    | .ok folder => (.ok (), folder)
    | .error e => (.error e.message, session.folder)
  | .load name => ((session.folder.read name).mapError FileError.message, session.folder)
  | .copy _ => (session.clipboard, session.folder)

/-- Answers a request. -/
def answer (s : Surroundings) (session : Session) (request : Request) : Session :=
  let (reply, folder) := session.reply request
  { session with editor := session.editor.answered s request reply, folder }

/-- What a key does, its request answered. -/
def press (s : Surroundings) (control : Bool) (key : Key) (session : Session) : Session :=
  match session.editor.press s control key with
  | (editor, none) => { session with editor }
  | (editor, some request) => { session with editor }.answer s request

/-- Types a text, where a newline is the enter key. -/
def type (s : Surroundings) (text : String) (session : Session) : Session :=
  text.toList.foldl (fun session c ↦ session.press s false (.ofChar c)) session

end Session

end Reckoner
