import LexicalLisp.Host.Disk
import LexicalLisp.Host.Fault
import LexicalLisp.Session
import LexicalLisp.Text.Lines
import LexicalLisp.Text.UpperCase

/-!
# Settings

Two variables of the surroundings are consulted: one names the folder of the prelude, or a file in
it, and one names the least severity that is logged. Blanks around either value do not count.
-/

namespace LexicalLisp

/-- The variables that a run is started with. -/
structure Settings where
  preludePath : Option String := none
  logLevel : Option String := none

/-- The thresholds that have a name. -/
def levelRanks : List (String × Nat) :=
  [("CRITICAL", 50), ("FATAL", 50), ("ERROR", 40), ("WARNING", 30), ("WARN", 30), ("INFO", 20),
    ("DEBUG", 10), ("NOTSET", 0)]

/-- The threshold that a level name stands for. -/
def levelRank? (name : String) : Option Nat :=
  levelRanks.lookup name

/-- The folder that a prelude is looked for in. -/
inductive PreludeFolder where
  | bundled
  | folder (path : Path)

/-- The folder as text. -/
def PreludeFolder.text : PreludeFolder → String
  | .bundled => bundledFolder
  | .folder path => path.text

/-- The prelude file in the folder, as text. -/
def PreludeFolder.fileText : PreludeFolder → String
  | .bundled => bundledFolder ++ "/" ++ preludeFileName
  | .folder path => (path.child preludeFileName).text

/-- The text of a file. -/
def decodeFile (bytes : List UInt8) : Except HostFault String :=
  match decodeUtf8 bytes with
  | .ok chars => .ok (String.ofList (unifyNewlines chars))
  | .error fault => .error (.undecodable fault)

/-- Read the text file at a path. -/
def readFile (disk : Disk) (path : String) : Except HostFault String :=
  if path.toList.contains '\x00' then .error .unnamable
  else
    match disk path with
    | .missing => .error (.missingFile path)
    | .notDirectory => .error (.brokenPath path)
    | .directory => .error (.directoryFile path)
    | .file bytes => decodeFile bytes

namespace Settings

/-- The threshold for logging; names are compared in upper case. -/
def threshold (settings : Settings) : Except HostFault Nat :=
  let name := upperCase (trimBlanks (settings.logLevel.getD "WARNING"))
  match levelRank? name with
  | some rank => .ok rank
  | none => .error (.unknownLevel name)

/-- The folder of the prelude: what is not a folder counts as a file in one. -/
def preludeFolder (settings : Settings) (disk : Disk) : PreludeFolder :=
  let text := trimBlanks (settings.preludePath.getD "")
  if text = "" then .bundled
  else
    let path := Path.ofText text
    match disk path.text with
    | .directory => .folder path
    | _ => .folder path.parent

/-- The prelude file and its text, if there is such a file. -/
def preludeSource (settings : Settings) (disk : Disk) : Option (String × Except HostFault String) :=
  let folder := settings.preludeFolder disk
  match folder with
  | .bundled => some (folder.fileText, .ok bundledSource)
  | .folder _ =>
    match disk folder.fileText with
    | .file bytes => some (folder.fileText, decodeFile bytes)
    | _ => none

/-- A new session with the prelude that the settings call for. -/
def openSession (settings : Settings) (disk : Disk) (limit : Nat) :
    Except Crash FrameId × State :=
  match settings.preludeSource disk with
  | none => (startSession limit .none).complete {}
  | some (path, .ok source) => (startSession limit (.file path source)).complete {}
  | some (path, .error fault) =>
    let (_, s) := (do
      let _ ← standardRoot
      Eval.emit (.preludeFound path) : Eval Unit).complete {}
    (.error (.host fault), s)

end Settings

/-- How logging is set up: its threshold, and how many outlets it has. -/
structure Logging where
  threshold : Nat := 0
  outlets : Nat := 0
  deriving DecidableEq, Repr

/-- Set the threshold, and open an outlet unless there is one. -/
def Logging.configure (logging : Logging) (settings : Settings) : Except HostFault Logging :=
  settings.threshold.map fun rank => ⟨rank, max logging.outlets 1⟩

end LexicalLisp
