import LexicalLisp.CommandLine.Run

/-!
# The command

The command gathers what a run consults, the variables and the few paths that can matter, hands
them to the run, and feeds lines to its console as they are typed.
-/

namespace LexicalLisp

/-- A folder of the real file system stands at the path. -/
def isFolder (path : String) : IO Bool := do
  try (← IO.FS.realPath path).isDir catch _ => return false

/-- What stands at a path of the real file system. -/
def probePath (path : String) : IO Probe := do
  if ← isFolder path then return .directory
  try
    let bytes ← IO.FS.readBinFile path
    return .file bytes.toList
  catch e =>
    match e with
    | .inappropriateType .. => return .notDirectory
    | _ => return .missing

/-- The disk as far as these paths show it. -/
def probeDisk (paths : List String) : IO Disk := do
  let probes ← paths.mapM fun path => do return (path, ← probePath path)
  return fun path => (probes.lookup path).getD .missing

/-- The paths that settings and arguments can lead to. -/
def relevantPaths (settings : Settings) (arguments : List String) : List String :=
  let folder := Path.ofText (trimBlanks (settings.preludePath.getD ""))
  [folder.text, (folder.child preludeFileName).text, (folder.parent.child preludeFileName).text] ++
    arguments

/-- The message of a run that broke off. -/
def Crash.message : Crash → String
  | .program e => e.report
  | .host fault => fault.message
  | .tooDeep => "maximum recursion depth exceeded"

/-- Show what is new on both outputs, and keep the rest of the console. -/
def showProgress (inv : Invocation) (threshold seen : Nat) (c : Console) : IO (Nat × Console) := do
  let events := c.state.log.toList.drop seen
  (← IO.getStderr).putStr (errorText inv.consoleAlone threshold events)
  let out ← IO.getStdout
  out.putStr c.written
  out.flush
  return (c.state.log.size, { c with written := "" })

/-- Feed lines to a console until the input ends. -/
partial def converse (inv : Invocation) (interactive : Bool) (threshold seen : Nat) (c : Console) :
    IO UInt32 := do
  let (seen, c) ← showProgress inv threshold seen (c.prompt interactive)
  let line ← (← IO.getStdin).getLine
  let step := if line.isEmpty then c.finish depthLimit interactive else c.feed depthLimit line
  match step with
  | .running c => converse inv interactive threshold seen c
  | .ended c =>
    let _ ← showProgress inv threshold seen c
    return 0
  | .tooDeep c =>
    let _ ← showProgress inv threshold seen c
    (← IO.getStderr).putStrLn (Crash.message .tooDeep)
    return 1

/-- Show a finished run. -/
def showReport (report : Report) : IO UInt32 := do
  (← IO.getStdout).putStr (report.help ++ report.output)
  (← IO.getStderr).putStr report.errors
  match report.crash with
  | none => return (report.exit.getD 0).toUInt32
  | some crash =>
    (← IO.getStderr).putStrLn crash.message
    return 1

end LexicalLisp

open LexicalLisp in
/-- Run the interpreter on the command line. -/
def main (arguments : List String) : IO UInt32 := do
  let settings : Settings :=
    { preludePath := ← IO.getEnv "ETOILE_PRELUDE_PATH", logLevel := ← IO.getEnv "ETOILE_LOG_LEVEL" }
  let disk ← probeDisk (relevantPaths settings arguments)
  let inv : Invocation := { arguments := arguments, settings := settings, disk := disk }
  match launch depthLimit inv with
  | .finished report => showReport report
  | .waiting console threshold =>
    converse inv (← (← IO.getStdin).isTty) threshold 0 console
