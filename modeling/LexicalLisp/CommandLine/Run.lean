import LexicalLisp.CommandLine.Arguments
import LexicalLisp.Console
import LexicalLisp.Host.Settings

/-!
# Runs of the program

A run reads its arguments, sets up logging, opens a session, and then evaluates a command or a
file, or leaves the session to the console. Each stage can end the run, and what was logged until
then is still shown.

Everything but the console is settled before a line of input is needed, so a launch either is
finished or has a console that waits for lines.
-/

namespace LexicalLisp

/-- The line that shows how the program is called. -/
def usageLine : String :=
  "usage: etoile [-h] [-c COMMAND] [--no-prelude] [file]\n"

/-- The help text. -/
def helpText : String :=
  usageLine ++
  "\nEtoile Lisp interpreter\n" ++
  "\npositional arguments:\n" ++
  "  file                  file to evaluate (if empty, starts a REPL)\n" ++
  "\noptions:\n" ++
  "  -h, --help            show this help message and exit\n" ++
  "  -c COMMAND, --command COMMAND\n" ++
  "                        evaluate a single expression and print it\n" ++
  "  --no-prelude          do not load std.lisp\n"

/-- The text that refuses the arguments. -/
def usageText (e : UsageError) : String :=
  usageLine ++ "etoile: error: " ++ e.message ++ "\n"

/-- What a run is started with.

A console that is started by itself, not through the program, reports errors on a channel that
has no threshold and no layout of its own. -/
structure Invocation where
  arguments : List String
  settings : Settings := {}
  disk : Disk
  consoleAlone : Bool := false

/-- The line an event leaves on the error output, if any. -/
def errorLine? (consoleAlone : Bool) (threshold : Nat) (event : Event) : Option String :=
  match event with
  | .errorShown e =>
    if consoleAlone then some e.report
    else if event.passes threshold then some event.line else none
  | _ => if event.passes threshold then some event.line else none

/-- What events leave on the error output. -/
def errorText (consoleAlone : Bool) (threshold : Nat) (events : List Event) : String :=
  String.join ((events.filterMap (errorLine? consoleAlone threshold)).map (· ++ "\n"))

/-- What a run leaves behind. -/
structure Report where
  exit : Option Nat
  help : String := ""
  output : String := ""
  errors : String := ""
  crash : Option Crash := none

/-- The state of a run when no more than lines of input can be missing. -/
inductive Launch where
  | finished (report : Report)
  | waiting (console : Console) (threshold : Nat)

/-- Evaluate a text once and report it. -/
def answerOnce (limit : Nat) (inv : Invocation) (threshold : Nat) (root : FrameId)
    (source : String) (s : State) : Report :=
  match (respond limit root source).complete s with
  | (.ok response, s') =>
    { exit := some (if response.succeeded then 0 else 1)
      output := response.block
      errors := errorText inv.consoleAlone threshold s'.log.toList }
  | (.error crash, s') =>
    { exit := none
      errors := errorText inv.consoleAlone threshold s'.log.toList
      crash := some crash }

/-- Break a run off because of a fault, after what was logged until then. -/
def breakOff (inv : Invocation) (threshold : Nat) (fault : HostFault) (s : State) : Report :=
  { exit := none
    errors := errorText inv.consoleAlone threshold s.log.toList
    crash := some (.host fault) }

/-- Use an open session as the options say. -/
def serve (limit : Nat) (inv : Invocation) (options : Options) (threshold : Nat) (root : FrameId)
    (s : State) : Launch :=
  match options.command, options.file with
  | some (.source text), _ => .finished (answerOnce limit inv threshold root text s)
  | some .struck, _ => .finished (breakOff inv threshold .struckCommand s)
  | none, some path =>
    match readFile inv.disk path with
    | .ok source => .finished (answerOnce limit inv threshold root source s)
    | .error fault => .finished (breakOff inv threshold fault s)
  | none, none => .waiting { root := root, state := s } threshold

/-- Open the session that the options ask for. -/
def openFor (limit : Nat) (inv : Invocation) (options : Options) : Except Crash FrameId × State :=
  if options.noPrelude then (startSession limit .none).complete {}
  else inv.settings.openSession inv.disk limit

/-- Run with these options. -/
def launchWith (limit : Nat) (inv : Invocation) (options : Options) : Launch :=
  match inv.settings.threshold with
  | .error fault => .finished { exit := none, crash := some (.host fault) }
  | .ok threshold =>
    match openFor limit inv options with
    | (.ok root, s) => serve limit inv options threshold root s
    | (.error crash, s) =>
      .finished
        { exit := none
          errors := errorText inv.consoleAlone threshold s.log.toList
          crash := some crash }

/-- Start a run. -/
def launch (limit : Nat) (inv : Invocation) : Launch :=
  match Request.ofArguments inv.arguments with
  | .help => .finished { exit := some 0, help := helpText }
  | .usage e => .finished { exit := some 2, errors := usageText e }
  | .run options => launchWith limit inv options

/-- Give a launch its input and let it end. -/
def Launch.finish (limit : Nat) (inv : Invocation) (interactive : Bool) (input : List String) :
    Launch → Report
  | .finished report => report
  | .waiting console threshold =>
    match console.run limit interactive input with
    | .tooDeep c =>
      { exit := none
        output := c.written
        errors := errorText inv.consoleAlone threshold c.state.log.toList
        crash := some .tooDeep }
    | .running c | .ended c =>
      { exit := some 0
        output := c.written
        errors := errorText inv.consoleAlone threshold c.state.log.toList }

/-- A whole run on a given input. -/
def runProgram (limit : Nat) (inv : Invocation) (interactive : Bool) (input : String) : Report :=
  (launch limit inv).finish limit inv interactive (splitLines input)

end LexicalLisp
