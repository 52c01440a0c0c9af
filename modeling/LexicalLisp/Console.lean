import LexicalLisp.Session
import LexicalLisp.Text.Lines

/-!
# The console

The console takes lines. It holds them back while they leave parens open, skips blank ones
between sources, and answers each source with one block: the value, or the error after which it
carries on. At the end of the input whatever is held back is evaluated as it is.

Which lines make up a source depends on the text alone. Prompts are written only for an
interactive user, one before every line that is waited for.

The limit on depth is for evaluation only. A source is read and its value is printed at any depth of
nesting, so an answer that is found is always shown.
-/

namespace LexicalLisp

/-- The prompt for a new source. -/
def primaryPrompt : String := "etoile> "

/-- The prompt for a further line of the same source. -/
def continuationPrompt : String := "...     "

/-- The answer to a source: whether it has a value, and the block to show. -/
structure Response where
  succeeded : Bool
  block : String

/-- Evaluate a source text for a user. -/
def respond (limit : Nat) (root : FrameId) (source : String) : Eval Response := do
  let result ← Eval.attempt (evaluateText limit root source)
  match result with
  | .ok value => return ⟨true, value.pretty 0 Value.standardWidth ++ "\n"⟩
  | .error e =>
    Eval.emit (.errorShown e)
    return ⟨false, "error: " ++ e.message ++ "\n"⟩

/-- What becomes of the lines held so far when another one arrives. -/
inductive Intake where
  /-- Only blanks so far: they are dropped. -/
  | skip
  /-- Parens are open: the lines are held. -/
  | hold (lines : String)
  /-- The lines are a source. -/
  | source (text : String)

/-- Add a line to those held. -/
def takeLine (held line : String) : Intake :=
  let text := held ++ line
  if isBlankText text then .skip
  else if isOpen text then .hold text
  else .source text

/-- A running console: its root frame, the lines it holds, what it wrote, and the state. -/
structure Console where
  root : FrameId
  held : String := ""
  written : String := ""
  state : State

/-- How a console goes on. -/
inductive ConsoleStep where
  | running (c : Console)
  | ended (c : Console)
  | tooDeep (c : Console)

namespace Console

/-- Append to what is written. -/
def write (text : String) (c : Console) : Console :=
  { c with written := c.written ++ text }

/-- Ask an interactive user for a line. -/
def prompt (interactive : Bool) (c : Console) : Console :=
  if interactive then c.write (if c.held.isEmpty then primaryPrompt else continuationPrompt) else c

/-- Evaluate a source and show its block. -/
def answer (limit : Nat) (source : String) (c : Console) : ConsoleStep :=
  match respond limit c.root source c.state with
  | (.ok response, s) => .running ({ c with held := "", state := s }.write response.block)
  | (.error _, s) => .running { c with held := "", state := s }
  | (.tooDeep, s) => .tooDeep { c with held := "", state := s }

/-- Take one line. -/
def feed (limit : Nat) (line : String) (c : Console) : ConsoleStep :=
  match takeLine c.held line with
  | .skip => .running { c with held := "" }
  | .hold lines => .running { c with held := lines }
  | .source text => c.answer limit text

/-- Take the end of the input. -/
def finish (limit : Nat) (interactive : Bool) (c : Console) : ConsoleStep :=
  if isBlankText c.held then .ended c
  else
    match c.answer limit c.held with
    | .running c' => .ended (c'.prompt interactive)
    | step => step

/-- Take all lines and the end of the input. -/
def run (limit : Nat) (interactive : Bool) (c : Console) : List String → ConsoleStep
  | [] => (c.prompt interactive).finish limit interactive
  | line :: rest =>
    match (c.prompt interactive).feed limit line with
    | .running c' => c'.run limit interactive rest
    | step => step

end Console

end LexicalLisp
