import LexicalLisp.Error

/-!
# Log events

Evaluation records what it does as data. An event has a severity, a channel and a wording, so a
log line is a view of an event, and a threshold only selects which events are shown.
-/

namespace LexicalLisp

/-- How severe an event is. -/
inductive Severity where
  | debug
  | error
  deriving DecidableEq, Repr

namespace Severity

/-- The place of a severity on the scale of thresholds. -/
def rank : Severity → Nat
  | .debug => 10
  | .error => 40

/-- The name of a severity in log lines. -/
def label : Severity → String
  | .debug => "DEBUG"
  | .error => "ERROR"

end Severity

/-- What happens during a run. -/
inductive Event where
  /-- A prelude file is about to be read. -/
  | preludeFound (path : String)
  /-- A source text was read and is about to be evaluated. -/
  | sourceRead (source : String)
  /-- Reading or evaluating a source text failed. -/
  | sourceFailed (e : Error)
  /-- A lambda form made a closure in a frame of this depth. -/
  | closureMade (closure : Value) (depth : Nat)
  /-- A closure is entered. -/
  | closureCalled (closure : Value) (arguments : List Value)
  /-- The operands of an arithmetic form are known. -/
  | operandsKnown (form : Form) (operands : List Value)
  /-- The console reports an error to its user. -/
  | errorShown (e : Error)

namespace Event

/-- The severity of an event. -/
def severity : Event → Severity
  | .errorShown _ => .error
  | _ => .debug

/-- The channel that an event is logged on. -/
def channel : Event → String
  | .preludeFound _ | .sourceRead _ | .sourceFailed _ => "etoile.interpreter"
  | .closureMade _ _ => "etoile.evaluation.special_forms.lambda_form"
  | .closureCalled _ _ => "etoile.evaluation.apply"
  | .operandsKnown _ _ => "etoile.evaluation.special_forms.arithmetic_forms"
  | .errorShown _ => "etoile.repl"

/-- The wording of an event. -/
def message : Event → String
  | .preludeFound path => s!"loading prelude {path}"
  | .sourceRead source => s!"evaluate {quoted source}"
  | .sourceFailed e => s!"evaluation failed: {e.report}"
  | .closureMade closure depth => s!"lambda created: {closure.display} (env depth {depth})"
  | .closureCalled closure arguments =>
    s!"invoke {closure.display} with {Value.inspectAll arguments}"
  | .operandsKnown form operands => s!"{form.name} operands: {Value.inspectAll operands}"
  | .errorShown e => e.report

/-- The log line of an event. -/
def line (event : Event) : String :=
  s!"{event.severity.label} {event.channel}: {event.message}"

end Event

/-- The threshold that applies where none is set. -/
def defaultThreshold : Nat := 30

/-- A threshold of zero leaves the decision to the default. -/
def effectiveThreshold (threshold : Nat) : Nat :=
  if threshold = 0 then defaultThreshold else threshold

/-- An event is severe enough to be shown. -/
def Event.passes (threshold : Nat) (event : Event) : Bool :=
  effectiveThreshold threshold ≤ event.severity.rank

/-- The log lines at a threshold. -/
def logLines (threshold : Nat) (events : List Event) : List String :=
  (events.filter (Event.passes threshold)).map Event.line

end LexicalLisp
