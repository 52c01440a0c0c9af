import LexicalLisp.Eval.Basic
import LexicalLisp.Text.Utf8

/-!
# Faults of the surroundings

Besides the errors of the language, a run can fail because of its surroundings: a setting that
makes no sense, a command without a text, or a file that is not there or is not text. Such a
fault ends the run.
-/

namespace LexicalLisp

/-- What is wrong with the surroundings. No file can have a name with a null character. -/
inductive HostFault where
  | unknownLevel (name : String)
  | struckCommand
  | unnamable
  | missingFile (path : String)
  | directoryFile (path : String)
  | brokenPath (path : String)
  | undecodable (fault : Utf8Fault)

/-- The wording of an encoding problem. -/
def Utf8Problem.message : Utf8Problem → String
  | .invalidStart => "invalid start byte"
  | .invalidContinuation => "invalid continuation byte"
  | .unexpectedEnd => "unexpected end of data"

/-- The wording of an encoding fault: a single byte is shown, several are counted. -/
def Utf8Fault.message (f : Utf8Fault) : String :=
  let place :=
    if f.length = 1 then
      s!"byte 0x{String.ofList (hexPadded 2 f.byte.toNat)} in position {f.position}"
    else s!"bytes in position {f.position}-{f.position + f.length - 1}"
  s!"'utf-8' codec can't decode {place}: {f.problem.message}"

/-- The wording of a fault. -/
def HostFault.message : HostFault → String
  | .unknownLevel name => s!"Invalid ETOILE_LOG_LEVEL: {quoted name}"
  | .struckCommand => "'list' object has no attribute 'replace'"
  | .unnamable => "embedded null byte"
  | .missingFile path => s!"[Errno 2] No such file or directory: {quoted path}"
  | .directoryFile path => s!"[Errno 21] Is a directory: {quoted path}"
  | .brokenPath path => s!"[Errno 20] Not a directory: {quoted path}"
  | .undecodable fault => fault.message

/-- Why a run breaks off. -/
inductive Crash where
  | program (e : Error)
  | host (fault : HostFault)
  | tooDeep

/-- A computation seen from outside, where every failure breaks the run off. -/
def Eval.complete {α : Type} (action : Eval α) (s : State) : Except Crash α × State :=
  match action s with
  | (.ok a, s') => (.ok a, s')
  | (.error e, s') => (.error (.program e), s')
  | (.tooDeep, s') => (.error .tooDeep, s')

end LexicalLisp
