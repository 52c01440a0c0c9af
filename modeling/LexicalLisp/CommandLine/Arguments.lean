import LexicalLisp.Text.DecimalDigit
import LexicalLisp.Text.Quoted

/-!
# Command-line arguments

The command line knows three options and one file. A long option may be cut short as long as it
stays unambiguous, and takes a value after an equals sign; short options may be joined in one
argument, and an equals sign after the first of them makes no difference.

What a first look takes for an option is fixed before any argument is used, so an ambiguous one is
reported whatever comes before it.

After a separator of two dashes everything is a plain value. Arguments that nothing asked for are
collected and reported together at the end.
-/

namespace LexicalLisp

/-- The options of the command line. -/
inductive Flag where
  | help
  | command
  | noPrelude
  deriving DecidableEq, Repr

namespace Flag

/-- An option by all its spellings. -/
def label : Flag → String
  | .help => "-h/--help"
  | .command => "-c/--command"
  | .noPrelude => "--no-prelude"

/-- The option is followed by a value. -/
def takesValue : Flag → Bool
  | .command => true
  | _ => false

end Flag

/-- Every spelling of an option, in the order in which they are listed. -/
def flagSpellings : List (String × Flag) :=
  [("-h", .help), ("--help", .help), ("-c", .command), ("--command", .command),
    ("--no-prelude", .noPrelude)]

/-- What is wrong with the arguments. -/
inductive UsageError where
  | ambiguous (argument : String) (spellings : List String)
  | missingValue (flag : Flag)
  | ignoredValue (flag : Flag) (value : String)
  | unrecognized (arguments : List String)
  deriving DecidableEq, Repr

/-- The wording of a usage error. -/
def UsageError.message : UsageError → String
  | .ambiguous argument spellings =>
    s!"ambiguous option: {argument} could match " ++ ", ".intercalate spellings
  | .missingValue flag => s!"argument {flag.label}: expected one argument"
  | .ignoredValue flag value =>
    s!"argument {flag.label}: ignored explicit argument {quoted value}"
  | .unrecognized arguments => "unrecognized arguments: " ++ " ".intercalate arguments

/-- How an argument looks by itself. -/
inductive ArgumentKind where
  /-- A plain value. -/
  | value
  /-- The two dashes after which everything is a value. -/
  | separator
  /-- An option in this spelling, with the text joined to it in the same argument. -/
  | option (flag : Flag) (spelling : String) (joined : Option String)
  /-- It looks like an option, and is none. -/
  | unknown
  deriving DecidableEq, Repr

/-- One or more digits, with nothing after them but a final new line. -/
def isDigitRun (chars : List Char) : Bool :=
  let digits := chars.takeWhile isDecimalDigit
  let rest := chars.dropWhile isDecimalDigit
  !digits.isEmpty && (rest.isEmpty || rest == ['\n'])

/-- A minus with digits after it, or with a point that has digits after it. -/
def isNegativeNumber : List Char → Bool
  | '-' :: rest =>
    isDigitRun rest ||
      match rest.dropWhile isDecimalDigit with
      | '.' :: fraction => isDigitRun fraction
      | _ => false
  | _ => false

/-- Cut an argument at its first equals sign. -/
def cutAtEquals (argument : String) : String × Option String :=
  let chars := argument.toList
  match chars.dropWhile (· ≠ '=') with
  | [] => (argument, none)
  | _ :: after => (String.ofList (chars.takeWhile (· ≠ '=')), some (String.ofList after))

/-- The spellings that an argument with dashes may stand for, each with what is joined to it.

A long one stands for every spelling it begins. A short one is told by its first letter, and the
rest of it is joined. -/
def matchingSpellings (argument : String) : List (Flag × String × Option String) :=
  match argument.toList with
  | '-' :: '-' :: _ =>
    let (start, joined) := cutAtEquals argument
    (flagSpellings.filter fun (spelling, _) => start.toList.isPrefixOf spelling.toList).map
      fun (spelling, flag) => (flag, spelling, joined)
  | dash :: letter :: rest =>
    (flagSpellings.filter fun (spelling, _) => spelling = String.ofList [dash, letter]).map
      fun (spelling, flag) => (flag, spelling, some (String.ofList rest))
  | _ => []

/-- The option that an argument spells in full, alone or before an equals sign. -/
def exactSpelling? (argument : String) : Option (Flag × String × Option String) :=
  match flagSpellings.lookup argument with
  | some flag => some (flag, argument, none)
  | none =>
    match cutAtEquals argument with
    | (start, some joined) =>
      (flagSpellings.lookup start).map fun flag => (flag, start, some joined)
    | (_, none) => none

/-- How an argument before the separator looks. -/
def argumentKind (argument : String) : Except UsageError ArgumentKind :=
  match argument.toList with
  | '-' :: _ :: _ =>
    match exactSpelling? argument with
    | some (flag, spelling, joined) => .ok (.option flag spelling joined)
    | none =>
      match matchingSpellings argument with
      | [(flag, spelling, joined)] => .ok (.option flag spelling joined)
      | [] =>
        if isNegativeNumber argument.toList || argument.toList.contains ' ' then .ok .value
        else .ok .unknown
      | several => .error (.ambiguous argument (several.map fun (_, spelling, _) => spelling))
  | _ => .ok .value

/-- How each argument looks. -/
def argumentKinds : List String → Except UsageError (List (String × ArgumentKind))
  | [] => .ok []
  | argument :: rest =>
    if argument = "--" then
      .ok ((argument, .separator) :: rest.map fun value => (value, .value))
    else do
      let kind ← argumentKind argument
      let kinds ← argumentKinds rest
      return (argument, kind) :: kinds

/-- What the command option is given.

Two dashes alone are no value, even when they are joined to the option: they are struck out, and
leave the option without a text to evaluate. -/
inductive Command where
  | source (text : String)
  | struck
  deriving DecidableEq, Repr

/-- The command that a value of the option stands for. -/
def Command.ofValue (value : String) : Command :=
  if value = "--" then .struck else .source value

/-- What the arguments ask for. -/
structure Options where
  command : Option Command := none
  file : Option String := none
  noPrelude : Bool := false
  deriving DecidableEq, Repr

/-- How reading the arguments ends. -/
inductive Request where
  /-- Run with these options. -/
  | run (options : Options)
  /-- Show the help text. -/
  | help
  /-- Refuse the arguments. -/
  | usage (e : UsageError)
  deriving DecidableEq, Repr

/-- Options so far, whether a file may still be named, and arguments left over, newest first. -/
structure Draft where
  options : Options := {}
  fileOpen : Bool := true
  extras : List String := []

/-- An option with the value it takes. -/
abbrev Setting := Flag × Option String

/-- Read the letters after a short option without a value as further short options.

A letter that takes a value takes the rest. Where a letter spells no option, the rest is a value
that the option before it has no use for. -/
def readCluster (flag : Flag) : List Char → Except UsageError (List Setting)
  | [] => .ok [(flag, none)]
  | letter :: rest =>
    match flagSpellings.lookup (String.ofList ['-', letter]) with
    | none => .error (.ignoredValue flag (String.ofList (letter :: rest)))
    | some next =>
      if next.takesValue then
        .ok [(flag, none), (next, if rest.isEmpty then none else some (String.ofList rest))]
      else (readCluster next rest).map ((flag, none) :: ·)

/-- The options in an argument; the last one may still lack its value. -/
def joinedSettings (flag : Flag) (spelling : String) :
    Option String → Except UsageError (List Setting)
  | none => .ok [(flag, none)]
  | some value =>
    if flag.takesValue then .ok [(flag, some value)]
    else if value = "" || ['-', '-'].isPrefixOf spelling.toList then
      .error (.ignoredValue flag value)
    else readCluster flag value.toList

/-- Apply options one after the other; the help option ends the reading of arguments. -/
def applySettings (d : Draft) : List Setting → Option Draft
  | [] => some d
  | (.help, _) :: _ => none
  | (.noPrelude, _) :: rest =>
    applySettings { d with options := { d.options with noPrelude := true } } rest
  | (.command, value) :: rest =>
    applySettings { d with options := { d.options with command := value.map Command.ofValue } } rest

/-- The last of the options in an argument still waits for its value. -/
def awaitsValue : List Setting → Bool
  | [] => false
  | [(flag, value)] => flag.takesValue && value.isNone
  | _ :: rest => awaitsValue rest

/-- Give the waiting option its value. -/
def supplyValue (value : String) (settings : List Setting) : List Setting :=
  settings.map fun (flag, given) => (flag, if flag.takesValue then some value else given)

/-- Go through the arguments in order. -/
def readArguments (d : Draft) : List (String × ArgumentKind) → Request
  | [] =>
    if d.extras.isEmpty then .run d.options else .usage (.unrecognized d.extras.reverse)
  | (argument, .value) :: rest =>
    if d.fileOpen then
      let d := { d with options := { d.options with file := some argument }, fileOpen := false }
      match rest with
      | (_, .separator) :: rest => readArguments d rest
      | rest => readArguments d rest
    else readArguments { d with extras := argument :: d.extras } rest
  | (argument, .separator) :: rest =>
    if d.fileOpen then
      match rest with
      | (value, .value) :: rest =>
        readArguments
          { d with options := { d.options with file := some value }, fileOpen := false } rest
      | rest => readArguments { d with fileOpen := false } rest
    else readArguments { d with extras := argument :: d.extras } rest
  | (argument, .unknown) :: rest => readArguments { d with extras := argument :: d.extras } rest
  | (_, .option flag spelling joined) :: rest =>
    match joinedSettings flag spelling joined with
    | .error e => .usage e
    | .ok settings =>
      if awaitsValue settings then
        match rest with
        | (value, .value) :: rest =>
          match applySettings d (supplyValue value settings) with
          | none => .help
          | some d => readArguments d rest
        | _ => .usage (.missingValue .command)
      else
        match applySettings d settings with
        | none => .help
        | some d => readArguments d rest

/-- Read the arguments of a command line. -/
def Request.ofArguments (arguments : List String) : Request :=
  match argumentKinds arguments with
  | .error e => .usage e
  | .ok kinds => readArguments {} kinds

end LexicalLisp
