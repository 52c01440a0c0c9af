import LexicalLisp.Evaluate

/-!
# Sessions

A session is a root frame that outlives the texts evaluated in it, so definitions persist. The
root starts with the two booleans and with closures named after four of the reserved forms, which
makes these operators values that can be passed around.

A text is read as a whole before any of it is evaluated. A text that cannot be read therefore
changes nothing, whereas an evaluation that fails half-way keeps what it did before.

The limit on depth is a bound on nested evaluations. A text that is to be evaluated is read at any
depth of nesting, and is not charged for it. Only `readFirstWithin`, which evaluates nothing, gives
up on lists that are nested deeper than the limit.
-/

namespace LexicalLisp

/-- How deeply evaluations may nest in an ordinary session. -/
def depthLimit : Nat := 3000

/-- A closure of two parameters that hands them to the reserved form. -/
def operatorClosure (form : Form) (e : FrameId) : Eval Value := do
  let tag ← Eval.freshTag
  let x := Value.symbol "x"
  let y := Value.symbol "y"
  return .closure tag [x, y] (.list [.symbol form.name, x, y]) e

/-- Bind operators to closures over the frame itself. -/
def bindOperators (e : FrameId) : List Form → Eval Unit
  | [] => Eval.succeed ()
  | form :: rest => do
    let closure ← operatorClosure form e
    Eval.bindName e (.symbol form.name) closure
    bindOperators e rest

/-- Bind the booleans and the operators in a frame. -/
def populate (e : FrameId) : Eval Unit := do
  bindMany e [(.symbol "true", .boolean true), (.symbol "false", .boolean false)]
  bindOperators e [.plus, .minus, .times, .equals]

/-- A new root frame with the standard bindings; nothing is shared with other roots. -/
def standardRoot : Eval FrameId := do
  let e ← Eval.newFrame ⟨none, []⟩
  populate e
  return e

/-- Evaluate expressions in order and answer the last value. -/
def evaluateSequence (limit : Nat) (root : FrameId) (last : Value) : List Value → Eval Value
  | [] => Eval.succeed last
  | expr :: rest => do
    let value ← evaluate limit expr root
    evaluateSequence limit root value rest

/-- Evaluate every expression of a text and answer the last value. -/
def evaluateText (limit : Nat) (root : FrameId) (source : String) : Eval Value :=
  match readAll source with
  | .error fault => Eval.fail (.unreadable fault)
  | .ok [] => Eval.fail (.unreadable .unexpectedEnd)
  | .ok (expr :: rest) => do
    let value ← evaluate limit expr root
    evaluateSequence limit root value rest

/-- Evaluate every expression of a text for its effects; the text may be empty. -/
def loadText (limit : Nat) (root : FrameId) (source : String) : Eval Unit :=
  match readAll source with
  | .error fault => Eval.fail (.unreadable fault)
  | .ok exprs => do
    let _ ← evaluateSequence limit root (.list []) exprs
    return ()

/-- Record that a source text failed, and answer the error. -/
def reportFailure (e : Error) : Eval (Except Error Value) := do
  Eval.emit (.sourceFailed e)
  return .error e

/-- Evaluate the first expression of a text, answering errors as values. -/
def evaluateFirst (limit : Nat) (root : FrameId) (source : String) : Eval (Except Error Value) :=
  match readFirst source with
  | .error fault => reportFailure (.unreadable fault)
  | .ok expr => do
    Eval.emit (.sourceRead source)
    let result ← Eval.attempt (evaluate limit expr root)
    match result with
    | .ok value => return .ok value
    | .error e => reportFailure e

/-- What is evaluated before a session starts. -/
inductive Prelude where
  | none
  | text (source : String)
  | file (path : String) (source : String)

/-- A new session: the standard root, with the prelude evaluated in it. -/
def startSession (limit : Nat) (prelude : Prelude) : Eval FrameId := do
  let root ← standardRoot
  match prelude with
  | .none => return root
  | .text source =>
    loadText limit root source
    return root
  | .file path source =>
    Eval.emit (.preludeFound path)
    loadText limit root source
    return root

/-- Where the bundled prelude is said to be. -/
def bundledFolder : String := "<default>"

/-- The file that a prelude is read from. -/
def preludeFileName : String := "std.lisp"

/-- The source of the bundled prelude. -/
def bundledSource : String :=
  "(define not (lambda (b) (if b false true)))\n" ++
  "(define inc (lambda (n) (+ n 1)))\n" ++
  "(define dec (lambda (n) (- n 1)))\n" ++
  "(define square (lambda (n) (* n n)))\n" ++
  "(define zero? (lambda (n) (= n 0)))\n"

/-- The bundled prelude. -/
def bundledPrelude : Prelude :=
  .file (bundledFolder ++ "/" ++ preludeFileName) bundledSource

/-- Read the first expression of a text, giving up on lists nested deeper than the limit. -/
def readFirstWithin (limit : Nat) (source : String) : Eval Value :=
  if limit < deepestNesting (consumedTokens (tokenize source)) then Eval.tooDeep
  else
    match readFirst source with
    | .error fault => Eval.fail (.unreadable fault)
    | .ok expr => Eval.succeed expr

end LexicalLisp
