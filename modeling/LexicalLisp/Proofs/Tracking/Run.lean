import LexicalLisp.Proofs.Session.Calls
import LexicalLisp.Proofs.Tracking.Places

/-!
# Evaluation that keeps track of places

The rules of evaluation are run as they are, with a trail beside the state. Each rule is told where
the expression at hand is written, and hands on to each item that it evaluates the place of the
item. Every evaluation that starts is put on the trail with its place and its frame. A closure is
entered with its tag only, so the trail says for every tag which lambda form the closure was made
from, and the body is evaluated at the place it has there.

The trail is written and never decides anything but places. Where a rule evaluates nothing, because
it is refused or has no use for it, it is run with the evaluator that has no depth at all.
-/

namespace LexicalLisp

/-- One evaluation: where its expression is written, in which frame it starts, and how deep this
frame lies. -/
structure Visit where
  place : Place
  expr : Value
  frame : FrameId
  depth : Nat

/-- The evaluations so far, and the place of the lambda form that the closure with a tag was made
from. -/
structure Trail where
  visits : List Visit
  origin : Nat → Place

namespace Trail

/-- One more evaluation starts. -/
def visited (trail : Trail) (visit : Visit) : Trail :=
  { trail with visits := visit :: trail.visits }

/-- A closure is made from the lambda form at a place. -/
def made (trail : Trail) (tag : Nat) (place : Place) : Trail :=
  { trail with origin := fun other => if other = tag then place else trail.origin other }

end Trail

/-- A computation that keeps a trail. -/
def Tracked (α : Type) : Type :=
  Trail → State → (Outcome α × State) × Trail

namespace Tracked

variable {α β : Type}

/-- Succeed without touching state or trail. -/
def succeed (a : α) : Tracked α :=
  fun trail s => ((.ok a, s), trail)

/-- Run one computation, then another on its value. -/
def andThen (action : Tracked α) (next : α → Tracked β) : Tracked β :=
  fun trail s =>
    match action trail s with
    | ((.ok a, t), trail') => next a trail' t
    | ((.error d, t), trail') => ((.error d, t), trail')
    | ((.tooDeep, t), trail') => ((.tooDeep, t), trail')

instance : Monad Tracked where
  pure := succeed
  bind := andThen

/-- A computation that leaves the trail alone. -/
def lift (action : Eval α) : Tracked α :=
  fun trail s => (action s, trail)

/-- Turn an error into a value; running out of depth is not caught. -/
def attempt (action : Tracked α) : Tracked (Except Error α) :=
  fun trail s =>
    match action trail s with
    | ((.ok a, t), trail') => ((.ok (.ok a), t), trail')
    | ((.error d, t), trail') => ((.ok (.error d), t), trail')
    | ((.tooDeep, t), trail') => ((.tooDeep, t), trail')

/-- Put something on the trail, in view of the state. -/
def note (change : State → Trail → Trail) : Tracked Unit :=
  fun trail s => ((.ok (), s), change s trail)

/-- The place of the lambda form that the closure with this tag was made from. -/
def originOf (tag : Nat) : Tracked Place :=
  fun trail s => ((.ok (trail.origin tag), s), trail)

end Tracked

/-- How the expression at a place is evaluated in a frame. -/
abbrev Visitor := Place → Value → FrameId → Tracked Value

section

variable (visit : Visitor) (place : Place)

/-- Evaluate items from left to right, the first of which has this index. -/
def trackEach (e : FrameId) : Nat → List Value → Tracked (List Value)
  | _, [] => pure []
  | index, expr :: rest => do
    let value ← visit (place.item index) expr e
    let values ← trackEach e (index + 1) rest
    return value :: values

/-- Evaluate items from left to right, stopping at the first that is not a number. -/
def trackNumbers (form : Form) (e : FrameId) : Nat → List Value → Tracked (List Number)
  | _, [] => pure []
  | index, expr :: rest => do
    let value ← visit (place.item index) expr e
    match value with
    | .number n =>
      let numbers ← trackNumbers form e (index + 1) rest
      return n :: numbers
    | _ => Tracked.lift (Eval.fail (.operandNotNumber form value))

/-- An arithmetic form. -/
def trackArithmetic (form : Form) (combine : List Float → Float) (operands : List Value)
    (e : FrameId) : Tracked Value := do
  let numbers ← trackNumbers visit place form e 1 operands
  Tracked.lift (Eval.emit (.operandsKnown form (numbers.map .number)))
  let tag ← Tracked.lift Eval.freshTag
  return .number (.ofFloat tag (combine (numbers.map Number.toFloat)))

/-- The rule of `if`. -/
def trackChoose (operands : List Value) (e : FrameId) : Tracked Value :=
  match operands with
  | [test, whenTrue, whenFalse] => do
    let condition ← visit (place.item 1) test e
    if condition.isFalse then visit (place.item 3) whenFalse e
    else visit (place.item 2) whenTrue e
  | _ => Tracked.lift (Eval.fail (.operandCount .choose))

/-- The rule of `define`. -/
def trackDefine (operands : List Value) (e : FrameId) : Tracked Value :=
  match operands with
  | [.symbol name, expr] => do
    let value ← visit (place.item 2) expr e
    Tracked.lift (Eval.bindName e (.symbol name) value)
    return value
  | _ => Tracked.lift (runDefine (evaluate 0) operands e)

/-- The rule of `lambda`: the tag of the new closure leads back to the form. -/
def trackLambda (operands : List Value) (e : FrameId) : Tracked Value :=
  match operands with
  | [.list formals, body] => do
    Tracked.note fun s trail => trail.made s.store.nextTag place
    Tracked.lift (runLambda [.list formals, body] e)
  | _ => Tracked.lift (runLambda operands e)

/-- The rule of `set!`. -/
def trackAssign (operands : List Value) (e : FrameId) : Tracked Value :=
  match operands with
  | [.symbol name, expr] => do
    let store ← Tracked.lift Eval.getStore
    if (store.find? e name).isNone then Tracked.lift (Eval.fail (.assignUnbound name))
    else
      let value ← visit (place.item 2) expr e
      Tracked.lift (Eval.overwrite e (.symbol name) value)
      return value
  | _ => Tracked.lift (runAssign (evaluate 0) operands e)

/-- The rule of `=`. -/
def trackEquals (operands : List Value) (e : FrameId) : Tracked Value :=
  if operands.isEmpty then Tracked.lift (Eval.fail (.operandCount .equals))
  else do
    let values ← trackEach visit place e 1 operands
    return .boolean (allSame values)

/-- Run a reserved form. -/
def Form.track (form : Form) (operands : List Value) (e : FrameId) : Tracked Value :=
  match form with
  | .quote => Tracked.lift (runQuote operands)
  | .choose => trackChoose visit place operands e
  | .define => trackDefine visit place operands e
  | .lambda => trackLambda place operands e
  | .assign => trackAssign visit place operands e
  | .plus => trackArithmetic visit place .plus sumOf operands e
  | .minus =>
    if operands.isEmpty then Tracked.lift (Eval.fail (.operandCount .minus))
    else trackArithmetic visit place .minus differenceOf operands e
  | .times => trackArithmetic visit place .times productOf operands e
  | .equals => trackEquals visit place operands e

/-- Call a closure: evaluate its body in a new frame, at the place it has in its lambda form. -/
def trackCall (c : Closure) (arguments : List Value) : Tracked Value := do
  let e ← Tracked.lift (callFrame c.toValue c.formals c.frame arguments)
  Tracked.lift (Eval.emit (.closureCalled c.toValue arguments))
  let origin ← Tracked.originOf c.tag
  visit (origin.item 2) c.body e

/-- Evaluate operands and apply a function to them, or fail if it is no function. -/
def trackApply (function : Value) (otherwise : Error) (operands : List Value) (e : FrameId) :
    Tracked Value :=
  match function with
  | .closure tag formals body frame => do
    let arguments ← trackEach visit place e 1 operands
    trackCall visit ⟨tag, formals, body, frame⟩ arguments
  | _ => Tracked.lift (Eval.fail otherwise)

/-- Evaluate a list by its head and operands. -/
def trackList (head : Value) (operands : List Value) (e : FrameId) : Tracked Value :=
  match head with
  | .symbol name =>
    match Form.ofName? name with
    | some form => form.track visit place operands e
    | none => do
      let function ← Tracked.lift (Eval.lookup e (.symbol name))
      trackApply visit place function (.nameNotFunction name) operands e
  | .closure tag formals body frame => do
    let arguments ← trackEach visit place e 1 operands
    trackCall visit ⟨tag, formals, body, frame⟩ arguments
  | .list items => do
    let function ← visit (place.item 0) (.list items) e
    trackApply visit place function (.resultNotFunction function) operands e
  | _ => Tracked.lift (Eval.fail (.invalidExpression (.list (head :: operands))))

/-- The rule for an expression. -/
def trackRule (expr : Value) (e : FrameId) : Tracked Value :=
  match expr with
  | .list (head :: operands) => trackList visit place head operands e
  | _ => Tracked.lift (evaluateWith (evaluate 0) expr e)

/-- Evaluate the expression at a place, given how those within it are evaluated. -/
def trackWith (expr : Value) (e : FrameId) : Tracked Value := do
  Tracked.note fun s trail => trail.visited ⟨place, expr, e, s.store.depth e⟩
  trackRule visit place expr e

end

/-- Evaluate the expression at a place, with evaluations nested no deeper than the limit. -/
def track : Nat → Visitor
  | 0 => fun _ _ _ => Tracked.lift Eval.tooDeep
  | limit + 1 => trackWith (track limit)

/-- Evaluate expressions of a text in order, the first of which has this index. -/
def trackSequence (visit : Visitor) (root : FrameId) (source : String) :
    Nat → Value → List Value → Tracked Value
  | _, last, [] => pure last
  | index, _, expr :: rest => do
    let value ← visit (.top source index) expr root
    trackSequence visit root source (index + 1) value rest

/-- Serve a request. -/
def TextRequest.track (visit : Visitor) (root : FrameId) : TextRequest → Tracked (Option Value)
  | .evaluate source =>
    match readAll source with
    | .error fault => Tracked.lift (Eval.fail (.unreadable fault))
    | .ok [] => Tracked.lift (Eval.fail (.unreadable .unexpectedEnd))
    | .ok (expr :: rest) => do
      let value ← trackSequence visit root source 0 (.list []) (expr :: rest)
      return some value
  | .first source =>
    match readFirst source with
    | .error fault => do
      Tracked.lift (Eval.emit (.sourceFailed (.unreadable fault)))
      Tracked.lift (Eval.fail (.unreadable fault))
    | .ok expr => do
      Tracked.lift (Eval.emit (.sourceRead source))
      let result ← Tracked.attempt (visit (.top source 0) expr root)
      match result with
      | .ok value => return some value
      | .error d =>
        Tracked.lift (Eval.emit (.sourceFailed d))
        Tracked.lift (Eval.fail d)
  | .load source =>
    match readAll source with
    | .error fault => Tracked.lift (Eval.fail (.unreadable fault))
    | .ok exprs => do
      let _ ← trackSequence visit root source 0 (.list []) exprs
      return none

/-- Serve requests to a root one after another, whether or not they succeed. -/
def trackRequests (root : FrameId) : List (Nat × TextRequest) → Trail → State →
    (List (Outcome (Option Value)) × State) × Trail
  | [], trail, s => (([], s), trail)
  | (limit, request) :: rest, trail, s =>
    let ((outcome, t), trail') := request.track (track limit) root trail s
    let ((outcomes, u), trail'') := trackRequests root rest trail' t
    ((outcome :: outcomes, u), trail'')

end LexicalLisp
