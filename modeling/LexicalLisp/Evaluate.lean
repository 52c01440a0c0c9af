import LexicalLisp.Eval.Forms

/-!
# Evaluation

A symbol evaluates to its binding; numbers, booleans and closures to themselves. A list is a
reserved form if a reserved name heads it, and a call otherwise: the head must be a closure, or a
name or list that yields one, and this is settled before the operands are evaluated from left to
right.

One rule evaluates an expression given an evaluator for the expressions within it. Evaluation
repeats the rule up to a bound on how deeply evaluations nest. Nothing else counts against the
bound: values are compared and shown in errors at any depth of nesting.
-/

namespace LexicalLisp

/-- Call a closure: evaluate its body in a new frame. -/
def callClosure (eval : Evaluator) (tag : Nat) (formals : List Value) (body : Value)
    (frame : FrameId) (arguments : List Value) : Eval Value := do
  let closure := Value.closure tag formals body frame
  let e ← callFrame closure formals frame arguments
  Eval.emit (.closureCalled closure arguments)
  eval body e

/-- Apply a value to arguments; only closures can be applied. -/
def applyValue (eval : Evaluator) (head : Value) (arguments : List Value) : Eval Value :=
  match head with
  | .closure tag formals body frame => callClosure eval tag formals body frame arguments
  | _ => Eval.fail (.notApplicable head)

/-- Evaluate operands and apply a function to them, or fail if it is no function. -/
def callWith (eval : Evaluator) (function : Value) (otherwise : Error) (operands : List Value)
    (e : FrameId) : Eval Value :=
  if function.isClosure then do
    let arguments ← evaluateEach eval e operands
    applyValue eval function arguments
  else Eval.fail otherwise

/-- Evaluate a list by its head and operands. -/
def evaluateList (eval : Evaluator) (head : Value) (operands : List Value) (e : FrameId) :
    Eval Value :=
  match head with
  | .symbol name =>
    match Form.ofName? name with
    | some form => form.run eval operands e
    | none => do
      let function ← Eval.lookup e (.symbol name)
      callWith eval function (.nameNotFunction name) operands e
  | .closure tag formals body frame => do
    let arguments ← evaluateEach eval e operands
    callClosure eval tag formals body frame arguments
  | .list items => do
    let function ← eval (.list items) e
    callWith eval function (.resultNotFunction function) operands e
  | _ => Eval.fail (.invalidExpression (.list (head :: operands)))

/-- Evaluate an expression, given an evaluator for those within it. -/
def evaluateWith (eval : Evaluator) : Evaluator := fun expr e =>
  match expr with
  | .symbol name => Eval.lookup e (.symbol name)
  | .number n => Eval.succeed (.number n)
  | .boolean b => Eval.succeed (.boolean b)
  | .closure tag formals body frame => Eval.succeed (.closure tag formals body frame)
  | .list [] => Eval.fail .emptyList
  | .list (head :: operands) => evaluateList eval head operands e
  | .foreign f => Eval.fail (.invalidExpression (.foreign f))

/-- Evaluate an expression, with evaluations nested no deeper than the limit. -/
def evaluate : Nat → Evaluator
  | 0 => fun _ _ => Eval.tooDeep
  | limit + 1 => evaluateWith (evaluate limit)

end LexicalLisp
