import LexicalLisp.Eval.Scope

/-!
# Rules of the reserved forms

Each rule takes its operands unevaluated, the frame it runs in, and the evaluator for whatever
the rule wants evaluated. Everything that can be wrong with the shape of a form is found before
any operand is evaluated.
-/

namespace LexicalLisp

/-- How expressions are evaluated in a frame. -/
abbrev Evaluator := Value → FrameId → Eval Value

/-- Evaluate expressions from left to right. -/
def evaluateEach (eval : Evaluator) (e : FrameId) : List Value → Eval (List Value)
  | [] => Eval.succeed []
  | expr :: rest => do
    let value ← eval expr e
    let values ← evaluateEach eval e rest
    return value :: values

/-- Evaluate expressions from left to right, stopping at the first that is not a number. -/
def evaluateNumbers (eval : Evaluator) (form : Form) (e : FrameId) :
    List Value → Eval (List Number)
  | [] => Eval.succeed []
  | expr :: rest => do
    let value ← eval expr e
    match value with
    | .number n =>
      let numbers ← evaluateNumbers eval form e rest
      return n :: numbers
    | _ => Eval.fail (.operandNotNumber form value)

/-- Add from left to right, starting from zero, and round after each addition.

This is the sum that runtimes of versions 3.10 and 3.11 compute. From version 3.12 on, a runtime
makes up for what rounding loses, which can make a difference from three numbers on. -/
def sumOf (xs : List Float) : Float :=
  xs.foldl (· + ·) 0.0

/-- Multiply from left to right, starting from one. -/
def productOf (xs : List Float) : Float :=
  xs.foldl (· * ·) 1.0

/-- Subtract from the first number, or negate it if it is the only one. -/
def differenceOf : List Float → Float
  | [] => 0.0
  | [x] => -x
  | x :: xs => xs.foldl (· - ·) x

/-- An arithmetic form: combine the numbers that its operands evaluate to. -/
def runArithmetic (eval : Evaluator) (form : Form) (combine : List Float → Float)
    (operands : List Value) (e : FrameId) : Eval Value := do
  let numbers ← evaluateNumbers eval form e operands
  Eval.emit (.operandsKnown form (numbers.map .number))
  let tag ← Eval.freshTag
  return .number (.ofFloat tag (combine (numbers.map Number.toFloat)))

/-- Every value equals the first one. -/
def allSame : List Value → Bool
  | [] => true
  | first :: rest => rest.all first.same

/-- The rule of `quote`: the operand itself. -/
def runQuote : List Value → Eval Value
  | [expr] => Eval.succeed expr
  | _ => Eval.fail (.operandCount .quote)

/-- The rule of `if`: only the boolean false selects the second branch. -/
def runChoose (eval : Evaluator) (operands : List Value) (e : FrameId) : Eval Value :=
  match operands with
  | [test, whenTrue, whenFalse] => do
    let condition ← eval test e
    if condition.isFalse then eval whenFalse e else eval whenTrue e
  | _ => Eval.fail (.operandCount .choose)

/-- The rule of `define`: bind in the current frame and answer the value. -/
def runDefine (eval : Evaluator) (operands : List Value) (e : FrameId) : Eval Value :=
  match operands with
  | [.symbol name, expr] => do
    let value ← eval expr e
    Eval.bindName e (.symbol name) value
    return value
  | [target, _] => Eval.fail (.targetNotSymbol .define target)
  | _ => Eval.fail (.operandCount .define)

/-- The rule of `lambda`: a new closure over the current frame. -/
def runLambda (operands : List Value) (e : FrameId) : Eval Value :=
  match operands with
  | [.list formals, body] => do
    let tag ← Eval.freshTag
    let store ← Eval.getStore
    let closure := Value.closure tag formals body e
    Eval.emit (.closureMade closure (store.depth e))
    return closure
  | [parameters, _] => Eval.fail (.parametersNotList parameters)
  | _ => Eval.fail (.operandCount .lambda)

/-- The rule of `set!`: the target has to be bound before its new value is evaluated. -/
def runAssign (eval : Evaluator) (operands : List Value) (e : FrameId) : Eval Value :=
  match operands with
  | [.symbol name, expr] => do
    let store ← Eval.getStore
    if (store.find? e name).isNone then Eval.fail (.assignUnbound name)
    else
      let value ← eval expr e
      Eval.overwrite e (.symbol name) value
      return value
  | [target, _] => Eval.fail (.targetNotSymbol .assign target)
  | _ => Eval.fail (.operandCount .assign)

/-- The rule of `=`: all operands are evaluated before any are compared. -/
def runEquals (eval : Evaluator) (operands : List Value) (e : FrameId) : Eval Value :=
  if operands.isEmpty then Eval.fail (.operandCount .equals)
  else do
    let values ← evaluateEach eval e operands
    return .boolean (allSame values)

/-- Run a reserved form. -/
def Form.run (eval : Evaluator) (form : Form) (operands : List Value) (e : FrameId) : Eval Value :=
  match form with
  | .quote => runQuote operands
  | .choose => runChoose eval operands e
  | .define => runDefine eval operands e
  | .lambda => runLambda operands e
  | .assign => runAssign eval operands e
  | .plus => runArithmetic eval .plus sumOf operands e
  | .minus =>
    if operands.isEmpty then Eval.fail (.operandCount .minus)
    else runArithmetic eval .minus differenceOf operands e
  | .times => runArithmetic eval .times productOf operands e
  | .equals => runEquals eval operands e

end LexicalLisp
