import LexicalLisp.Evaluate
import LexicalLisp.Proofs.Store.Contents

/-!
# What single actions do

Evaluation touches the state in a few places only. Here each of these actions is given as the
answer and the state it leaves: looking a name up, overwriting it, making a closure, and opening the
frame of a call. The forms that take a name or a list of parameters are refused for their shape
before anything is evaluated, with an error that depends on the operands alone.
-/

namespace LexicalLisp

/-- A reserved name is the name of its form. -/
theorem Form.name_of_ofName? {name : String} {form : Form} (h : Form.ofName? name = some form) :
    name = form.name := by
  have hfound := List.find?_some h
  exact (of_decide_eq_true hfound).symm

namespace Eval

/-- Looking a symbol up answers its value and changes nothing. -/
theorem lookup_symbol (e : FrameId) (n : String) (s : State) :
    lookup e (.symbol n) s =
      (match s.store.lookup? e n with
        | some value => .ok value
        | none => .error (.unbound (.symbol n)), s) := by
  change (match s.store.lookup? e n with
    | some value => succeed value
    | none => fail (.unbound (.symbol n))) s = _
  cases s.store.lookup? e n <;> rfl

/-- Overwriting a symbol binds it in the frame where it is found, and fails if there is none. -/
theorem overwrite_symbol (e : FrameId) (n : String) (value : Value) (s : State) :
    overwrite e (.symbol n) value s =
      match s.store.find? e n with
      | some target => (.ok (), { s with store := s.store.put target n value })
      | none => (.error (.overwriteUnbound (.symbol n)), s) := by
  change (match s.store.find? e n with
    | some target => modifyStore (·.put target n value)
    | none => fail (.overwriteUnbound (.symbol n))) s = _
  cases s.store.find? e n <;> rfl

end Eval

/-- A lambda form with its parts makes a closure over the frame and records it. -/
theorem runLambda_eq (fs : List Value) (b : Value) (e : FrameId) (s : State) :
    runLambda [.list fs, b] e s =
      (.ok (.closure s.store.nextTag fs b e),
        { store := { s.store with nextTag := s.store.nextTag + 1 },
          log := s.log.push
            (.closureMade (.closure s.store.nextTag fs b e) (s.store.depth e)) }) := by
  have hchain : Store.chain { s.store with nextTag := s.store.nextTag + 1 } e =
      s.store.chain e := by
    refine Store.chain_congr ?_ (fun g => ?_) e <;> rfl
  rw [Store.depth, ← hchain]
  rfl

/-- A call with the right number of arguments opens a frame with the parameters bound, or fails
on the first parameter that is no symbol. -/
theorem callFrame_eq {closure : Value} {formals arguments : List Value} (frame : FrameId)
    (h : arguments.length = formals.length) (s : State) :
    callFrame closure formals frame arguments s =
      match bindFormals [] (formals.zip arguments) with
      | .ok bindings =>
        (.ok s.store.frames.size, { s with store := s.store.push ⟨some frame, bindings⟩ })
      | .error e => (.error e, s) := by
  rw [callFrame, if_pos h]
  cases bindFormals [] (formals.zip arguments) <;> rfl

/-- A call with a wrong number of arguments is refused. -/
theorem callFrame_of_length_ne {formals arguments : List Value}
    (h : arguments.length ≠ formals.length) (closure : Value) (c : FrameId) (s : State) :
    callFrame closure formals c arguments s =
      (.error (.argumentCount closure formals.length arguments.length), s) := by
  rw [callFrame, if_neg h]
  rfl

/-- An assignment fails at once if its name is not bound, and otherwise evaluates the expression and
overwrites the name. -/
theorem runAssign_symbol (eval : Evaluator) (n : String) (x : Value) (e : FrameId) (s : State) :
    runAssign eval [.symbol n, x] e s =
      match s.store.find? e n with
      | none => (.error (.assignUnbound n), s)
      | some _ => (eval x e >>= fun value =>
          Eval.overwrite e (.symbol n) value >>= fun _ => pure value) s := by
  change (if (s.store.find? e n).isNone then Eval.fail (.assignUnbound n)
    else eval x e >>= fun value => Eval.overwrite e (.symbol n) value >>= fun _ => pure value) s = _
  cases s.store.find? e n <;> rfl

/-- What is wrong with operands that are not a name and an expression. -/
def Form.bindingFault (form : Form) : List Value → Error
  | [target, _] => .targetNotSymbol form target
  | _ => .operandCount form

/-- What is wrong with operands that are not a list of parameters and a body. -/
def lambdaFault : List Value → Error
  | [parameters, _] => .parametersNotList parameters
  | _ => .operandCount .lambda

/-- A define form without a name and an expression fails. -/
theorem runDefine_of_malformed {xs : List Value} (h : ∀ n x, xs ≠ [.symbol n, x])
    (eval : Evaluator) (e : FrameId) :
    runDefine eval xs e = Eval.fail (Form.bindingFault .define xs) := by
  match xs with
  | [] => rfl
  | [u] => cases u <;> rfl
  | [.symbol n, x] => exact absurd rfl (h n x)
  | [.number _, _] | [.boolean _, _] | [.list _, _] | [.closure .., _] | [.foreign _, _] => rfl
  | u :: _ :: _ :: _ => cases u <;> rfl

/-- An assignment form without a name and an expression fails. -/
theorem runAssign_of_malformed {xs : List Value} (h : ∀ n x, xs ≠ [.symbol n, x])
    (eval : Evaluator) (e : FrameId) :
    runAssign eval xs e = Eval.fail (Form.bindingFault .assign xs) := by
  match xs with
  | [] => rfl
  | [u] => cases u <;> rfl
  | [.symbol n, x] => exact absurd rfl (h n x)
  | [.number _, _] | [.boolean _, _] | [.list _, _] | [.closure .., _] | [.foreign _, _] => rfl
  | u :: _ :: _ :: _ => cases u <;> rfl

/-- A lambda form without a list of parameters and a body fails. -/
theorem runLambda_of_malformed {xs : List Value} (h : ∀ fs b, xs ≠ [.list fs, b]) (e : FrameId) :
    runLambda xs e = Eval.fail (lambdaFault xs) := by
  match xs with
  | [] => rfl
  | [u] => cases u <;> rfl
  | [.list fs, b] => exact absurd rfl (h fs b)
  | [.number _, _] | [.boolean _, _] | [.symbol _, _] | [.closure .., _] | [.foreign _, _] => rfl
  | u :: _ :: _ :: _ => cases u <;> rfl

end LexicalLisp
