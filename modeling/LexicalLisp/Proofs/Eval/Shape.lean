import LexicalLisp.Proofs.Eval.Depth
import LexicalLisp.Proofs.Store.Writes

/-!
# Failures of shape

Whether a list can be evaluated at all is settled before any of its operands is: a form checks how
many operands it has and what the first of them is, an assignment that its target is bound, and a
call that its head is a closure. Operands may be programs with effects of any kind. A list that
fails one of these checks leaves no trace of them, and if a list stands at its head, it leaves what
the evaluation of the head left and no more.

That no operand is evaluated is not read off the state alone. The rule for a list is given every
possible evaluator, and fails in the same way with each of them.
-/

namespace LexicalLisp

/-- The form has a rule for this many operands. -/
def Form.accepts (form : Form) (count : Nat) : Bool :=
  match form with
  | .quote => count == 1
  | .choose => count == 3
  | .define | .lambda | .assign => count == 2
  | .minus | .equals => count != 0
  | .plus | .times => true

/-- A list with this head and these operands fails for its shape in this frame, with an error of
this kind. -/
inductive Misshapen (store : Store) (e : FrameId) :
    Value → List Value → ErrorKind → Error → Prop where
  /-- A form has the wrong number of operands. -/
  | count {form : Form} {operands : List Value} (refused : form.accepts operands.length = false) :
      Misshapen store e (.symbol form.name) operands .arity (.operandCount form)
  /-- What is to be defined or assigned is no symbol. -/
  | target {form : Form} {target expr : Value} (binding : form = .define ∨ form = .assign)
      (refused : ∀ name, target ≠ .symbol name) :
      Misshapen store e (.symbol form.name) [target, expr] .invalidSymbol
        (.targetNotSymbol form target)
  /-- What should be parameters is no list. -/
  | parameters {parameters body : Value} (refused : ∀ formals, parameters ≠ .list formals) :
      Misshapen store e (.symbol Form.lambda.name) [parameters, body] .type
        (.parametersNotList parameters)
  /-- What is to be assigned is not bound. -/
  | unboundTarget {name : String} {expr : Value} (unbound : store.find? e name = none) :
      Misshapen store e (.symbol Form.assign.name) [.symbol name, expr] .unboundSymbol
        (.assignUnbound name)
  /-- The name at the head is not bound. -/
  | unboundHead {name : String} {operands : List Value}
      (unreserved : ∀ form : Form, name ≠ form.name)
      (unbound : store.find? e name = none) :
      Misshapen store e (.symbol name) operands .unboundSymbol (.unbound (.symbol name))
  /-- The name at the head is bound to something else than a closure. -/
  | otherHead {name : String} {operands : List Value} {value : Value}
      (unreserved : ∀ form : Form, name ≠ form.name) (bound : store.lookup? e name = some value)
      (refused : value.isClosure = false) :
      Misshapen store e (.symbol name) operands .type (.nameNotFunction name)
  /-- The head is a number or a boolean. -/
  | literalHead {head : Value} {operands : List Value}
      (literal : (∃ n, head = .number n) ∨ ∃ b, head = .boolean b) :
      Misshapen store e head operands .invalidExpression
        (.invalidExpression (.list (head :: operands)))

/-- A list with a reserved name at its head is evaluated by the rule of the form. -/
theorem evaluateWith_form (eval : Evaluator) (form : Form) (operands : List Value) (e : FrameId) :
    evaluateWith eval (.list (.symbol form.name :: operands)) e = form.run eval operands e := by
  change evaluateList eval (.symbol form.name) operands e = _
  rw [evaluateList, Form.ofName?_name]

/-- A list with another name at its head is a call of what the name is bound to. -/
theorem evaluateWith_name {name : String} (h : ∀ form : Form, name ≠ form.name) (eval : Evaluator)
    (operands : List Value) (e : FrameId) :
    evaluateWith eval (.list (.symbol name :: operands)) e =
      Eval.lookup e (.symbol name) >>= fun function =>
        callWith eval function (.nameNotFunction name) operands e := by
  have hname : Form.ofName? name = none := by
    cases hform : Form.ofName? name with
    | none => rfl
    | some form => exact absurd (Form.name_of_ofName? hform) (h form)
  change evaluateList eval (.symbol name) operands e = _
  rw [evaluateList, hname]

/-- A form with the wrong number of operands fails. -/
theorem Form.run_of_not_accepts {form : Form} {operands : List Value}
    (h : form.accepts operands.length = false) (eval : Evaluator) (e : FrameId) :
    form.run eval operands e = Eval.fail (.operandCount form) := by
  cases form with
  | quote =>
    match operands with
    | [] | _ :: _ :: _ => rfl
    | [_] => cases h
  | choose =>
    match operands with
    | [] | [_] | [_, _] | _ :: _ :: _ :: _ :: _ => rfl
    | [_, _, _] => cases h
  | define | lambda | assign =>
    match operands with
    | [] => rfl
    -- The patterns of these rules name a constructor of the first operand.
    | [first] | first :: _ :: _ :: _ => cases first <;> rfl
    | [_, _] => cases h
  | minus | equals =>
    match operands with
    | [] => rfl
    | _ :: _ => cases h
  | plus | times => cases h

namespace Misshapen

variable {s : State} {e : FrameId} {head : Value} {operands : List Value} {kind : ErrorKind}
  {error : Error}

/-- The error is of the kind. -/
theorem kind_eq (h : Misshapen s.store e head operands kind error) : error.kind = kind := by
  cases h <;> rfl

/-- A list of such a shape fails with its error whatever the evaluator is, and the state is left as
it is. -/
theorem evaluateWith_eq (h : Misshapen s.store e head operands kind error) (eval : Evaluator) :
    evaluateWith eval (.list (head :: operands)) e s = (.error error, s) := by
  cases h with
  | count hcount =>
    rw [evaluateWith_form, Form.run_of_not_accepts hcount]
    rfl
  | @target form target expr hbinding htarget =>
    have hpair : ∀ n x, [target, expr] ≠ [.symbol n, x] := fun n x heq =>
      htarget n (List.cons.inj heq).1
    rw [evaluateWith_form]
    rcases hbinding with rfl | rfl
    · exact congrFun (runDefine_of_malformed hpair eval e) s
    · exact congrFun (runAssign_of_malformed hpair eval e) s
  | @parameters parameters body hparameters =>
    have hpair : ∀ fs b, [parameters, body] ≠ [.list fs, b] := fun fs b heq =>
      hparameters fs (List.cons.inj heq).1
    rw [evaluateWith_form]
    exact congrFun (runLambda_of_malformed hpair e) s
  | @unboundTarget name expr hunbound =>
    rw [evaluateWith_form, Form.run, runAssign_symbol, hunbound]
  | @unboundHead name operands hname hunbound =>
    have hlookup : Eval.lookup e (.symbol name) s = (.error (.unbound (.symbol name)), s) := by
      rw [Eval.lookup_symbol, Store.find?_eq_none_iff.mp hunbound]
    rw [evaluateWith_name hname]
    exact Eval.bind_of_error hlookup _
  | @otherHead name operands value hname hbound hvalue =>
    rw [evaluateWith_name hname, Eval.bind_of_ok (Eval.lookup_of_some hbound), callWith, hvalue]
    rfl
  | literalHead hliteral =>
    rcases hliteral with ⟨n, rfl⟩ | ⟨b, rfl⟩
    · rfl
    · rfl

end Misshapen

/-- A list at the head that comes to no closure ends the evaluation in the state that it left. -/
theorem evaluateWith_list_head {eval : Evaluator} {items : List Value} {e : FrameId} {s t : State}
    {v : Value} (hhead : eval (.list items) e s = (.ok v, t)) (hv : v.isClosure = false)
    (operands : List Value) :
    evaluateWith eval (.list (.list items :: operands)) e s =
      (.error (.resultNotFunction v), t) := by
  change (eval (.list items) e >>= fun function =>
    callWith eval function (.resultNotFunction function) operands e) s = _
  rw [Eval.bind_of_ok hhead, callWith, hv]
  rfl

/-- A form that fails also where its evaluator gives up at once is misshapen. -/
theorem misshapen_of_fails {form : Form} {operands : List Value} {e : FrameId} {s : State}
    {d : Error} (h : form.run (fun _ _ => Eval.tooDeep) operands e s = (.error d, s)) :
    ∃ kind error, Misshapen s.store e (.symbol form.name) operands kind error := by
  cases hcount : form.accepts operands.length with
  | false => exact ⟨_, _, .count hcount⟩
  | true =>
    -- With the right number of operands, the rule has a value, asks for one, or names the fault.
    cases form with
    | quote =>
      obtain ⟨x, rfl⟩ := List.length_eq_one_iff.mp (beq_iff_eq.mp hcount)
      cases h
    | choose =>
      obtain ⟨test, first, second, rfl⟩ := List.length_eq_three.mp (beq_iff_eq.mp hcount)
      cases h
    | define =>
      obtain ⟨target, expr, rfl⟩ := List.length_eq_two.mp (beq_iff_eq.mp hcount)
      cases target with
      | symbol name => cases h
      | _ => exact ⟨_, _, .target (.inl rfl) nofun⟩
    | lambda =>
      obtain ⟨parameters, body, rfl⟩ := List.length_eq_two.mp (beq_iff_eq.mp hcount)
      cases parameters with
      | list formals => cases h
      | _ => exact ⟨_, _, .parameters nofun⟩
    | assign =>
      obtain ⟨target, expr, rfl⟩ := List.length_eq_two.mp (beq_iff_eq.mp hcount)
      cases target with
      | symbol name =>
        cases hfound : s.store.find? e name with
        | none => exact ⟨_, _, .unboundTarget hfound⟩
        | some f =>
          rw [Form.run, runAssign_symbol, hfound] at h
          cases h
      | _ => exact ⟨_, _, .target (.inr rfl) nofun⟩
    | plus | times => cases operands <;> cases h
    | minus | equals =>
      cases operands with
      | nil => cases hcount
      | cons => cases h

/-- A list of the wrong shape fails before any of its operands is evaluated.

A form with operands that it does not accept, a call of a name that is not bound to a closure, and a
number or boolean at the head of a list fail with the error that belongs to them, in the state they
are met in, at every limit that allows the evaluation to start and with every evaluator for the
expressions within. A form that fails in this way is one with such operands. A list at the head that
comes to anything but a closure ends the evaluation with a type error, in the state that it left, at
every limit that is enough for it; what the evaluator would say of the operands does not matter. -/
theorem misshapen_list_runs_no_operand :
    (∀ (s : State) (e : FrameId) (head : Value) (operands : List Value) (kind : ErrorKind)
        (error : Error), Misshapen s.store e head operands kind error →
      error.kind = kind ∧
      (∀ limit, evaluate (limit + 1) (.list (head :: operands)) e s = (.error error, s)) ∧
      ∀ eval, evaluateWith eval (.list (head :: operands)) e s = (.error error, s)) ∧
    (∀ (s : State) (e : FrameId) (form : Form) (operands : List Value),
      (∀ eval, ∃ d, evaluateWith eval (.list (.symbol form.name :: operands)) e s = (.error d, s)) ↔
        ∃ kind error, Misshapen s.store e (.symbol form.name) operands kind error) ∧
    ∀ (s t : State) (e : FrameId) (items operands : List Value) (v : Value), v.isClosure = false →
      (Error.resultNotFunction v).kind = .type ∧
      (∀ limit larger, limit ≤ larger → evaluate limit (.list items) e s = (.ok v, t) →
        evaluate (larger + 1) (.list (.list items :: operands)) e s =
          (.error (.resultNotFunction v), t)) ∧
      ∀ eval : Evaluator, eval (.list items) e s = (.ok v, t) →
        evaluateWith eval (.list (.list items :: operands)) e s =
          (.error (.resultNotFunction v), t) := by
  refine ⟨?_, ?_, ?_⟩
  · intro s e head operands kind error h
    exact ⟨h.kind_eq, fun limit => h.evaluateWith_eq (evaluate limit), h.evaluateWith_eq⟩
  · intro s e form operands
    constructor
    · intro hfails
      obtain ⟨d, hd⟩ := hfails fun _ _ => Eval.tooDeep
      rw [evaluateWith_form] at hd
      exact misshapen_of_fails hd
    · rintro ⟨kind, error, h⟩ eval
      exact ⟨error, h.evaluateWith_eq eval⟩
  · intro s t e items operands v hv
    refine ⟨rfl, fun limit larger hle hhead => ?_, fun eval hhead => ?_⟩
    · have hlarger : evaluate larger (.list items) e s = (.ok v, t) := by
        rw [evaluate_refines hle (.list items) e s (by rw [hhead]; nofun), hhead]
      exact evaluateWith_list_head hlarger hv operands
    · exact evaluateWith_list_head hhead hv operands

/-- An assignment to an unbound name does not make the definition within it, and neither does a list
behind a head that comes to a boolean. -/
theorem misshapen_list_runs_no_operand_definition :
    let definition := Value.list [.symbol "define", .symbol "y", .boolean true]
    let choice := [.symbol "if", .boolean true, .boolean false, .boolean true]
    let s : State := { store := ⟨#[⟨none, [("x", .boolean true)]⟩], 0⟩ }
    Misshapen s.store 0 (.symbol "set!") [.symbol "z", definition] .unboundSymbol
        (.assignUnbound "z") ∧
      evaluate 9 (.list [.symbol "set!", .symbol "z", definition]) 0 s =
        (.error (.assignUnbound "z"), s) ∧
      evaluate 2 (.list choice) 0 s = (.ok (.boolean false), s) ∧
      evaluate 9 (.list [.list choice, definition]) 0 s =
        (.error (.resultNotFunction (.boolean false)), s) := by
  intro definition choice s
  have hunbound : Misshapen s.store 0 (.symbol "set!") [.symbol "z", definition] .unboundSymbol
      (.assignUnbound "z") := .unboundTarget (by decide)
  have hchoice : evaluate 2 (.list choice) 0 s = (.ok (.boolean false), s) := rfl
  obtain ⟨hshape, -, hhead⟩ := misshapen_list_runs_no_operand
  refine ⟨hunbound, (hshape s 0 _ _ _ _ hunbound).2.1 8, hchoice, ?_⟩
  exact (hhead s s 0 choice [definition] (.boolean false) rfl).2.1 2 8 (by decide) hchoice

end LexicalLisp
