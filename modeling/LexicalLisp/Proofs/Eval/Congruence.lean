import LexicalLisp.Evaluate

/-!
# Relations that evaluation keeps

Every rule of evaluation is put together from a few actions on the state, run one after the other.
A relation between computations that each of these actions has with itself, and that sequencing
keeps, is therefore passed on from the evaluators that the rules are given to the rules themselves.

The reserved forms need fewer of these actions than calls do, and evaluate nothing but their
operands, so the walk over them stands on its own.

Such a relation says nothing about what the state holds. Where that matters, two runs are compared
by a correspondence instead. The only write that relies on a check made before it is that of an
assignment form. The walk over the rules leaves this form in one piece, so that a relation may hold
of it because of the check.
-/

namespace LexicalLisp

/-- Rules of evaluation raise the error. Reading is over before they run, and they apply closures
only. -/
def Error.arisesInEvaluation : Error → Bool
  | .unreadable _ | .notApplicable _ => false
  | _ => true

/-- Rules of evaluation raise the error other than by overwriting a name. -/
def Error.raisedByRules : Error → Bool
  | .overwriteUnbound _ => false
  | d => d.arisesInEvaluation

/-- Errors raised other than by overwriting a name are errors of evaluation. -/
theorem Error.arisesInEvaluation_of_raisedByRules {d : Error} (h : d.raisedByRules = true) :
    d.arisesInEvaluation = true := by
  cases d with
  | overwriteUnbound => rfl
  | _ => exact h

namespace Eval

/-- The action raises no errors but those with this property. -/
def Raises {α : Type} (action : Eval α) (P : Error → Prop) : Prop :=
  ∀ s d, (action s).1 = .error d → P d

namespace Raises

variable {α β : Type} {P : Error → Prop}

/-- A success raises nothing. -/
theorem succeed (a : α) : (Eval.succeed a).Raises P :=
  fun _ _ h => nomatch h

/-- A failure raises its error. -/
theorem fail {d : Error} (h : P d) : (Eval.fail d : Eval α).Raises P :=
  fun _ _ heq => Outcome.error.inj heq ▸ h

/-- Recording an event raises nothing. -/
theorem emit (event : Event) : (Eval.emit event).Raises P :=
  fun _ _ h => nomatch h

/-- Actions one after the other raise what each of them raises. -/
theorem bind {action : Eval α} {next : α → Eval β} (haction : action.Raises P)
    (hnext : ∀ a, (next a).Raises P) : (action >>= next).Raises P := by
  intro s d h
  have haction := haction s
  change (andThen action next s).1 = .error d at h
  unfold andThen at h
  rcases hresult : action s with ⟨a | d' | _, t⟩
  · rw [hresult] at h
    exact hnext a t d h
  · rw [hresult] at h haction
    exact haction d (congrArg Outcome.error (Outcome.error.inj h))
  · rw [hresult] at h
    cases h

/-- Errors that are turned into values may be raised again. -/
theorem attempt_bind {action : Eval α} {next : Except Error α → Eval β} (haction : action.Raises P)
    (hok : ∀ a, (next (.ok a)).Raises P) (herror : ∀ d, P d → (next (.error d)).Raises P) :
    (attempt action >>= next).Raises P := by
  intro s d h
  change (andThen (attempt action) next s).1 = .error d at h
  unfold andThen attempt at h
  rcases hresult : action s with ⟨a | d' | _, t⟩
  · rw [hresult] at h
    exact hok a t d h
  · rw [hresult] at h
    exact herror d' (haction s d' (by rw [hresult])) t d h
  · rw [hresult] at h
    cases h

end Raises

/-- A relation that sequencing keeps and that the actions of evaluation have with themselves,
failing with one of the given errors among them. -/
structure Congruence (raised : Error → Bool) (R : (α : Type) → Eval α → Eval α → Prop) : Prop where
  succeed : ∀ {α : Type} (a : α), R α (succeed a) (succeed a)
  fail : ∀ {α : Type} {d : Error}, raised d = true → R α (fail d) (fail d)
  getStore : R Store getStore getStore
  freshTag : R Nat freshTag freshTag
  emit : ∀ {event : Event}, event.severity = .debug → R Unit (emit event) (emit event)
  put : ∀ (e : FrameId) (name : String) (value : Value),
    R Unit (modifyStore (·.put e name value)) (modifyStore (·.put e name value))
  newFrame : ∀ frame : Frame, R FrameId (newFrame frame) (newFrame frame)
  bind : ∀ {α β : Type} {a b : Eval α} {next next' : α → Eval β}, R α a b →
    (∀ x, R β (next x) (next' x)) → R β (a >>= next) (b >>= next')

/-- The laws of a congruence that the reserved forms need. They record no call and add no frame. -/
structure FormCongruence (raised : Error → Bool) (R : (α : Type) → Eval α → Eval α → Prop) :
    Prop where
  succeed : ∀ {α : Type} (a : α), R α (succeed a) (succeed a)
  fail : ∀ {α : Type} {d : Error}, raised d = true → R α (fail d) (fail d)
  getStore : R Store getStore getStore
  freshTag : R Nat freshTag freshTag
  closureMade : ∀ (closure : Value) (depth : Nat),
    R Unit (emit (.closureMade closure depth)) (emit (.closureMade closure depth))
  operandsKnown : ∀ (form : Form) (operands : List Value),
    R Unit (emit (.operandsKnown form operands)) (emit (.operandsKnown form operands))
  put : ∀ (e : FrameId) (name : String) (value : Value),
    R Unit (modifyStore (·.put e name value)) (modifyStore (·.put e name value))
  bind : ∀ {α β : Type} {a b : Eval α} {next next' : α → Eval β}, R α a b →
    (∀ x, R β (next x) (next' x)) → R β (a >>= next) (b >>= next')

/-- A relation of this kind that assignment forms pass on as a whole, from the evaluators they are
given. -/
structure Compatible (R : (α : Type) → Eval α → Eval α → Prop) : Prop
    extends Congruence Error.raisedByRules R where
  assign : ∀ {eval eval' : Evaluator}, (∀ x e, R Value (eval x e) (eval' x e)) →
    ∀ (name : String) (x : Value) (e : FrameId),
      R Value (runAssign eval [.symbol name, x] e) (runAssign eval' [.symbol name, x] e)

end Eval

/-- Parameters are refused for not being symbols, and for nothing else. -/
theorem bindFormals_error {bindings : Bindings} {pairs : List (Value × Value)} {d : Error}
    (h : bindFormals bindings pairs = .error d) : d.raisedByRules = true := by
  fun_induction bindFormals bindings pairs with
  | case1 => cases h
  | case2 bindings name value rest ih => exact ih h
  | case3 bindings formal value rest _ => exact Except.error.inj h ▸ rfl

/-- A congruence for some errors is one for fewer. -/
theorem Eval.Congruence.mono {R : (α : Type) → Eval α → Eval α → Prop}
    {raised fewer : Error → Bool} (hR : Congruence raised R)
    (h : ∀ d, fewer d = true → raised d = true) : Congruence fewer R :=
  { hR with fail := fun hd => hR.fail (h _ hd) }

/-- Two congruences hold together. -/
theorem Eval.Congruence.and {R R' : (α : Type) → Eval α → Eval α → Prop} {raised : Error → Bool}
    (hR : Congruence raised R) (hR' : Congruence raised R') :
    Congruence raised fun α a b => R α a b ∧ R' α a b where
  succeed a := ⟨hR.succeed a, hR'.succeed a⟩
  fail hd := ⟨hR.fail hd, hR'.fail hd⟩
  getStore := ⟨hR.getStore, hR'.getStore⟩
  freshTag := ⟨hR.freshTag, hR'.freshTag⟩
  emit quiet := ⟨hR.emit quiet, hR'.emit quiet⟩
  put e name value := ⟨hR.put e name value, hR'.put e name value⟩
  newFrame frame := ⟨hR.newFrame frame, hR'.newFrame frame⟩
  bind haction hnext :=
    ⟨hR.bind haction.1 fun x => (hnext x).1, hR'.bind haction.2 fun x => (hnext x).2⟩

/-- A congruence has the laws that the reserved forms need. -/
theorem Eval.Congruence.forms {R : (α : Type) → Eval α → Eval α → Prop} {raised : Error → Bool}
    (hR : Congruence raised R) : FormCongruence raised R where
  succeed := hR.succeed
  fail := hR.fail
  getStore := hR.getStore
  freshTag := hR.freshTag
  closureMade _ _ := hR.emit rfl
  operandsKnown _ _ := hR.emit rfl
  put := hR.put
  bind := hR.bind

/-- The form leaves its operands as they are, whatever they are. -/
def Form.withholds : Form → Bool
  | .quote | .lambda => true
  | _ => false

namespace Eval.FormCongruence

section

variable {R : (α : Type) → Eval α → Eval α → Prop}
  (hR : FormCongruence Error.arisesInEvaluation R)

include hR

/-- Overwriting a name, also where it is not bound. -/
theorem overwrite (e : FrameId) (name value : Value) :
    R Unit (Eval.overwrite e name value) (Eval.overwrite e name value) := by
  refine hR.bind hR.getStore fun store => ?_
  split
  · split
    · exact hR.put _ _ value
    · exact hR.fail rfl
  · exact hR.fail rfl

/-- An assignment form, where overwriting has the relation with itself in any state. -/
theorem assign {eval eval' : Evaluator} {x : Value} {e : FrameId}
    (hx : R Value (eval x e) (eval' x e)) (name : String) :
    R Value (runAssign eval [.symbol name, x] e) (runAssign eval' [.symbol name, x] e) := by
  refine hR.bind hR.getStore fun store => ?_
  split
  · exact hR.fail rfl
  · exact hR.bind hx fun value =>
      hR.bind (hR.overwrite e (.symbol name) value) fun _ => hR.succeed value

end

variable {R : (α : Type) → Eval α → Eval α → Prop} (hR : FormCongruence Error.raisedByRules R)

include hR

/-- Looking a name up. -/
theorem lookup (e : FrameId) (name : Value) :
    R Value (Eval.lookup e name) (Eval.lookup e name) := by
  refine hR.bind hR.getStore fun store => ?_
  split
  · exact hR.succeed _
  · exact hR.fail rfl

/-- Binding a name, also where it is refused. -/
theorem bindName (e : FrameId) (name value : Value) :
    R Unit (Eval.bindName e name value) (Eval.bindName e name value) := by
  unfold Eval.bindName
  split
  · exact hR.put e _ value
  · exact hR.fail rfl

variable {eval eval' : Evaluator} {e : FrameId} {operands : List Value}

section

variable (heval : ∀ x ∈ operands, R Value (eval x e) (eval' x e))

include heval

/-- Evaluating expressions in a row. -/
theorem evaluateEach :
    R (List Value) (LexicalLisp.evaluateEach eval e operands)
      (LexicalLisp.evaluateEach eval' e operands) := by
  induction operands with
  | nil => exact hR.succeed []
  | cons x rest ih =>
    obtain ⟨hx, hrest⟩ := List.forall_mem_cons.mp heval
    exact hR.bind hx fun value => hR.bind (ih hrest) fun values => hR.succeed (value :: values)

/-- Evaluating numeric operands. -/
theorem evaluateNumbers (form : Form) :
    R (List Number) (LexicalLisp.evaluateNumbers eval form e operands)
      (LexicalLisp.evaluateNumbers eval' form e operands) := by
  induction operands with
  | nil => exact hR.succeed []
  | cons x rest ih =>
    obtain ⟨hx, hrest⟩ := List.forall_mem_cons.mp heval
    refine hR.bind hx fun value => ?_
    cases value with
    | number n => exact hR.bind (ih hrest) fun numbers => hR.succeed (n :: numbers)
    | _ => exact hR.fail rfl

/-- The arithmetic forms. -/
theorem runArithmetic (form : Form) (combine : List Float → Float) :
    R Value (LexicalLisp.runArithmetic eval form combine operands e)
      (LexicalLisp.runArithmetic eval' form combine operands e) :=
  hR.bind (hR.evaluateNumbers heval form) fun _ =>
    hR.bind (hR.operandsKnown form _) fun _ => hR.bind hR.freshTag fun _ => hR.succeed _

end

/-- Every reserved form, where its operands are evaluated alike. -/
theorem run (form : Form)
    (heval : form.withholds = false → ∀ x ∈ operands, R Value (eval x e) (eval' x e))
    (hassign : ∀ name x, form = .assign → operands = [.symbol name, x] →
      R Value (runAssign eval [.symbol name, x] e) (runAssign eval' [.symbol name, x] e)) :
    R Value (form.run eval operands e) (form.run eval' operands e) := by
  cases form with
  | quote =>
    change R Value (runQuote operands) (runQuote operands)
    unfold runQuote
    split
    · exact hR.succeed _
    · exact hR.fail rfl
  | choose =>
    have heval := heval rfl
    change R Value (runChoose eval operands e) (runChoose eval' operands e)
    unfold runChoose
    split
    · refine hR.bind (heval _ (by simp)) fun condition => ?_
      split
      · exact heval _ (by simp)
      · exact heval _ (by simp)
    · exact hR.fail rfl
  | define =>
    have heval := heval rfl
    change R Value (runDefine eval operands e) (runDefine eval' operands e)
    unfold runDefine
    split
    · exact hR.bind (heval _ (by simp)) fun value =>
        hR.bind (hR.bindName e _ value) fun _ => hR.succeed value
    · exact hR.fail rfl
    · exact hR.fail rfl
  | lambda =>
    change R Value (runLambda operands e) (runLambda operands e)
    unfold runLambda
    split
    · exact hR.bind hR.freshTag fun _ => hR.bind hR.getStore fun _ =>
        hR.bind (hR.closureMade _ _) fun _ => hR.succeed _
    · exact hR.fail rfl
    · exact hR.fail rfl
  | assign =>
    change R Value (runAssign eval operands e) (runAssign eval' operands e)
    unfold runAssign
    split
    · exact hassign _ _ rfl rfl
    · exact hR.fail rfl
    · exact hR.fail rfl
  | plus => exact hR.runArithmetic (heval rfl) .plus sumOf
  | minus =>
    change R Value
      (if operands.isEmpty then Eval.fail (.operandCount .minus)
        else LexicalLisp.runArithmetic eval .minus differenceOf operands e)
      (if operands.isEmpty then Eval.fail (.operandCount .minus)
        else LexicalLisp.runArithmetic eval' .minus differenceOf operands e)
    split
    · exact hR.fail rfl
    · exact hR.runArithmetic (heval rfl) .minus differenceOf
  | times => exact hR.runArithmetic (heval rfl) .times productOf
  | equals =>
    change R Value (runEquals eval operands e) (runEquals eval' operands e)
    unfold runEquals
    split
    · exact hR.fail rfl
    · exact hR.bind (hR.evaluateEach (heval rfl)) fun _ => hR.succeed _

end Eval.FormCongruence

/-- Where overwriting has the relation with itself in any state, so has an assignment form. -/
theorem Eval.Congruence.compatible {R : (α : Type) → Eval α → Eval α → Prop}
    (hR : Congruence Error.arisesInEvaluation R) : Compatible R where
  toCongruence := hR.mono fun _ => Error.arisesInEvaluation_of_raisedByRules
  assign heval name x e := hR.forms.assign (heval x e) name

namespace Eval.Compatible

variable {R : (α : Type) → Eval α → Eval α → Prop} (hR : Compatible R)

include hR

/-- Making the frame of a call. -/
theorem callFrame (closure : Value) (formals : List Value) (frame : FrameId)
    (arguments : List Value) :
    R FrameId (LexicalLisp.callFrame closure formals frame arguments)
      (LexicalLisp.callFrame closure formals frame arguments) := by
  unfold LexicalLisp.callFrame
  split
  · refine hR.bind ?_ fun bindings => hR.newFrame ⟨some frame, bindings⟩
    cases hformals : bindFormals [] (formals.zip arguments) with
    | ok bindings => exact hR.succeed bindings
    | error d => exact hR.fail (bindFormals_error hformals)
  · exact hR.fail rfl

variable {eval eval' : Evaluator} (heval : ∀ x e, R Value (eval x e) (eval' x e))

include heval

/-- Evaluating expressions in a row. -/
theorem evaluateEach (e : FrameId) (exprs : List Value) :
    R (List Value) (LexicalLisp.evaluateEach eval e exprs)
      (LexicalLisp.evaluateEach eval' e exprs) :=
  hR.forms.evaluateEach fun x _ => heval x e

/-- Every reserved form. -/
theorem run (form : Form) (operands : List Value) (e : FrameId) :
    R Value (form.run eval operands e) (form.run eval' operands e) :=
  hR.forms.run form (fun _ x _ => heval x e) fun name x _ _ => hR.assign heval name x e

/-- Calling a closure. -/
theorem callClosure (tag : Nat) (formals : List Value) (body : Value) (frame : FrameId)
    (arguments : List Value) :
    R Value (LexicalLisp.callClosure eval tag formals body frame arguments)
      (LexicalLisp.callClosure eval' tag formals body frame arguments) :=
  hR.bind (hR.callFrame _ formals frame arguments) fun e =>
    hR.bind (hR.emit rfl) fun _ => heval body e

/-- Calling what may not be a function. Only a closure gets as far as being applied. -/
theorem callWith (function : Value) {otherwise : Error}
    (hraised : otherwise.raisedByRules = true) (operands : List Value) (e : FrameId) :
    R Value (LexicalLisp.callWith eval function otherwise operands e)
      (LexicalLisp.callWith eval' function otherwise operands e) := by
  cases function with
  | closure tag formals body frame =>
    exact hR.bind (hR.evaluateEach heval e operands) fun arguments =>
      hR.callClosure heval tag formals body frame arguments
  | _ => exact hR.fail hraised

/-- Evaluating a list. -/
theorem evaluateList (head : Value) (operands : List Value) (e : FrameId) :
    R Value (LexicalLisp.evaluateList eval head operands e)
      (LexicalLisp.evaluateList eval' head operands e) := by
  unfold LexicalLisp.evaluateList
  split
  · split
    · exact hR.run heval _ operands e
    · exact hR.bind (hR.forms.lookup e _) fun function => hR.callWith heval function rfl operands e
  · exact hR.bind (hR.evaluateEach heval e operands) fun arguments =>
      hR.callClosure heval _ _ _ _ arguments
  · exact hR.bind (heval _ e) fun function => hR.callWith heval function rfl operands e
  · exact hR.fail rfl

/-- One level of evaluation. -/
theorem evaluateWith (x : Value) (e : FrameId) :
    R Value (LexicalLisp.evaluateWith eval x e) (LexicalLisp.evaluateWith eval' x e) := by
  unfold LexicalLisp.evaluateWith
  split
  · exact hR.forms.lookup e _
  · exact hR.succeed _
  · exact hR.succeed _
  · exact hR.succeed _
  · exact hR.fail rfl
  · exact hR.evaluateList heval _ _ e
  · exact hR.fail rfl

omit heval in
/-- A relation that giving up has with itself as well is one that evaluation has with itself. -/
theorem evaluate (htooDeep : R Value tooDeep tooDeep) (limit : Nat) (x : Value) (e : FrameId) :
    R Value (LexicalLisp.evaluate limit x e) (LexicalLisp.evaluate limit x e) := by
  induction limit generalizing x e with
  | zero => exact htooDeep
  | succ limit ih => exact hR.evaluateWith ih x e

end Eval.Compatible

/-- Raising certain errors only is a matter of the single actions. -/
theorem raises_congruence (raised : Error → Bool) :
    Eval.Congruence raised fun _ action _ => action.Raises (raised · = true) where
  succeed := .succeed
  fail hraised := .fail hraised
  getStore _ _ h := nomatch h
  freshTag _ _ h := nomatch h
  emit {event} _ := .emit event
  put _ _ _ _ _ h := nomatch h
  newFrame _ _ _ h := nomatch h
  bind haction hnext := haction.bind hnext

/-- Evaluation raises errors of evaluation only. -/
theorem evaluate_raises {limit : Nat} {x : Value} {e : FrameId} {s : State} {d : Error}
    (h : (evaluate limit x e s).1 = .error d) : d.arisesInEvaluation = true :=
  (raises_congruence Error.arisesInEvaluation).compatible.evaluate nofun limit x e s d h

end LexicalLisp
