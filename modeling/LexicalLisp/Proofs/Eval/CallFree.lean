import LexicalLisp.Proofs.Eval.Shape

/-!
# Expressions that call nothing

The reserved forms evaluate their operands in the frame they run in and apply nothing. An expression
built from names, literals and these forms, with anything at all behind `quote` and `lambda`, is
therefore evaluated along the expression alone: however its names are bound, and be it to closures
that never return, no closure is entered and no frame is made, and a depth of one more than the
nesting of the expression is enough.

That nothing is called is not read off the state alone. Evaluation is also given with an arbitrary
action in place of every call, and the expressions above come to the same whatever the action is.
-/

namespace LexicalLisp

/-- A name or a literal, a form that leaves its operands as they are, or another form with operands
that call nothing. -/
inductive CallFree : Value → Prop where
  | symbol (name : String) : CallFree (.symbol name)
  | number (n : Number) : CallFree (.number n)
  | boolean (b : Bool) : CallFree (.boolean b)
  | withheld (form : Form) (withholds : form.withholds = true) (operands : List Value) :
      CallFree (.list (.symbol form.name :: operands))
  | form (form : Form) (evaluates : form.withholds = false) {operands : List Value}
      (each : ∀ x ∈ operands, CallFree x) : CallFree (.list (.symbol form.name :: operands))

mutual

/-- How many lists lie around what is deepest in a value. -/
def Value.nesting : Value → Nat
  | .list items => Value.nestingEach items + 1
  | _ => 0

/-- How many lists lie around what is deepest in any of the items. -/
def Value.nestingEach : List Value → Nat
  | [] => 0
  | v :: rest => max v.nesting (Value.nestingEach rest)

end

/-- No item is nested deeper than the items together. -/
theorem Value.nesting_le_nestingEach {v : Value} {items : List Value} (hv : v ∈ items) :
    v.nesting ≤ Value.nestingEach items := by
  induction items with
  | nil => cases hv
  | cons w rest ih =>
    rw [Value.nestingEach]
    rcases List.mem_cons.mp hv with rfl | hv
    · exact Nat.le_max_left _ _
    · exact Nat.le_trans (ih hv) (Nat.le_max_right _ _)

/-- How closures are called with arguments. -/
abbrev Caller := Closure → List Value → Eval Value

/-- Enter the closure and evaluate its body. -/
def enter (eval : Evaluator) : Caller := fun c arguments =>
  callClosure eval c.tag c.formals c.body c.frame arguments

section

variable (invoke : Caller) (eval : Evaluator)

/-- Evaluate operands and call a function with them, or fail if it is no function. -/
def invokeWith (function : Value) (otherwise : Error) (operands : List Value) (e : FrameId) :
    Eval Value :=
  match function with
  | .closure tag formals body frame => do
    let arguments ← evaluateEach eval e operands
    invoke ⟨tag, formals, body, frame⟩ arguments
  | _ => Eval.fail otherwise

/-- Evaluate an expression by the rules, except that calls are made in a given way. -/
def evaluateInvokingWith : Evaluator := fun x e =>
  match x with
  | .list (.symbol name :: operands) =>
    match Form.ofName? name with
    | some form => form.run eval operands e
    | none => do
      let function ← Eval.lookup e (.symbol name)
      invokeWith invoke eval function (.nameNotFunction name) operands e
  | .list (.closure tag formals body frame :: operands) => do
    let arguments ← evaluateEach eval e operands
    invoke ⟨tag, formals, body, frame⟩ arguments
  | .list (.list items :: operands) => do
    let function ← eval (.list items) e
    invokeWith invoke eval function (.resultNotFunction function) operands e
  | _ => evaluateWith eval x e

end

/-- Evaluation with calls made in a given way, which may depend on the depth that is left. -/
def evaluateInvoking (invoke : Nat → Caller) : Nat → Evaluator
  | 0 => fun _ _ => Eval.tooDeep
  | limit + 1 => evaluateInvokingWith (invoke limit) (evaluateInvoking invoke limit)

/-- Where calling is entering, the rules are those of evaluation. -/
theorem evaluateInvokingWith_enter (eval : Evaluator) :
    evaluateInvokingWith (enter eval) eval = evaluateWith eval := by
  have hinvoke (function : Value) (otherwise : Error) (operands : List Value) (e : FrameId) :
      invokeWith (enter eval) eval function otherwise operands e =
        callWith eval function otherwise operands e := by
    cases function <;> rfl
  funext x e
  match x with
  | .symbol _ | .number _ | .boolean _ | .closure .. | .foreign _ | .list [] => rfl
  | .list (.number _ :: _) | .list (.boolean _ :: _) | .list (.foreign _ :: _) => rfl
  | .list (.closure .. :: _) => rfl
  | .list (.list items :: operands) =>
    simp only [evaluateInvokingWith, hinvoke]
    rfl
  | .list (.symbol name :: operands) =>
    simp only [evaluateInvokingWith, hinvoke]
    rfl

/-- Where calling is entering, nothing is different. -/
theorem evaluateInvoking_enter :
    evaluateInvoking (fun limit => enter (evaluate limit)) = evaluate := by
  funext limit
  induction limit with
  | zero => rfl
  | succ limit ih => rw [evaluateInvoking, ih, evaluateInvokingWith_enter, evaluate]

/-- A reserved form is run by its rule, however calls are made. -/
theorem evaluateInvoking_form (invoke : Nat → Caller) (left : Nat) (form : Form)
    (operands : List Value) (e : FrameId) :
    evaluateInvoking invoke (left + 1) (.list (.symbol form.name :: operands)) e =
      form.run (evaluateInvoking invoke left) operands e := by
  rw [evaluateInvoking, evaluateInvokingWith, Form.ofName?_name]

namespace State

/-- The frames are as many as before and lie inside the same frames, and no further closure was
entered. -/
structure SameScopes (s t : State) : Prop where
  size_eq : t.store.frames.size = s.store.frames.size
  outer_eq : ∀ e, t.store.outerOf e = s.store.outerOf e
  invocations_eq : t.invocations = s.invocations

/-- Nothing changed. -/
theorem SameScopes.refl (s : State) : s.SameScopes s :=
  ⟨rfl, fun _ => rfl, rfl⟩

/-- One change after another. -/
theorem SameScopes.trans {s t u : State} (h : s.SameScopes t) (h' : t.SameScopes u) :
    s.SameScopes u where
  size_eq := h'.size_eq.trans h.size_eq
  outer_eq e := (h'.outer_eq e).trans (h.outer_eq e)
  invocations_eq := h'.invocations_eq.trans h.invocations_eq

/-- Recording an event that is no call. -/
theorem sameScopes_emit (s : State) {event : Event} (h : event.invocation? = none) :
    s.SameScopes { s with log := s.log.push event } where
  size_eq := rfl
  outer_eq _ := rfl
  invocations_eq := by
    rw [invocations_push, h]
    exact List.append_nil _

/-- Binding a name. -/
theorem sameScopes_put (s : State) (e : FrameId) (name : String) (value : Value) :
    s.SameScopes { s with store := s.store.put e name value } where
  size_eq := Store.size_put s.store e name value
  outer_eq g := Store.outerOf_put s.store e g name value
  invocations_eq := rfl

end State

namespace Eval

/-- The computation comes to a value or an error, without entering a closure or adding a frame. -/
def Settles {α : Type} (action : Eval α) : Prop :=
  ∀ s, (action s).1 ≠ .tooDeep ∧ s.SameScopes (action s).2

/-- Computations one after the other. -/
theorem Settles.bind {α β : Type} {action : Eval α} {next : α → Eval β} (haction : action.Settles)
    (hnext : ∀ a, (next a).Settles) : (action >>= next).Settles := by
  intro s
  obtain ⟨hends, hscopes⟩ := haction s
  rcases hresult : action s with ⟨a | d | _, t⟩
  · rw [hresult] at hscopes
    rw [bind_of_ok hresult]
    exact ⟨(hnext a t).1, hscopes.trans (hnext a t).2⟩
  · rw [hresult] at hscopes
    rw [bind_of_error hresult]
    exact ⟨nofun, hscopes⟩
  · rw [hresult] at hends
    exact absurd rfl hends

/-- Being the same and settling is a matter of the single actions, as far as forms go. -/
theorem settles_forms (raised : Error → Bool) :
    FormCongruence raised fun _ a b => a = b ∧ a.Settles where
  succeed _ := ⟨rfl, fun s => ⟨nofun, .refl s⟩⟩
  fail _ := ⟨rfl, fun s => ⟨nofun, .refl s⟩⟩
  getStore := ⟨rfl, fun s => ⟨nofun, .refl s⟩⟩
  freshTag := ⟨rfl, fun _ => ⟨nofun, rfl, fun _ => rfl, rfl⟩⟩
  closureMade _ _ := ⟨rfl, fun s => ⟨nofun, s.sameScopes_emit rfl⟩⟩
  operandsKnown _ _ := ⟨rfl, fun s => ⟨nofun, s.sameScopes_emit rfl⟩⟩
  put e name value := ⟨rfl, fun s => ⟨nofun, s.sameScopes_put e name value⟩⟩
  bind haction hnext :=
    ⟨by rw [haction.1, funext fun x => (hnext x).1], haction.2.bind fun x => (hnext x).2⟩

end Eval

/-- An expression that calls nothing settles where the evaluations within it may nest as deep as its
lists do, and how calls are made is no matter. -/
theorem CallFree.settles {x : Value} (hx : CallFree x) {left : Nat} (hleft : x.nesting ≤ left)
    (invoke other : Nat → Caller) (e : FrameId) :
    evaluateInvoking invoke (left + 1) x e = evaluateInvoking other (left + 1) x e ∧
      (evaluateInvoking invoke (left + 1) x e).Settles := by
  have hforms := Eval.settles_forms Error.raisedByRules
  -- Operands lie one list deeper than the form, and are evaluated with one less of the depth.
  induction hx generalizing left with
  | symbol name => exact hforms.lookup e (.symbol name)
  | number n => exact hforms.succeed (Value.number n)
  | boolean b => exact hforms.succeed (Value.boolean b)
  | withheld form hwithholds operands =>
    rw [evaluateInvoking_form, evaluateInvoking_form]
    refine hforms.run form (fun h => ?_) (fun _ _ h => ?_)
    · rw [hwithholds] at h
      cases h
    · rw [h] at hwithholds
      cases hwithholds
  | @form form _ operands _ ih =>
    obtain ⟨fewer, rfl⟩ := Nat.exists_eq_succ_of_ne_zero (Nat.ne_zero_of_lt hleft)
    rw [evaluateInvoking_form, evaluateInvoking_form]
    have hoperands (x : Value) (hx : x ∈ operands) :
        evaluateInvoking invoke (fewer + 1) x e = evaluateInvoking other (fewer + 1) x e ∧
          (evaluateInvoking invoke (fewer + 1) x e).Settles := by
      have hlist : Value.nestingEach (.symbol form.name :: operands) ≤ fewer :=
        Nat.le_of_succ_le_succ hleft
      exact ih x hx (Nat.le_trans
        (Value.nesting_le_nestingEach (List.mem_cons_of_mem _ hx)) hlist)
    refine hforms.run form (fun _ => hoperands) ?_
    rintro name x - rfl
    exact (Eval.settles_forms Error.arisesInEvaluation).assign (hoperands x (by simp)) name

/-- An expression that calls nothing is evaluated in any state and any frame, whatever its names are
bound to.

A limit that is one more than its nesting, or larger, is not used up: it comes to a value or to an
error. No frame is added or put inside another one, and no closure is entered. Calls play no part in
it: with anything else done in their place the outcome and the state are the same. -/
theorem call_free_evaluation_settles {x : Value} (hx : CallFree x) {limit : Nat}
    (hlimit : x.nesting + 1 ≤ limit) (s : State) (e : FrameId) :
    ((∃ v, (evaluate limit x e s).1 = .ok v) ∨ ∃ d, (evaluate limit x e s).1 = .error d) ∧
      s.SameScopes (evaluate limit x e s).2 ∧
      ∀ invoke : Nat → Caller, evaluateInvoking invoke limit x e s = evaluate limit x e s := by
  obtain ⟨left, rfl⟩ := Nat.exists_eq_succ_of_ne_zero (Nat.ne_zero_of_lt hlimit)
  have hleft := Nat.le_of_succ_le_succ hlimit
  have hsettles (other : Nat → Caller) :=
    hx.settles hleft (fun limit => enter (evaluate limit)) other e
  simp only [evaluateInvoking_enter] at hsettles
  obtain ⟨hends, hscopes⟩ := (hsettles fun _ _ _ => Eval.tooDeep).2 s
  refine ⟨?_, hscopes, fun invoke => congrFun (hsettles invoke).1.symm s⟩
  cases houtcome : (evaluate (left + 1) x e s).1 with
  | ok v => exact .inl ⟨v, rfl⟩
  | error d => exact .inr ⟨d, rfl⟩
  | tooDeep => exact absurd houtcome hends

/-- Where a name and two reserved names are bound to a closure that calls itself for ever, an
expression that uses all three settles, and a call does not. -/
theorem call_free_evaluation_settles_rebound :
    let loop := Value.closure 0 [] (.list [.symbol "f"]) 0
    let s : State := { store := ⟨#[⟨none, [("f", loop), ("=", loop), ("if", loop)]⟩], 1⟩ }
    let call := Value.list [.symbol "f"]
    let test := Value.list [.symbol "=", .symbol "f", .symbol "f"]
    let x := Value.list [.symbol "if", test, .list [.symbol "quote", call], .symbol "f"]
    CallFree x ∧ x.nesting + 1 ≤ 4 ∧ (evaluate 4 x 0 s).1 = .ok call ∧
      s.SameScopes (evaluate 4 x 0 s).2 ∧
      (∀ invoke : Nat → Caller, evaluateInvoking invoke 4 x 0 s = evaluate 4 x 0 s) ∧
      (evaluate 4 call 0 s).1 = .tooDeep := by
  intro loop s call test x
  have htest : CallFree test :=
    .form .equals rfl (List.forall_mem_cons.mpr ⟨.symbol "f", List.forall_mem_singleton.mpr
      (.symbol "f")⟩)
  have hquoted : CallFree (.list [.symbol "quote", call]) := .withheld .quote rfl [call]
  have hx : CallFree x :=
    .form .choose rfl (List.forall_mem_cons.mpr ⟨htest, List.forall_mem_cons.mpr ⟨hquoted,
      List.forall_mem_singleton.mpr (.symbol "f")⟩⟩)
  have hlimit : x.nesting + 1 ≤ 4 := by decide
  obtain ⟨-, hscopes, hcalls⟩ := call_free_evaluation_settles hx hlimit s 0
  refine ⟨hx, hlimit, ?_, hscopes, hcalls, ?_⟩
  · rfl
  · rfl

end LexicalLisp
