import LexicalLisp.Proofs.Eval.CallFrame
import LexicalLisp.Proofs.Eval.Shape
import LexicalLisp.Proofs.Session.Roots
import LexicalLisp.Proofs.Value.Equivalence
import LexicalLisp.Proofs.Value.ReadBack

/-!
# Operators as values

A root binds four reserved names to closures, so that operators can be passed around. The body of
such a closure starts with the very name it is bound to, and uses two names that anyone may bind. It
works because a reserved name at the head of a list is not looked up, and because the two names are
parameters and found in the frame of the call. What has become of the root, or of any other frame,
is of no importance.

Applied to two values, the closure does what the form does with these values quoted. An operator
form whose operands have their values already comes to something that depends on the values, and on
the next unused tag if the result is not a number; on the way it calls nothing and binds nothing.
-/

namespace LexicalLisp

/-- Each operand has its value, and evaluating it leaves the state as it is. -/
def Settled (eval : Evaluator) (e : FrameId) (s : State) : List Value → List Value → Prop :=
  List.Forall₂ fun x v => eval x e s = (.ok v, s)

section

variable {eval : Evaluator} {e : FrameId} {s : State} {operands values : List Value}

/-- Operands that have their values are evaluated to these. -/
theorem Settled.evaluateEach (h : Settled eval e s operands values) :
    evaluateEach eval e operands s = (.ok values, s) := by
  induction h with
  | nil => rfl
  | cons hfirst _ ih => exact (Eval.bind_of_ok hfirst _).trans (Eval.bind_of_ok ih _)

/-- The numbers that values hold, or an error because of the first one that holds none. -/
def numbersIn (form : Form) : List Value → Except Error (List Number)
  | [] => .ok []
  | .number n :: rest => (numbersIn form rest).map (n :: ·)
  | value :: _ => .error (.operandNotNumber form value)

/-- Operands that have their values are evaluated to the numbers in them. -/
theorem Settled.evaluateNumbers (h : Settled eval e s operands values) (form : Form) :
    evaluateNumbers eval form e operands s = Eval.ofExcept (numbersIn form values) s := by
  induction h with
  | nil => rfl
  | @cons x v xs vs hfirst _ ih =>
    refine (Eval.bind_of_ok hfirst _).trans ?_
    cases v with
    | number n =>
      rw [numbersIn]
      cases hrest : numbersIn form vs with
      | ok ns =>
        rw [hrest] at ih
        exact Eval.bind_of_ok ih _
      | error d =>
        rw [hrest] at ih
        exact Eval.bind_of_error ih _
    | _ => rfl

/-- The state after one tag is used up and an event is recorded. -/
def State.computed (s : State) (event : Event) : State :=
  ⟨{ s.store with nextTag := s.store.nextTag + 1 }, s.log.push event⟩

/-- An arithmetic form computes with the numbers in its operands, or fails because of the first
operand without one. -/
theorem Settled.runArithmetic (h : Settled eval e s operands values) (form : Form)
    (combine : List Float → Float) :
    runArithmetic eval form combine operands e s =
      match numbersIn form values with
      | .ok ns => (.ok (.number (.ofFloat s.store.nextTag (combine (ns.map Number.toFloat)))),
          s.computed (.operandsKnown form (ns.map .number)))
      | .error d => (.error d, s) := by
  have hnumbers := h.evaluateNumbers form
  cases hvalues : numbersIn form values with
  | ok ns =>
    rw [hvalues] at hnumbers
    exact Eval.bind_of_ok hnumbers _
  | error d =>
    rw [hvalues] at hnumbers
    exact Eval.bind_of_error hnumbers _

end

/-- What an operator form comes to: an outcome that hangs on the next tag alone, with no closure
entered and no frame touched. -/
structure Form.Computes (form : Form) (values : List Value) (outcome : Nat → Outcome Value) :
    Prop where
  ends : ∀ tag, outcome tag ≠ .tooDeep
  run_eq : ∀ {eval e s operands}, Settled eval e s operands values →
    ∃ t, form.run eval operands e s = (outcome s.store.nextTag, t) ∧
      t.store.frames = s.store.frames ∧ t.invocations = s.invocations

/-- A form that runs as arithmetic computes with numbers, or fails because of the first value that
is none. -/
theorem Form.computes_of_runArithmetic {form : Form} {values : List Value}
    (combine : List Float → Float)
    (h : ∀ {eval e s operands}, Settled eval e s operands values →
      form.run eval operands e = runArithmetic eval form combine operands e) :
    form.Computes values fun tag =>
      match numbersIn form values with
      | .ok ns => .ok (.number (.ofFloat tag (combine (ns.map Number.toFloat))))
      | .error d => .error d where
  ends tag := by split <;> exact nofun
  run_eq hvalues := by
    rw [h hvalues, hvalues.runArithmetic]
    split
    · exact ⟨_, rfl, rfl, (State.invocations_push _ _ _).trans (List.append_nil _)⟩
    · exact ⟨_, rfl, rfl, rfl⟩

/-- Operands with values are as many as these. -/
theorem Settled.ne_nil {eval : Evaluator} {e : FrameId} {s : State} {operands values : List Value}
    (h : Settled eval e s operands values) (hne : values ≠ []) : operands ≠ [] := by
  rintro rfl
  cases h
  exact hne rfl

/-- The form of equality answers whether the values are all equal. -/
theorem Form.computes_equals {values : List Value} (hne : values ≠ []) :
    Form.equals.Computes values fun _ => .ok (.boolean (allSame values)) where
  ends _ := nofun
  run_eq hvalues :=
    ⟨_, runEquals_of_values (hvalues.ne_nil hne) hvalues.evaluateEach, rfl, rfl⟩

/-- The forms that a root binds to closures. -/
def operatorForms : List Form :=
  [.plus, .minus, .times, .equals]

/-- Every operator form comes to something if it has an operand. -/
theorem Form.exists_computes {form : Form} (hform : form ∈ operatorForms) {values : List Value}
    (hne : values ≠ []) : ∃ outcome, form.Computes values outcome := by
  simp only [operatorForms, List.mem_cons, List.not_mem_nil, or_false] at hform
  rcases hform with rfl | rfl | rfl | rfl
  · exact ⟨_, computes_of_runArithmetic sumOf fun _ => rfl⟩
  · refine ⟨_, computes_of_runArithmetic differenceOf fun h => ?_⟩
    have hempty := List.isEmpty_eq_false_iff.mpr (h.ne_nil hne)
    rw [run, hempty]
    rfl
  · exact ⟨_, computes_of_runArithmetic productOf fun _ => rfl⟩
  · exact ⟨_, computes_equals hne⟩

section

variable (form : Form) (tag : Nat) (root : FrameId) (v w : Value) (s : State)

/-- The state in which the body of an operator runs: there is a frame for its parameters, and the
call is recorded. -/
def State.inOperator : State :=
  ⟨s.store.push ⟨some root, [("x", v), ("y", w)]⟩,
    s.log.push (.closureCalled (operatorOf form tag root).toValue [v, w])⟩

/-- An operator that is applied to two values runs its form on its parameters. -/
theorem applyValue_operatorOf (limit : Nat) :
    applyValue (evaluate (limit + 1)) (operatorOf form tag root).toValue [v, w] s =
      form.run (evaluate limit) [.symbol "x", .symbol "y"] s.store.frames.size
        (s.inOperator form tag root v w) := by
  have hframe : callFrame (operatorOf form tag root).toValue [.symbol "x", .symbol "y"] root
        [v, w] s =
      (.ok s.store.frames.size,
        { s with store := s.store.push ⟨some root, [("x", v), ("y", w)]⟩ }) :=
    rfl
  refine (Eval.bind_of_ok hframe _).trans ?_
  exact congrFun (evaluateWith_form (evaluate limit) form _ _) _

/-- The parameters have the arguments as their values while the body runs. -/
theorem settled_parameters (limit : Nat) :
    Settled (evaluate (limit + 1)) s.store.frames.size (s.inOperator form tag root v w)
      [.symbol "x", .symbol "y"] [v, w] := by
  have hx : (s.inOperator form tag root v w).store.get? s.store.frames.size "x" = some v := by
    rw [State.inOperator, Store.get?_push, if_pos rfl]
    rfl
  have hy : (s.inOperator form tag root v w).store.get? s.store.frames.size "y" = some w := by
    rw [State.inOperator, Store.get?_push, if_pos rfl]
    rfl
  exact .cons (Eval.lookup_of_some (Store.lookup?_of_get? hx))
    (.cons (Eval.lookup_of_some (Store.lookup?_of_get? hy)) .nil)

/-- Quoted values have themselves as their values. -/
theorem settled_quoted (limit : Nat) (e : FrameId) (values : List Value) :
    Settled (evaluate (limit + 1)) e s (values.map fun v => .list [.symbol "quote", v]) values := by
  induction values with
  | nil => exact .nil
  | cons v values ih => exact .cons (congrFun (evaluate_quote limit e v) s) ih

end

/-- A new root binds every operator form to a closure of its own. -/
theorem exists_tag_of_mem_operatorForms {form : Form} (h : form ∈ operatorForms) (s : State) :
    ∃ tag, (s.withRoot (standardBindings s.store.frames.size s.store.nextTag)
        (s.store.nextTag + 4)).store.get? s.store.frames.size form.name =
      some (operatorOf form tag s.store.frames.size).toValue := by
  have hget (name : String) : (s.withRoot (standardBindings s.store.frames.size s.store.nextTag)
        (s.store.nextTag + 4)).store.get? s.store.frames.size name =
      (standardBindings s.store.frames.size s.store.nextTag).get? name :=
    (Store.get?_push s.store _ _ name).trans (if_pos rfl)
  simp only [operatorForms, List.mem_cons, List.not_mem_nil, or_false] at h
  rcases h with rfl | rfl | rfl | rfl <;> exact ⟨_, (hget _).trans rfl⟩

/-- Operators that are passed around act like the forms they are named after.

A new root binds each of the four to a closure. In any later state whatsoever, this closure applied
to two values comes to what the form comes to with these values quoted, be it a value or an error;
no other closure is entered, and the frames that exist are as they were. With any other number of
arguments it is refused. The form may be in another frame, and the bound on how deeply evaluations
nest may be another one. -/
theorem operators_act_like_forms (s : State) :
    ∃ root start, standardRoot s = (.ok root, start) ∧
      ∀ form ∈ operatorForms, ∃ c : Closure, start.store.get? root form.name = some c.toValue ∧
        ∀ later : State,
          (∀ (v w : Value) (limit limit' : Nat) (e : FrameId),
            let applied := applyValue (evaluate (limit + 2)) c.toValue [v, w] later
            let handled := form.run (evaluate (limit' + 1))
              [.list [.symbol "quote", v], .list [.symbol "quote", w]] e later
            applied.1 = handled.1 ∧ handled.1 ≠ .tooDeep ∧
            applied.2.invocations = later.invocations ++ [(c.toValue, [v, w])] ∧
            ∀ g < later.store.frames.size,
              applied.2.store.frames[g]? = later.store.frames[g]?) ∧
          ∀ (eval : Evaluator) (arguments : List Value), arguments.length ≠ 2 →
            ∃ d, d.kind = .arity ∧
              applyValue eval c.toValue arguments later = (.error d, later) := by
  refine ⟨_, _, standardRoot_eq s, fun form hform => ?_⟩
  obtain ⟨tag, hget⟩ := exists_tag_of_mem_operatorForms hform s
  refine ⟨operatorOf form tag s.store.frames.size, hget, fun later => ⟨?_, ?_⟩⟩
  · intro v w limit limit' e applied handled
    obtain ⟨outcome, hcomputes⟩ := Form.exists_computes hform (List.cons_ne_nil v [w])
    obtain ⟨t, hbody, hframes, hinvocations⟩ :=
      hcomputes.run_eq (settled_parameters form tag s.store.frames.size v w later limit)
    obtain ⟨t', hhandler, -⟩ := hcomputes.run_eq (settled_quoted later limit' e [v, w])
    have happlied : applied = (outcome later.store.nextTag, t) :=
      (applyValue_operatorOf form tag s.store.frames.size v w later _).trans hbody
    have hhandled : handled = (outcome later.store.nextTag, t') := hhandler
    rw [happlied, hhandled]
    refine ⟨rfl, hcomputes.ends _, hinvocations.trans (State.invocations_push _ _ _),
      fun g hg => ?_⟩
    rw [hframes]
    exact Store.getElem?_frames_push_of_ne (Nat.ne_of_lt hg) _
  · intro eval arguments hlength
    exact ⟨_, rfl, Eval.bind_of_error (callFrame_of_length_ne hlength _ _ later) _⟩

/-- Addition as a value, in a root that binds its name and the names of its parameters to other
things. -/
theorem operators_act_like_forms_rebound :
    let later : State :=
      { store := ⟨#[⟨none, [("+", .list []), ("x", .list []), ("y", .symbol "x")]⟩], 9⟩ }
    ∃ c : Closure, State.newSession.store.get? 0 "+" = some c.toValue ∧
      (applyValue (evaluate 2) c.toValue [.boolean true, .list []] later).1 =
        .error (.operandNotNumber .plus (.boolean true)) ∧
      ∃ d, d.kind = .arity ∧ applyValue (evaluate 2) c.toValue [] later = (.error d, later) := by
  intro later
  obtain ⟨root, start, hroot, h⟩ := operators_act_like_forms {}
  rw [standardRoot_empty] at hroot
  cases hroot
  obtain ⟨c, hget, hlater⟩ := h .plus (by decide)
  have happlied := ((hlater later).1 (.boolean true) (.list []) 0 0 0).1
  exact ⟨c, hget, happlied, (hlater later).2 (evaluate 2) [] (by decide)⟩

end LexicalLisp
