import LexicalLisp.Proofs.Eval.Steps
import LexicalLisp.Proofs.Session.Calls
import LexicalLisp.Proofs.Store.Finding

/-!
# Assignment

An assignment checks that its name is bound, evaluates its expression, and then looks for the name
once more in order to overwrite it. In between, the expression may bind names, call closures and
assign, so the two searches need not see the same frames.

Evaluation only ever adds to a store, so the second search succeeds because the first one did. It
adds names to the frame in which the expression is evaluated and to new frames only, so the two
searches end in different frames only where the second one ends in the frame of the assignment.
-/

namespace LexicalLisp

namespace State

/-- A step extends the store. -/
theorem Step.extends_store {s t : State} (h : Step s t) : s.store.Extends t.store := by
  cases h with
  | bound e name value => exact .put s.store e name value
  | entered frame => exact .push s.store frame
  | tagged => exact ⟨Nat.le_refl _, fun _ _ => rfl, id⟩
  | recorded => exact .refl s.store

/-- Steps extend the store. -/
theorem Steps.extends_store {s t : State} (h : Steps s t) : s.store.Extends t.store := by
  induction h with
  | refl => exact .refl s.store
  | tail _ hstep ih => exact ih.trans hstep.extends_store

end State

section

variable {eval : Evaluator} {e f : FrameId} {name : String} {x : Value} {s t : State}
  (hfound : s.store.find? e name = some f)

include hfound

/-- An assignment whose name is bound evaluates the expression and overwrites the name. -/
theorem runAssign_of_bound : runAssign eval [.symbol name, x] e s =
    (eval x e >>= fun value =>
      Eval.overwrite e (.symbol name) value >>= fun _ => pure value) s := by
  rw [runAssign_symbol, hfound]

/-- Where the name is found again after the expression, it is overwritten there. -/
theorem runAssign_of_ok {v : Value} {g : FrameId} (hvalue : eval x e s = (.ok v, t))
    (hagain : t.store.find? e name = some g) :
    runAssign eval [.symbol name, x] e s = (.ok v, { t with store := t.store.put g name v }) := by
  have hwritten : Eval.overwrite e (.symbol name) v t =
      (.ok (), { t with store := t.store.put g name v }) := by
    rw [Eval.overwrite_symbol, hagain]
  rw [runAssign_of_bound hfound, Eval.bind_of_ok hvalue, Eval.bind_of_ok hwritten]
  rfl

/-- A failure of the expression is one of the assignment. -/
theorem runAssign_of_error {d : Error} (hvalue : eval x e s = (.error d, t)) :
    runAssign eval [.symbol name, x] e s = (.error d, t) := by
  rw [runAssign_of_bound hfound, Eval.bind_of_error hvalue]

/-- An expression that is too deep makes the assignment too deep. -/
theorem runAssign_of_tooDeep (hvalue : eval x e s = (.tooDeep, t)) :
    runAssign eval [.symbol name, x] e s = (.tooDeep, t) := by
  rw [runAssign_of_bound hfound, Eval.bind_of_tooDeep hvalue]

end

/-- Where the expressions within make steps only, overwriting after the check does not fail. -/
theorem assigning_compatible : Eval.Compatible fun _ action _ =>
    action.Ordinary ∧ action.Raises (Error.raisedByRules · = true) where
  toCongruence :=
    (Eval.ordinary_congruence.mono fun _ => Error.arisesInEvaluation_of_raisedByRules).and
      (raises_congruence Error.raisedByRules)
  assign := by
    intro eval eval' heval name x e
    have hordinary := @Eval.Compatible.assign _ Eval.ordinary_congruence.compatible eval eval'
      (fun x e => (heval x e).1) name x e
    refine ⟨hordinary, fun s d h => ?_⟩
    cases hfound : s.store.find? e name with
    | none =>
      rw [runAssign_symbol, hfound] at h
      exact Outcome.error.inj h ▸ rfl
    | some f =>
      rcases hvalue : eval x e s with ⟨v | d' | _, t⟩
      · have hsteps := (heval x e).1.steps s
        rw [hvalue] at hsteps
        have hagain := hsteps.extends_store.isSome_find? (Option.isSome_of_eq_some hfound)
        obtain ⟨g, hg⟩ := Option.isSome_iff_exists.mp hagain
        rw [runAssign_of_ok hfound hvalue hg] at h
        cases h
      · rw [runAssign_of_error hfound hvalue] at h
        exact (heval x e).2 s d (by rw [hvalue]; exact h)
      · rw [runAssign_of_tooDeep hfound hvalue] at h
        cases h

/-- Evaluation does not fail for want of a name to overwrite. -/
theorem evaluate_raisedByRules (limit : Nat) (x : Value) (e : FrameId) :
    (evaluate limit x e).Raises (Error.raisedByRules · = true) :=
  (assigning_compatible.evaluate ⟨.tooDeep, nofun⟩ limit x e).2

/-- Nor does anything else that a session is asked for. -/
theorem Call.perform_ne_overwriteUnbound (call : Call) (s : State) (name : Value) :
    (call.perform s).1 ≠ .error (.overwriteUnbound name) := by
  have hraises : call.perform.Raises (· ≠ .overwriteUnbound name) := by
    refine call.perform_raises ?_ ?_
    · intro fault h
      cases h
    · intro limit x e t d herror heq
      have hrule := evaluate_raisedByRules limit x e t d herror
      rw [heq] at hrule
      cases hrule
  intro h
  exact hraises s _ h rfl

/-- Evaluation from a start, in one of its frames or in newer ones. Names are added to these frames
only. -/
def namingIn (start : Store) (own : FrameId) : Discipline where
  World := Discipline.Still
  states _ s s' := s = s' ∧ start.KeepsNames s.store own
  value _ _ := True
  code _ e _ := e = own ∨ start.frames.size ≤ e

/-- Evaluation adds names to its own frame and to newer ones only. -/
theorem namingIn_lawful (start : Store) (own : FrameId) : (namingIn start own).Lawful where
  value_mono _ _ := trivial
  code_mono _ hx := hx
  number _ _ := trivial
  boolean _ _ := trivial
  emit event := by
    rintro ⟨rfl, hkeeps⟩
    exact ⟨rfl, hkeeps⟩
  tag := by
    rintro _ s s' ⟨rfl, hkeeps⟩
    exact ⟨rfl, rfl, hkeeps.size_le, hkeeps.names_eq⟩
  lookup := by
    rintro _ e name s s' - ⟨rfl, -⟩
    exact ⟨rfl, fun _ => trivial⟩
  closure _ := trivial
  quote _ := trivial
  lambda := by
    rintro _ e fs b s s' - ⟨rfl, hkeeps⟩
    exact ⟨rfl, ⟨⟩, le_refl _, ⟨rfl, hkeeps.size_le, hkeeps.names_eq⟩, trivial⟩
  define := by
    intro _ e name x he
    refine ⟨he, ?_⟩
    rintro _ v s s' - - ⟨rfl, hkeeps⟩
    exact ⟨rfl, hkeeps.put_own he name v⟩
  assign := by
    intro _ e name x he
    refine ⟨he, ?_⟩
    rintro _ s s' - ⟨rfl, hkeeps⟩
    refine ⟨rfl, fun _ hfound => ⟨rfl, ?_⟩⟩
    -- The name is bound where it is found, so overwriting it adds no name.
    have hbinds := List.find?_some hfound
    exact hkeeps.put_again hbinds _
  operands he _ _ _ := he
  head he _ := he
  enter := by
    rintro _ t fs b f us bindings s s' - - - ⟨rfl, hkeeps⟩
    exact ⟨rfl, ⟨⟩, le_refl _, ⟨rfl, hkeeps.push _⟩, .inr hkeeps.size_le⟩

/-- An evaluation adds no names to the frames that there were before, but for its own. -/
theorem evaluate_keepsNames (limit : Nat) (x : Value) (e : FrameId) (s : State) :
    s.store.KeepsNames (evaluate limit x e s).2.store e := by
  have hstart : s.store.KeepsNames s.store e := ⟨Nat.le_refl _, fun _ _ _ => rfl⟩
  obtain ⟨-, -, ⟨-, hkeeps⟩, -, -⟩ :=
    ((namingIn_lawful s.store e).evaluate limit (w := Discipline.Still.mk) (.inl rfl)).outcome
      ⟨rfl, hstart⟩
  exact hkeeps

/-- After the expression of an assignment, its name is found where it was found before, or else in
the frame of the assignment if the expression has bound it there. -/
theorem find?_after_evaluate {e f : FrameId} {name : String} {s : State}
    (hfound : s.store.find? e name = some f) (limit : Nat) (x : Value) :
    (evaluate limit x e s).2.store.find? e name =
      some (if s.store.binds e name = false ∧
        (evaluate limit x e s).2.store.binds e name = true then e else f) :=
  Store.find?_eq_of_keepsNames ((evaluate_ordinary limit x e).steps s).extends_store
    (evaluate_keepsNames limit x e s) hfound

/-- What an assignment form comes to.

If no frame on the chain binds the name, it fails before its expression is evaluated, whatever the
evaluator, and nothing is changed. Otherwise it ends as the expression does. If that has a value,
the name is always found again and exactly one binding is overwritten: in the frame where the name
was found at first, or in the frame of the assignment if only the expression has bound the name
there. So nothing a session is asked to evaluate ever fails for want of a name to overwrite. -/
theorem assignment_overwrites_one_binding (limit : Nat) (name : String) (x : Value) (e : FrameId)
    (s : State) :
    let form := Value.list [.symbol "set!", .symbol name, x]
    ((∀ g ∈ s.store.chain e, s.store.binds g name = false) →
      (Error.assignUnbound name).kind = .unboundSymbol ∧
      evaluate (limit + 1) form e s = (.error (.assignUnbound name), s) ∧
      ∀ eval, evaluateWith eval form e s = (.error (.assignUnbound name), s)) ∧
    (∀ f, s.store.find? e name = some f →
      (∀ v t, evaluate limit x e s = (.ok v, t) →
        let g := if s.store.binds e name = false ∧ t.store.binds e name = true then e else f
        let u := { t with store := t.store.put g name v }
        Eval.overwrite e (.symbol name) v t = (.ok (), u) ∧
          evaluate (limit + 1) form e s = (.ok v, u) ∧ t.store.Overwrites u.store g name v) ∧
      (∀ d t, evaluate limit x e s = (.error d, t) →
        evaluate (limit + 1) form e s = (.error d, t)) ∧
      ∀ t, evaluate limit x e s = (.tooDeep, t) → evaluate (limit + 1) form e s = (.tooDeep, t)) ∧
    ∀ (call : Call) (t : State) (n : Value), (call.perform t).1 ≠ .error (.overwriteUnbound n) := by
  intro form
  refine ⟨fun hunbound => ?_, fun f hfound => ?_, fun call t n h => ?_⟩
  · have hnone : s.store.find? e name = none := by
      rw [Store.find?, List.find?_eq_none]
      intro g hg
      rw [hunbound g hg]
      exact Bool.false_ne_true
    have hfails (eval : Evaluator) :
        evaluateWith eval form e s = (.error (.assignUnbound name), s) := by
      change runAssign eval [.symbol name, x] e s = _
      rw [runAssign_symbol, hnone]
    exact ⟨rfl, hfails (evaluate limit), hfails⟩
  · have hagain := find?_after_evaluate hfound limit x
    refine ⟨fun v t hvalue => ?_, fun d t hvalue => ?_, fun t hvalue => ?_⟩
    · rw [hvalue] at hagain
      have hbinds := List.find?_some hagain
      refine ⟨?_, runAssign_of_ok hfound hvalue hagain, Store.overwrites_put hbinds v⟩
      rw [Eval.overwrite_symbol, hagain]
    · exact runAssign_of_error hfound hvalue
    · exact runAssign_of_tooDeep hfound hvalue
  · exact call.perform_ne_overwriteUnbound t n h

/-- The expression of an assignment in the inner of two frames binds the name there, which was found
in the outer one, and the assignment overwrites the inner binding. A name that neither frame binds
is refused. -/
theorem assignment_overwrites_one_binding_shadowing :
    let x := Value.list [.symbol "if", .list [.symbol "define", .symbol "n", .boolean true],
      .boolean false, .boolean true]
    let s : State := { store := ⟨#[⟨none, [("n", .boolean true)]⟩, ⟨some 0, []⟩], 0⟩ }
    let t : State := { store := ⟨#[⟨none, [("n", .boolean true)]⟩,
      ⟨some 0, [("n", .boolean true)]⟩], 0⟩ }
    let u := { t with store := t.store.put 1 "n" (.boolean false) }
    s.store.find? 1 "n" = some 0 ∧ evaluate 3 x 1 s = (.ok (.boolean false), t) ∧
      evaluate 4 (.list [.symbol "set!", .symbol "n", x]) 1 s = (.ok (.boolean false), u) ∧
      t.store.Overwrites u.store 1 "n" (.boolean false) ∧
      (∀ g ∈ s.store.chain 1, s.store.binds g "m" = false) ∧
      evaluate 4 (.list [.symbol "set!", .symbol "m", x]) 1 s =
        (.error (.assignUnbound "m"), s) := by
  intro x s t u
  have hunbound : ∀ g ∈ s.store.chain 1, s.store.binds g "m" = false := by decide
  have hvalue : evaluate 3 x 1 s = (.ok (.boolean false), t) := rfl
  have hfails := (assignment_overwrites_one_binding 3 "m" x 1 s).1 hunbound
  have hsucceeds := ((assignment_overwrites_one_binding 3 "n" x 1 s).2.1 0 rfl).1 _ t hvalue
  exact ⟨rfl, hvalue, hsucceeds.2.1, hsucceeds.2.2, hunbound, hfails.2.1⟩

end LexicalLisp
