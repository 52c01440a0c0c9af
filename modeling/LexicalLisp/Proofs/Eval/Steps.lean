import LexicalLisp.Proofs.Eval.Congruence
import LexicalLisp.Session
import Mathlib.Logic.Relation

/-!
# Evaluation in elementary steps

Whatever an evaluation does to the state it does in steps of four kinds: a name is bound in a
frame, a frame is added, a tag is used up, or an event of low severity is recorded. No step
removes a frame or an event, and none reports an error to a user. An evaluation that fails or
runs out of depth half-way has still made only such steps.

The errors of an evaluation concern names, shapes and values. Reading is over before it starts, so
none of them is about text that cannot be read.
-/

namespace LexicalLisp

/-- What one elementary action of an evaluation does to the state. -/
inductive State.Step : State → State → Prop where
  | bound (s : State) (e : FrameId) (name : String) (value : Value) :
      Step s { s with store := s.store.put e name value }
  | entered (s : State) (frame : Frame) : Step s { s with store := s.store.push frame }
  | tagged (s : State) :
      Step s { s with store := { s.store with nextTag := s.store.nextTag + 1 } }
  | recorded (s : State) (event : Event) (quiet : event.severity = .debug) :
      Step s { s with log := s.log.push event }

/-- Some number of elementary actions, possibly none. -/
abbrev State.Steps : State → State → Prop :=
  Relation.ReflTransGen State.Step

/-- The closure that an event says is entered, with its arguments. -/
def Event.invocation? : Event → Option (Value × List Value)
  | .closureCalled closure arguments => some (closure, arguments)
  | _ => none

/-- The closures that were entered so far, each with its arguments. -/
def State.invocations (s : State) : List (Value × List Value) :=
  s.log.toList.filterMap Event.invocation?

/-- An event that is recorded adds the call it tells of, if it tells of one. -/
theorem State.invocations_push (store : Store) (log : Array Event) (event : Event) :
    State.invocations ⟨store, log.push event⟩ =
      State.invocations ⟨store, log⟩ ++ event.invocation?.toList := by
  simp only [invocations, Array.toList_push, List.filterMap_append]
  cases h : event.invocation? <;> simp [h]

namespace Eval

/-- After a success the next action goes on from the value and the state it left. -/
theorem bind_of_ok {α β : Type} {action : Eval α} {s t : State} {a : α}
    (h : action s = (.ok a, t)) (next : α → Eval β) : (action >>= next) s = next a t := by
  change andThen action next s = _
  unfold andThen
  rw [h]

/-- After a failure nothing goes on. -/
theorem bind_of_error {α β : Type} {action : Eval α} {s t : State} {e : Error}
    (h : action s = (.error e, t)) (next : α → Eval β) : (action >>= next) s = (.error e, t) := by
  change andThen action next s = _
  unfold andThen
  rw [h]

/-- After running out of depth nothing goes on. -/
theorem bind_of_tooDeep {α β : Type} {action : Eval α} {s t : State}
    (h : action s = (.tooDeep, t)) (next : α → Eval β) : (action >>= next) s = (.tooDeep, t) := by
  change andThen action next s = _
  unfold andThen
  rw [h]

/-- Two actions succeed together exactly when the first succeeds and the second does after it. -/
theorem bind_eq_ok_iff {α β : Type} {action : Eval α} {next : α → Eval β} {s u : State} {b : β} :
    (action >>= next) s = (.ok b, u) ↔
      ∃ a t, action s = (.ok a, t) ∧ next a t = (.ok b, u) := by
  constructor
  · intro h
    change andThen action next s = _ at h
    unfold andThen at h
    split at h
    · exact ⟨_, _, ‹_›, h⟩
    · cases h
    · cases h
  · rintro ⟨a, t, hfirst, hsecond⟩
    rw [bind_of_ok hfirst, hsecond]

/-- Two actions give up together exactly when the first gives up, or succeeds and the second gives
up after it. -/
theorem bind_eq_tooDeep_iff {α β : Type} {action : Eval α} {next : α → Eval β} {s u : State} :
    (action >>= next) s = (.tooDeep, u) ↔
      action s = (.tooDeep, u) ∨ ∃ a t, action s = (.ok a, t) ∧ next a t = (.tooDeep, u) := by
  change andThen action next s = _ ↔ _
  unfold andThen
  rcases action s with ⟨a | d | _, t⟩
  · simp [and_assoc]
  · simp
  · simp

/-- An action that moves the state in elementary steps and fails with errors of evaluation. -/
structure Ordinary {α : Type} (action : Eval α) : Prop where
  steps : ∀ s, State.Steps s (action s).2
  kind : ∀ s e, (action s).1 = .error e → e.kind ≠ .unreadable

namespace Ordinary

variable {α β : Type}

/-- Success without effect is ordinary. -/
theorem succeed (a : α) : Ordinary (Eval.succeed a) :=
  ⟨fun _ => .refl, fun _ _ h => nomatch h⟩

/-- Failure with an error of evaluation is ordinary. -/
theorem fail {e : Error} (he : e.kind ≠ .unreadable) : Ordinary (Eval.fail e : Eval α) :=
  ⟨fun _ => .refl, fun _ _ h => Outcome.error.inj h ▸ he⟩

/-- Giving up is ordinary. -/
theorem tooDeep : Ordinary (Eval.tooDeep : Eval α) :=
  ⟨fun _ => .refl, fun _ _ h => nomatch h⟩

/-- Ordinary actions one after the other are ordinary. -/
theorem bind {action : Eval α} {next : α → Eval β} (haction : Ordinary action)
    (hnext : ∀ a, Ordinary (next a)) : Ordinary (action >>= next) := by
  constructor
  · intro s
    have hfirst := haction.steps s
    change State.Steps s (andThen action next s).2
    unfold andThen
    split
    · rename_i a s' h
      rw [h] at hfirst
      exact hfirst.trans ((hnext a).steps s')
    · rename_i h
      rwa [h] at hfirst
    · rename_i h
      rwa [h] at hfirst
  · exact Raises.bind haction.kind fun a => (hnext a).kind

/-- Looking at the frames changes nothing. -/
theorem getStore : Ordinary Eval.getStore :=
  ⟨fun _ => .refl, fun _ _ h => nomatch h⟩

/-- Using up a tag is a step. -/
theorem freshTag : Ordinary Eval.freshTag :=
  ⟨fun s => .single (.tagged s), fun _ _ h => nomatch h⟩

/-- Recording an event of low severity is a step. -/
theorem emit {event : Event} (quiet : event.severity = .debug) : Ordinary (Eval.emit event) :=
  ⟨fun s => .single (.recorded s event quiet), fun _ _ h => nomatch h⟩

/-- Binding a name in a frame is a step. -/
theorem put (e : FrameId) (name : String) (value : Value) :
    Ordinary (Eval.modifyStore (·.put e name value)) :=
  ⟨fun s => .single (.bound s e name value), fun _ _ h => nomatch h⟩

/-- Adding a frame is a step. -/
theorem newFrame (frame : Frame) : Ordinary (Eval.newFrame frame) :=
  ⟨fun s => .single (.entered s frame), fun _ _ h => nomatch h⟩

end Ordinary

/-- Errors that rules of evaluation raise are not about reading. -/
theorem kind_of_arisesInEvaluation {d : Error} (h : d.arisesInEvaluation = true) :
    d.kind ≠ .unreadable := by
  intro hkind
  cases d <;> simp [Error.kind, Error.arisesInEvaluation] at hkind h

/-- Being ordinary is a matter of the single actions. -/
theorem ordinary_congruence :
    Congruence Error.arisesInEvaluation fun _ action _ => Ordinary action where
  succeed a := .succeed a
  fail harises := .fail (kind_of_arisesInEvaluation harises)
  getStore := .getStore
  freshTag := .freshTag
  emit quiet := .emit quiet
  put e name value := .put e name value
  newFrame frame := .newFrame frame
  bind haction hnext := .bind haction hnext

end Eval

/-- Evaluation at any depth makes elementary steps only, and no error of it is about reading. -/
theorem evaluate_ordinary (limit : Nat) (expr : Value) (e : FrameId) :
    Eval.Ordinary (evaluate limit expr e) :=
  Eval.ordinary_congruence.compatible.evaluate .tooDeep limit expr e

/-- So does evaluating expressions in order. -/
theorem evaluateSequence_ordinary (limit : Nat) (root : FrameId) (last : Value)
    (exprs : List Value) : Eval.Ordinary (evaluateSequence limit root last exprs) := by
  induction exprs generalizing last with
  | nil => exact .succeed last
  | cons expr rest ih => exact .bind (evaluate_ordinary limit expr root) fun value => ih value

end LexicalLisp
