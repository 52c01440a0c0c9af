import LexicalLisp.Session
import LexicalLisp.Proofs.Eval.Congruence
import LexicalLisp.Proofs.Eval.Discipline
import LexicalLisp.Proofs.Value.Trees

/-!
# Calls on sessions

A host works with a session by calls: it has a text evaluated, or its first expression only, or
loads a text for its effects, or hands over an expression. A call may fail or run out of depth
part way; what it did until then stays, and the next call goes on from there.

Expressions that are written in a text are trees and hold no closures, so closures come into a
session from outside only within an expression that is handed over. A discipline that allows what a
call brings in therefore holds through every sequence of such calls. How a request uses its
evaluator is seen by giving it any other one.
-/

namespace LexicalLisp

/-- What a host asks of a session. -/
inductive TextRequest where
  /-- Evaluate every expression of a text and answer the last value. -/
  | evaluate (source : String)
  /-- Evaluate the first expression of a text and answer its value or its error. -/
  | first (source : String)
  /-- Evaluate every expression of a text for its effects. -/
  | load (source : String)

/-- Something to evaluate: a text, or an expression that the host hands over. -/
inductive Task where
  | text (request : TextRequest)
  | expression (expr : Value)

/-- A task, the frame it is addressed to, and the depth it may use. -/
structure Call where
  root : FrameId
  limit : Nat
  task : Task

/-- Serve a request; loading answers no value. -/
def TextRequest.perform (request : TextRequest) (limit : Nat) (root : FrameId) :
    Eval (Option Value) :=
  match request with
  | .evaluate source => do
    let value ← evaluateText limit root source
    return some value
  | .first source => do
    let result ← evaluateFirst limit root source
    match result with
    | .ok value => return some value
    | .error e => Eval.fail e
  | .load source => do
    loadText limit root source
    return none

/-- Evaluate expressions in order with a given evaluator and answer the last value. -/
def sequenceWith (eval : Evaluator) (root : FrameId) (last : Value) : List Value → Eval Value
  | [] => Eval.succeed last
  | expr :: rest => do
    let value ← eval expr root
    sequenceWith eval root value rest

/-- Serve a request with a given evaluator. -/
def TextRequest.performWith (eval : Evaluator) (root : FrameId) :
    TextRequest → Eval (Option Value)
  | .evaluate source =>
    match readAll source with
    | .error fault => Eval.fail (.unreadable fault)
    | .ok [] => Eval.fail (.unreadable .unexpectedEnd)
    | .ok (expr :: rest) => do
      let value ← sequenceWith eval root (.list []) (expr :: rest)
      return some value
  | .first source =>
    match readFirst source with
    | .error fault => do
      Eval.emit (.sourceFailed (.unreadable fault))
      Eval.fail (.unreadable fault)
    | .ok expr => do
      Eval.emit (.sourceRead source)
      let result ← Eval.attempt (eval expr root)
      match result with
      | .ok value => return some value
      | .error d =>
        Eval.emit (.sourceFailed d)
        Eval.fail d
  | .load source =>
    match readAll source with
    | .error fault => Eval.fail (.unreadable fault)
    | .ok exprs => do
      let _ ← sequenceWith eval root (.list []) exprs
      return none

/-- Evaluating in order is doing so with the evaluator of this limit. -/
theorem sequenceWith_evaluate (limit : Nat) (root : FrameId) (last : Value) (exprs : List Value) :
    sequenceWith (evaluate limit) root last exprs = evaluateSequence limit root last exprs := by
  induction exprs generalizing last with
  | nil => rfl
  | cons expr rest ih =>
    change (evaluate limit expr root >>= fun value =>
      sequenceWith (evaluate limit) root value rest) = _
    simp only [ih]
    rfl

/-- Serving a request is serving it with the evaluator of this limit. -/
theorem TextRequest.performWith_evaluate (request : TextRequest) (limit : Nat) (root : FrameId) :
    request.performWith (LexicalLisp.evaluate limit) root = request.perform limit root := by
  cases request with
  | evaluate source =>
    simp only [performWith, perform, evaluateText, sequenceWith_evaluate]
    cases readAll source with
    | error fault => rfl
    | ok exprs => cases exprs <;> rfl
  | first source =>
    simp only [performWith, perform, evaluateFirst]
    cases readFirst source with
    | error fault => rfl
    | ok expr =>
      simp only [bind_assoc]
      refine bind_congr fun _ => bind_congr fun result => ?_
      cases result <;> rfl
  | load source =>
    simp only [performWith, perform, loadText, sequenceWith_evaluate]
    cases readAll source with
    | error fault => rfl
    | ok exprs => simp only [bind_assoc, pure_bind]

/-- Perform a call. -/
def Call.perform (call : Call) : Eval (Option Value) :=
  match call.task with
  | .text request => request.perform call.limit call.root
  | .expression expr => do
    let value ← evaluate call.limit expr call.root
    return some value

/-- The closures that a call brings in from outside. -/
def Call.closures (call : Call) : List Closure :=
  match call.task with
  | .text _ => []
  | .expression expr => expr.closures

/-- What a call may have evaluated first is written in a text, and holds no closures, or is the
expression that it hands over. -/
theorem Call.mem_closures {call : Call} {x : Value}
    (hx : x.IsWritten ∨ call.task = .expression x) {c : Closure} (hc : c ∈ x.closures) :
    c ∈ call.closures := by
  rcases hx with hwritten | hhanded
  · rw [Value.closures_of_isTree x hwritten.isTree] at hc
    cases hc
  · rwa [Call.closures, hhanded]

section

variable {P : Error → Prop}

/-- Evaluating in order raises what the evaluator raises. -/
theorem sequenceWith_raises {eval : Evaluator} {root : FrameId}
    (heval : ∀ x, (eval x root).Raises P) (last : Value) (exprs : List Value) :
    (sequenceWith eval root last exprs).Raises P := by
  induction exprs generalizing last with
  | nil => exact .succeed last
  | cons x rest ih => exact .bind (heval x) fun value => ih value

/-- A request raises what the evaluator raises, or a fault of reading. -/
theorem TextRequest.performWith_raises {eval : Evaluator} {root : FrameId}
    (hread : ∀ fault, P (.unreadable fault)) (heval : ∀ x, (eval x root).Raises P)
    (request : TextRequest) : (request.performWith eval root).Raises P := by
  have hfailed {d : Error} (hd : P d) :
      (do Eval.emit (.sourceFailed d); Eval.fail d : Eval (Option Value)).Raises P :=
    .bind (.emit _) fun _ => .fail hd
  cases request with
  | evaluate source =>
    simp only [performWith]
    split
    · exact .fail (hread _)
    · exact .fail (hread _)
    · exact .bind (sequenceWith_raises heval _ _) fun value => .succeed (some value)
  | first source =>
    simp only [performWith]
    split
    · exact hfailed (hread _)
    · refine .bind (.emit _) fun _ => ?_
      exact .attempt_bind (heval _) (fun value => .succeed (some value)) fun _ hd => hfailed hd
  | load source =>
    simp only [performWith]
    split
    · exact .fail (hread _)
    · exact .bind (sequenceWith_raises heval _ _) fun _ => .succeed none

/-- A call raises what evaluation raises, or a fault of reading. -/
theorem Call.perform_raises (hread : ∀ fault, P (.unreadable fault))
    (heval : ∀ limit x e, (evaluate limit x e).Raises P) (call : Call) :
    call.perform.Raises P := by
  unfold Call.perform
  split
  · rename_i request _
    rw [← request.performWith_evaluate]
    exact request.performWith_raises hread fun x => heval call.limit x call.root
  · exact .bind (heval call.limit _ call.root) fun value => .succeed (some value)

end

/-- Perform calls one after another, whether or not they succeed. -/
def performEach : List Call → State → List (Outcome (Option Value)) × State
  | [], s => ([], s)
  | call :: rest, s =>
    let (outcome, t) := call.perform s
    let (outcomes, u) := performEach rest t
    (outcome :: outcomes, u)

/-- After some calls come the others. -/
theorem performEach_append (first second : List Call) (s : State) :
    performEach (first ++ second) s =
      ((performEach first s).1 ++ (performEach second (performEach first s).2).1,
        (performEach second (performEach first s).2).2) := by
  induction first generalizing s with
  | nil => rfl
  | cons call rest ih => simp [performEach, ih]

namespace Discipline

variable {D : Discipline} {w : D.World} {α β : Type}

/-- What is written in a text and the expression that the call hands over may be evaluated in its
frame, from this world on. -/
def Admits (D : Discipline) (w : D.World) (call : Call) : Prop :=
  ∀ w', w ≤ w' → ∀ x : Value, x.IsWritten ∨ call.task = .expression x → D.code w' call.root x

/-- A call goes on being admitted. -/
theorem Admits.mono {call : Call} (h : D.Admits w call) {w' : D.World} (hle : w ≤ w') :
    D.Admits w' call :=
  fun w'' hle' => h w'' (le_trans hle hle')

/-- What is written in a text may be evaluated in this frame, from this world on. -/
def AdmitsWritten (D : Discipline) (w : D.World) (root : FrameId) : Prop :=
  ∀ w', w ≤ w' → ∀ x : Value, x.IsWritten → D.code w' root x

/-- What is written goes on being admitted. -/
theorem AdmitsWritten.mono {root : FrameId} (h : D.AdmitsWritten w root) {w' : D.World}
    (hle : w ≤ w') : D.AdmitsWritten w' root :=
  fun w'' hle' => h w'' (le_trans hle hle')

/-- What is written may be evaluated in the frame of an admitted call. -/
theorem Admits.written {call : Call} (h : D.Admits w call) : D.AdmitsWritten w call.root :=
  fun w' hle x hx => h w' hle x (.inl hx)

namespace Lawful

variable (hD : D.Lawful) {call : Call}

include hD

section

variable {eval eval' : Evaluator} {root : FrameId}
  (heval : ∀ {w : D.World} {e : FrameId} {x : Value}, D.code w e x →
    D.Agree w D.value (eval x e) (eval' x e))

include heval

omit hD in
/-- Evaluating written expressions in order. -/
theorem sequenceWith_agree (hroot : D.AdmitsWritten w root) {last : Value} {exprs : List Value}
    (hwritten : ∀ x ∈ exprs, x.IsWritten) (hlast : exprs = [] → D.value w last) :
    D.Agree w D.value (sequenceWith eval root last exprs) (sequenceWith eval' root last exprs) := by
  induction exprs generalizing w last with
  | nil => exact .succeed (hlast rfl)
  | cons x rest ih =>
    obtain ⟨hx, hrest⟩ := List.forall_mem_cons.mp hwritten
    refine .bind (heval (hroot w (le_refl w) x hx)) fun w' hle value hvalue => ?_
    exact ih (hroot.mono hle) hrest fun _ => hvalue

/-- Serving a request with evaluators that agree on what may be evaluated. -/
theorem performWith_agree (hroot : D.AdmitsWritten w root) (request : TextRequest) :
    D.Agree w (fun w' answer => ∀ v, answer = some v → D.value w' v)
      (request.performWith eval root) (request.performWith eval' root) := by
  have hfailed {w' : D.World} (d : Error) :
      D.Agree w' (fun w'' answer => ∀ v, answer = some v → D.value w'' v)
        (do Eval.emit (.sourceFailed d); Eval.fail d)
        (do Eval.emit (.sourceFailed d); Eval.fail d) :=
    .bind (hD.emit_agree _) fun _ _ _ _ => .fail d
  cases request with
  | evaluate source =>
    simp only [TextRequest.performWith]
    split
    · exact .fail _
    · exact .fail _
    · rename_i x rest hread
      refine .bind (sequenceWith_agree heval hroot (isWritten_of_readAll hread) nofun)
        fun w' hle value hvalue => ?_
      exact .succeed fun v h => Option.some.inj h ▸ hvalue
  | first source =>
    simp only [TextRequest.performWith]
    split
    · exact hfailed _
    · rename_i x hread
      refine .bind (hD.emit_agree _) fun w₁ hle₁ _ _ => ?_
      have hx := hroot w₁ hle₁ x (isWritten_of_readFirst hread)
      refine .bind (heval hx).attempt fun w₂ _ result hresult => ?_
      cases result with
      | ok value => exact .succeed fun v h => Option.some.inj h ▸ hresult value rfl
      | error d => exact hfailed d
  | load source =>
    simp only [TextRequest.performWith]
    split
    · exact .fail _
    · rename_i exprs hread
      match exprs, isWritten_of_readAll hread with
      | [], _ => exact .succeed nofun
      | x :: rest, hwritten =>
        exact .bind (sequenceWith_agree heval hroot hwritten nofun) fun _ _ _ _ => .succeed nofun

end

/-- Serving a request where what is written is admitted. -/
theorem performText {root : FrameId} (hroot : D.AdmitsWritten w root) (limit : Nat)
    (request : TextRequest) :
    D.Answers w (fun w' answer => ∀ v, answer = some v → D.value w' v)
      (request.perform limit root) := by
  rw [← request.performWith_evaluate]
  exact hD.performWith_agree (hD.evaluate limit) hroot request

/-- Performing a call that is admitted. -/
theorem perform (hcall : D.Admits w call) :
    D.Answers w (fun w' answer => ∀ v, answer = some v → D.value w' v) call.perform := by
  match call, hcall with
  | ⟨root, limit, .text request⟩, hcall => exact hD.performText hcall.written limit request
  | ⟨root, limit, .expression x⟩, hcall =>
    have hx := hD.evaluate limit (hcall w (le_refl w) x (.inr rfl))
    exact Agree.bind hx fun w' _ value hvalue =>
      .succeed fun v h => Option.some.inj h ▸ hvalue

/-- Calls that answer what is allowed stay within the discipline, and have the same outcomes on both
sides. -/
theorem performEach_of_answers {calls : List Call} (hcalls : ∀ call ∈ calls, ∀ w', w ≤ w' →
      D.Answers w' (fun w'' answer => ∀ v, answer = some v → D.value w'' v) call.perform)
    {s s' : State} (hs : D.states w s s') :
    ∃ w', w ≤ w' ∧ D.states w' (LexicalLisp.performEach calls s).2
        (LexicalLisp.performEach calls s').2 ∧
      (LexicalLisp.performEach calls s).1 = (LexicalLisp.performEach calls s').1 ∧
      ∀ v, .ok (some v) ∈ (LexicalLisp.performEach calls s).1 → D.value w' v := by
  induction calls generalizing w s s' with
  | nil => exact ⟨w, le_refl w, hs, rfl, nofun⟩
  | cons call rest ih =>
    obtain ⟨hcall, hothers⟩ := List.forall_mem_cons.mp hcalls
    obtain ⟨w₁, hle₁, hs₁, hsame₁, hvalue₁⟩ := (hcall w (le_refl w)).outcome hs
    obtain ⟨w₂, hle₂, hs₂, hsame₂, hvalue₂⟩ :=
      ih (fun c hc w' hle => hothers c hc w' (le_trans hle₁ hle)) hs₁
    refine ⟨w₂, le_trans hle₁ hle₂, hs₂, congrArg₂ _ hsame₁ hsame₂, fun v hv => ?_⟩
    rcases List.mem_cons.mp hv with hv | hv
    · exact hD.value_mono hle₂ (hvalue₁ _ hv.symm v rfl)
    · exact hvalue₂ v hv

/-- Calls that are admitted stay within the discipline, and have the same outcomes on both
sides. -/
theorem performEach {calls : List Call} (hcalls : ∀ call ∈ calls, D.Admits w call)
    {s s' : State} (hs : D.states w s s') :
    ∃ w', w ≤ w' ∧ D.states w' (LexicalLisp.performEach calls s).2
        (LexicalLisp.performEach calls s').2 ∧
      (LexicalLisp.performEach calls s).1 = (LexicalLisp.performEach calls s').1 ∧
      ∀ v, .ok (some v) ∈ (LexicalLisp.performEach calls s).1 → D.value w' v :=
  hD.performEach_of_answers (fun call hcall _ hle => hD.perform ((hcalls call hcall).mono hle)) hs

end Lawful

end Discipline

end LexicalLisp
