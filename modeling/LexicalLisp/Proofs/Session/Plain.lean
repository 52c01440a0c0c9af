import LexicalLisp.Proofs.Eval.Questions
import LexicalLisp.Proofs.Session.Invariants

/-!
# Sessions driven by text

A session that is driven by text only evaluates trees, and only ever binds and answers plain values:
trees, booleans, and closures whose parameters and body are trees. Code and data are of one type, so
this is a matter of what gets from one to the other. Reading yields trees, quoting makes a part of a
tree a value, and a closure is made of parts of a tree. Nothing turns values into code.

Three rules are therefore for hosts only that hand over expressions or values: the one for a closure
at the head of a list, the one for values from outside, and the refusal to apply what is no closure.
-/

namespace LexicalLisp

namespace State

/-- Every value in the frames is of this sort. -/
def HoldsOnly (sort : Value → Prop) (s : State) : Prop :=
  ∀ e, ∀ binding ∈ s.store.bindingsOf e, sort binding.2

/-- A single change to the state that puts only values of this sort into the frames. -/
inductive Deposit (sort : Value → Prop) : State → State → Prop where
  | bound (s : State) (e : FrameId) (name : String) (value : Value) (deposited : sort value) :
      Deposit sort s { s with store := s.store.put e name value }
  | entered (s : State) (frame : Frame)
      (deposited : ∀ binding ∈ frame.bindings, sort binding.2) :
      Deposit sort s { s with store := s.store.push frame }
  | tagged (s : State) :
      Deposit sort s { s with store := { s.store with nextTag := s.store.nextTag + 1 } }
  | recorded (s : State) (event : Event) : Deposit sort s { s with log := s.log.push event }

/-- Any number of such changes. -/
abbrev Deposits (sort : Value → Prop) : State → State → Prop :=
  Relation.ReflTransGen (Deposit sort)

variable {sort : Value → Prop} {s t : State}

/-- After a deposit, the frames hold values of the sort only if they did before. -/
theorem Deposit.holdsOnly (h : Deposit sort s t) (hs : s.HoldsOnly sort) : t.HoldsOnly sort := by
  intro g binding hmem
  cases h with
  | bound e name value hvalue =>
    simp only [Store.bindingsOf_put] at hmem
    split at hmem
    · rcases Bindings.mem_put hmem with rfl | hold
      · exact hvalue
      · exact hs g binding hold
    · exact hs g binding hmem
  | entered frame hframe =>
    simp only [Store.bindingsOf_push] at hmem
    split at hmem
    · exact hframe binding hmem
    · exact hs g binding hmem
  | tagged => exact hs g binding hmem
  | recorded => exact hs g binding hmem

/-- After any deposits, the frames hold values of the sort only if they did at the start. -/
theorem Deposits.holdsOnly (h : Deposits sort s t) (hs : s.HoldsOnly sort) : t.HoldsOnly sort := by
  induction h with
  | refl => exact hs
  | tail _ hstep ih => exact hstep.holdsOnly ih

/-- A value that is seen from a frame is of the sort. -/
theorem HoldsOnly.lookup? (hs : s.HoldsOnly sort) {e : FrameId} {name : String} {value : Value}
    (h : s.store.lookup? e name = some value) : sort value := by
  obtain ⟨g, -, hg⟩ := List.exists_of_findSome?_eq_some h
  exact hs g (name, value) (Bindings.mem_of_get? hg)

end State

/-- Evaluation of trees, with deposits of plain values since a start. -/
def plainSince (start : State) : Discipline where
  World := Discipline.Still
  states _ s s' := s = s' ∧ State.Deposits (·.isPlain) start s
  value _ v := v.isPlain = true
  code _ _ x := x.isTree = true

/-- The parts of a tree that are evaluated are trees, and so are those that become values. -/
theorem plainSince_lawful {start : State} (hstart : start.HoldsOnly (·.isPlain)) :
    (plainSince start).Lawful where
  value_mono _ hv := hv
  code_mono _ hx := hx
  number _ _ := rfl
  boolean _ _ := rfl
  emit event := by
    rintro ⟨rfl, hpath⟩
    exact ⟨rfl, hpath.tail (.recorded _ event)⟩
  tag := by
    rintro _ s s' ⟨rfl, hpath⟩
    exact ⟨rfl, rfl, hpath.tail (.tagged s)⟩
  lookup := by
    rintro _ e name s s' - ⟨rfl, hpath⟩
    exact ⟨rfl, fun hfound => (hpath.holdsOnly hstart).lookup? hfound⟩
  closure := nofun
  quote hx := Value.isPlain_of_isTree (Value.isTree_of_mem (by simp) hx)
  lambda := by
    rintro _ e fs b s s' hx ⟨rfl, hpath⟩
    have hformals : (Value.list fs).isTree = true := Value.isTree_of_mem (by simp) hx
    have hbody : b.isTree = true := Value.isTree_of_mem (by simp) hx
    refine ⟨rfl, ⟨⟩, le_refl _, ⟨rfl, hpath.tail (.tagged s)⟩, ?_⟩
    change (Value.isTreeEach fs && b.isTree) = true
    rw [hbody, Bool.and_true]
    exact hformals
  define := by
    rintro _ e name x hx
    refine ⟨Value.isTree_of_mem (by simp) hx, ?_⟩
    rintro _ v s s' - hv ⟨rfl, hpath⟩
    exact ⟨rfl, hpath.tail (.bound s e name v hv)⟩
  assign := by
    rintro _ e name x hx
    refine ⟨Value.isTree_of_mem (by simp) hx, ?_⟩
    rintro _ s s' - ⟨rfl, hpath⟩
    exact ⟨rfl, fun {v target} hv _ => ⟨rfl, hpath.tail (.bound s target name v hv)⟩⟩
  operands hx _ _ hy := Value.isTree_of_mem (List.mem_cons_of_mem _ hy) hx
  head hx _ := Value.isTree_of_mem List.mem_cons_self hx
  enter := by
    rintro _ t fs b f us bindings s s' hclosure hargs hbound ⟨rfl, hpath⟩
    have hbindings : ∀ binding ∈ bindings, binding.2.isPlain = true :=
      forall_bindFormals hbound hargs
    refine ⟨rfl, ⟨⟩, le_refl _, ⟨rfl, hpath.tail (.entered s ⟨some f, bindings⟩ hbindings)⟩, ?_⟩
    change (Value.isTreeEach fs && b.isTree) = true at hclosure
    rw [Bool.and_eq_true] at hclosure
    exact hclosure.2

/-- In the course of these requests, evaluation is called on an expression, in this frame and this
state, with this limit: a request asks for it, or the rule for an expression that evaluation was
called on before. -/
inductive Evaluates (root : FrameId) (start : State) (requests : List (Nat × TextRequest)) :
    Nat → Value → FrameId → State → Prop where
  | asked {earlier later : List (Nat × TextRequest)} {limit : Nat} {request : TextRequest}
      {x : Value} {e : FrameId} {s : State}
      (place : requests = earlier ++ (limit, request) :: later)
      (asks : Asks (request.performWith · root) (evaluate limit)
        (performRequests root earlier start).2 x e s) :
      Evaluates root start requests limit x e s
  | within {limit : Nat} {x y : Value} {e g : FrameId} {s t : State}
      (outer : Evaluates root start requests (limit + 1) x e s)
      (asks : Asks (evaluateWith · x e) (evaluate limit) s y g t) :
      Evaluates root start requests limit y g t

/-- Evaluation is called on the first expression of a text that is to be evaluated. -/
theorem Evaluates.first (root : FrameId) (start : State) (earlier later : List (Nat × TextRequest))
    (limit : Nat) {source : String} {x : Value} {rest : List Value}
    (hread : readAll source = .ok (x :: rest)) :
    Evaluates root start (earlier ++ (limit, .evaluate source) :: later) limit x root
      (performRequests root earlier start).2 := by
  refine .asked rfl (asks_of_arrives (fun eval value => do
    let value ← sequenceWith eval root value rest
    return some value) fun other _ => ?_)
  simp only [TextRequest.performWith, hread, sequenceWith, bind_assoc]

/-- Evaluation is called on the list at the head of a list. -/
theorem Evaluates.head {root : FrameId} {start : State} {requests : List (Nat × TextRequest)}
    {limit : Nat} {items operands : List Value} {e : FrameId} {s : State}
    (h : Evaluates root start requests (limit + 1) (.list (.list items :: operands)) e s) :
    Evaluates root start requests limit (.list items) e s :=
  .within h (asks_of_arrives (fun eval function =>
    callWith eval function (.resultNotFunction function) operands e) fun _ _ => rfl)

section

variable {D : Discipline} (hD : D.Lawful) {w : D.World} {root : FrameId} {start : State}
  (hroot : D.AdmitsWritten w root) (hstart : D.states w start start)

include hD hroot hstart

/-- Requests stay within a discipline that admits what is written. -/
theorem performRequests_within (requests : List (Nat × TextRequest)) :
    ∃ w', w ≤ w' ∧
      D.states w' (performRequests root requests start).2 (performRequests root requests start).2 ∧
      ∀ v, .ok (some v) ∈ (performRequests root requests start).1 → D.value w' v := by
  have hcalls : ∀ call ∈ callsOn root requests, ∀ w', w ≤ w' →
      D.Answers w' (fun w'' answer => ∀ v, answer = some v → D.value w'' v) call.perform := by
    intro call hcall w' hle
    obtain ⟨⟨limit, request⟩, -, rfl⟩ := List.mem_map.mp hcall
    exact hD.performText (hroot.mono hle) limit request
  obtain ⟨w', hle, hstates, -, hvalues⟩ := hD.performEach_of_answers hcalls hstart
  exact ⟨w', hle, hstates, hvalues⟩

/-- In the course of requests, evaluation is called on what a discipline allows only, where each run
is within it on its own. -/
theorem Evaluates.code (hsingle : ∀ {w : D.World} {s s' : State}, D.states w s s' → s = s')
    {requests : List (Nat × TextRequest)} {limit : Nat} {x : Value} {e : FrameId} {s : State}
    (h : Evaluates root start requests limit x e s) : ∃ w', D.code w' e x ∧ D.states w' s s := by
  -- A request asks for what it reads, and a rule asks for parts of the expression at hand.
  induction h with
  | @asked earlier later limit request x e s hplace hasks =>
    obtain ⟨w₁, hle, hearlier, -⟩ := performRequests_within hD hroot hstart earlier
    exact Discipline.code_of_asks hsingle (hD.evaluate limit)
      (fun other hother => hD.performWith_agree hother (hroot.mono hle) request) hearlier hasks
  | @within limit x y e g s t _ hasks ih =>
    obtain ⟨w₁, hx, hs⟩ := ih
    exact Discipline.code_of_asks hsingle (hD.evaluate limit)
      (fun other hother => hD.evaluateWith_agree hother hx) hs hasks

end

section

variable {start : State} (hstart : start.HoldsOnly (·.isPlain)) (root : FrameId)
  (requests : List (Nat × TextRequest))

/-- Trees may be evaluated in any frame, so what is written may be. -/
theorem plainSince_admitsWritten (w : Discipline.Still) :
    (plainSince start).AdmitsWritten w root :=
  fun _ _ _ hx => hx.isTree

include hstart

/-- Requests deposit and answer plain values only. -/
theorem performRequests_plain :
    State.Deposits (·.isPlain) start (performRequests root requests start).2 ∧
      ∀ v, .ok (some v) ∈ (performRequests root requests start).1 → v.isPlain = true := by
  obtain ⟨_, -, ⟨-, hpath⟩, hvalues⟩ := performRequests_within (plainSince_lawful hstart)
    (plainSince_admitsWritten root ⟨⟩) ⟨rfl, .refl⟩ requests
  exact ⟨hpath, hvalues⟩

/-- Evaluation is called on trees only, after deposits of plain values. -/
theorem Evaluates.isTree {limit : Nat} {x : Value} {e : FrameId} {s : State}
    (h : Evaluates root start requests limit x e s) :
    x.isTree = true ∧ State.Deposits (·.isPlain) start s := by
  obtain ⟨_, hx, -, hs⟩ := Evaluates.code (plainSince_lawful hstart)
    (plainSince_admitsWritten root ⟨⟩) ⟨rfl, .refl⟩ (fun hstates => hstates.1) h
  exact ⟨hx, hs⟩

end

/-- A new session holds the values that its root is made with. -/
theorem State.holdsOnly_newSession {sort : Value → Prop}
    (h : ∀ binding ∈ standardBindings 0 0, sort binding.2) : State.newSession.HoldsOnly sort := by
  intro e binding hmem
  change binding ∈ (Store.push {} ⟨none, standardBindings 0 0⟩).bindingsOf e at hmem
  rw [Store.bindingsOf_push] at hmem
  split at hmem
  · exact h binding hmem
  · cases hmem

/-- The values of a new root are plain. -/
theorem State.newSession_holdsOnly : State.newSession.HoldsOnly (·.isPlain) :=
  State.holdsOnly_newSession (by decide)

/-- A session that is driven by text evaluates trees, and binds and answers plain values.

From the new root on, every value that is put into a frame is plain, and so is every value that is
answered. Evaluation is called on trees only, and answers plain values: it never comes by a closure
at the head of a list, by a value from outside, or by a value to apply that is no closure. The items
of a list that is plain are trees. -/
theorem text_session_plain (requests : List (Nat × TextRequest)) :
    ∃ root start, standardRoot {} = (.ok root, start) ∧ start.HoldsOnly (·.isPlain) ∧
      State.Deposits (·.isPlain) start (performRequests root requests start).2 ∧
      (performRequests root requests start).2.HoldsOnly (·.isPlain) ∧
      (∀ v, .ok (some v) ∈ (performRequests root requests start).1 → v.isPlain = true) ∧
      (∀ limit x e s, Evaluates root start requests limit x e s →
        x.isTree = true ∧ State.Deposits (·.isPlain) start s ∧ s.HoldsOnly (·.isPlain) ∧
        (∀ v, (evaluate limit x e s).1 = .ok v → v.isPlain = true) ∧
        (∀ tag formals body frame operands,
          x ≠ .list (.closure tag formals body frame :: operands)) ∧
        (∀ f, x ≠ .foreign f) ∧
        ∀ head, (evaluate limit x e s).1 ≠ .error (.notApplicable head)) ∧
      ∀ items, (Value.list items).isPlain = true → ∀ v ∈ items, v.isTree = true := by
  have hstart := State.newSession_holdsOnly
  obtain ⟨hpath, hanswers⟩ := performRequests_plain hstart 0 requests
  refine ⟨0, .newSession, standardRoot_empty, hstart, hpath, hpath.holdsOnly hstart, hanswers, ?_,
    fun items hplain v hv => Value.isTreeEach_iff.mp hplain v hv⟩
  intro limit x e s h
  obtain ⟨hx, hs⟩ := h.isTree hstart
  obtain ⟨_, -, -, -, hvalue⟩ := ((plainSince_lawful hstart).evaluate limit
    (w := Discipline.Still.mk) (e := e) hx).outcome ⟨rfl, hs⟩
  refine ⟨hx, hs, hs.holdsOnly hstart, hvalue, ?_, ?_, ?_⟩
  · rintro tag formals body frame operands rfl
    cases hx
  · rintro f rfl
    cases hx
  · intro head herror
    cases evaluate_raises herror

/-- A text that calls the closure of a lambda form has the lambda form evaluated, which is a
tree. -/
theorem text_session_plain_call :
    let request := TextRequest.evaluate "((lambda (x) x) true)"
    let made := Value.list [.symbol "lambda", .list [.symbol "x"], .symbol "x"]
    Evaluates 0 .newSession [(5, request)] 4 made 0 .newSession ∧ made.isTree = true := by
  intro request made
  have hread : readAll "((lambda (x) x) true)" = .ok [.list [.list [.symbol "lambda",
      .list [.symbol "x"], .symbol "x"], .symbol "true"]] := rfl
  have hmade : Evaluates 0 .newSession [(5, request)] 4 made 0 .newSession :=
    (Evaluates.first 0 .newSession [] [] 5 hread).head
  obtain ⟨root, start, hroot, -, -, -, -, hcalls, -⟩ := text_session_plain [(5, request)]
  obtain ⟨hsame, rfl⟩ := Prod.mk.inj (standardRoot_empty.symm.trans hroot)
  obtain rfl := Outcome.ok.inj hsame
  exact ⟨hmade, (hcalls 4 made 0 _ hmade).1⟩

end LexicalLisp
