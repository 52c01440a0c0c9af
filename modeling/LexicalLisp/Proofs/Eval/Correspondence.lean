import LexicalLisp.Proofs.Eval.Actions
import Mathlib.Data.List.Forall2
import Mathlib.Order.Basic

/-!
# Two runs side by side

Many facts about evaluation compare two runs, or a run with itself: frames out of reach do not
matter, a parameter may be renamed, an invariant holds along the way. They differ in what counts as
the same, and agree in how a run goes through the forms and calls of an expression.

A correspondence says which states, values and expressions count as the same, in a world that may
grow as frames and closures come into being. It is lawful if it holds at the points where
evaluation touches the state: looking up, binding and overwriting a name, making a closure, and
entering one. The main statement is that evaluation keeps every lawful correspondence, also where
it fails or runs out of depth. Whether errors and events have to be equal, or errors of one kind
only, is up to the correspondence.
-/

namespace LexicalLisp

/-- What counts as the same in two runs. -/
structure Correspondence where
  World : Type
  [order : Preorder World]
  /-- The runs have to agree on errors and events to the letter. -/
  verbatim : Prop
  states : World → State → State → Prop
  values : World → Value → Value → Prop
  /-- Expressions that are evaluated in this frame. -/
  code : World → FrameId → Value → Value → Prop

attribute [instance] Correspondence.order

/-- Every operand of the form is an expression that the form may evaluate. -/
def Form.takesExpressions : Form → Bool
  | .choose | .plus | .minus | .times | .equals => true
  | .quote | .define | .lambda | .assign => false

namespace Correspondence

variable (C : Correspondence) {α β γ δ : Type}

/-- Two computations end the same way. -/
def Ends (R : α → β → Prop) : Outcome α → Outcome β → Prop
  | .ok a, .ok b => R a b
  | .error e, .error f => e.kind = f.kind ∧ (C.verbatim → e = f)
  | .tooDeep, .tooDeep => True
  | _, _ => False

/-- From states that correspond, two computations reach states that correspond and end the same
way. -/
def Relates (w : C.World) (R : C.World → α → β → Prop) (a : Eval α) (b : Eval β) : Prop :=
  ∀ s s', C.states w s s' →
    ∃ w', w ≤ w' ∧ C.states w' (a s).2 (b s').2 ∧ C.Ends (R w') (a s).1 (b s').1

/-- What operands of a form have to satisfy for the form to run the same way on both sides. -/
inductive FormView (w : C.World) (e : FrameId) : Form → List Value → List Value → Prop where
  | quote {xs ys : List Value} (h : C.Relates w C.values (runQuote xs) (runQuote ys)) :
      FormView w e .quote xs ys
  | lambda {xs ys : List Value} (h : C.Relates w C.values (runLambda xs e) (runLambda ys e)) :
      FormView w e .lambda xs ys
  | define {m n : String} {x y : Value} (operand : C.code w e x y)
      (bind : ∀ w', w ≤ w' → ∀ u v, C.values w' u v → C.Relates w' (fun _ _ _ => True)
        (Eval.bindName e (.symbol m) u) (Eval.bindName e (.symbol n) v)) :
      FormView w e .define [.symbol m, x] [.symbol n, y]
  | assign {m n : String} {x y : Value} (target : C.verbatim → m = n) (operand : C.code w e x y)
      (found : ∀ w', w ≤ w' → ∀ s s', C.states w' s s' →
        (s.store.find? e m).isNone = (s'.store.find? e n).isNone)
      (overwrite : ∀ w', w ≤ w' → ∀ u v, C.values w' u v → C.Relates w' (fun _ _ _ => True)
        (Eval.overwrite e (.symbol m) u) (Eval.overwrite e (.symbol n) v)) :
      FormView w e .assign [.symbol m, x] [.symbol n, y]
  | operands {form : Form} {xs ys : List Value} (takes : form.takesExpressions = true)
      (each : List.Forall₂ (C.code w e) xs ys) : FormView w e form xs ys
  | malformed {form : Form} {xs ys : List Value} {d d' : Error}
      (left : ∀ eval, form.run eval xs e = Eval.fail d)
      (right : ∀ eval, form.run eval ys e = Eval.fail d')
      (kind : d.kind = d'.kind) (same : C.verbatim → d = d') : FormView w e form xs ys

/-- What two expressions have to look like to be evaluated the same way. -/
inductive View (w : C.World) (e : FrameId) : Value → Value → Prop where
  | name {m n : String}
      (lookup : C.Relates w C.values (Eval.lookup e (.symbol m)) (Eval.lookup e (.symbol n))) :
      View w e (.symbol m) (.symbol n)
  | number (n : Number) : View w e (.number n) (.number n)
  | boolean (b : Bool) : View w e (.boolean b) (.boolean b)
  | foreign (f : Foreign) : View w e (.foreign f) (.foreign f)
  | closure {t t' : Nat} {fs fs' : List Value} {b b' : Value} {f f' : FrameId}
      (h : C.values w (.closure t fs b f) (.closure t' fs' b' f')) :
      View w e (.closure t fs b f) (.closure t' fs' b' f')
  | empty : View w e (.list []) (.list [])
  | form {form : Form} {xs ys : List Value} (h : C.FormView w e form xs ys) :
      View w e (.list (.symbol form.name :: xs)) (.list (.symbol form.name :: ys))
  | call {m n : String} {xs ys : List Value} (left : Form.ofName? m = none)
      (right : Form.ofName? n = none)
      (lookup : C.Relates w C.values (Eval.lookup e (.symbol m)) (Eval.lookup e (.symbol n)))
      (each : List.Forall₂ (C.code w e) xs ys) :
      View w e (.list (.symbol m :: xs)) (.list (.symbol n :: ys))
  | apply {t t' : Nat} {fs fs' : List Value} {b b' : Value} {f f' : FrameId} {xs ys : List Value}
      (h : C.values w (.closure t fs b f) (.closure t' fs' b' f'))
      (each : List.Forall₂ (C.code w e) xs ys) :
      View w e (.list (.closure t fs b f :: xs)) (.list (.closure t' fs' b' f' :: ys))
  | compute {us vs xs ys : List Value} (h : C.code w e (.list us) (.list vs))
      (each : List.Forall₂ (C.code w e) xs ys) :
      View w e (.list (.list us :: xs)) (.list (.list vs :: ys))
  | literalHead {u v : Value} {xs ys : List Value}
      (left : ∀ eval, evaluateList eval u xs e = Eval.fail (.invalidExpression (.list (u :: xs))))
      (right : ∀ eval,
        evaluateList eval v ys e = Eval.fail (.invalidExpression (.list (v :: ys)))) :
      View w e (.list (u :: xs)) (.list (v :: ys))

/-- The laws by which evaluation keeps a correspondence. -/
structure Lawful : Prop where
  values_mono : ∀ {w w' u v}, w ≤ w' → C.values w u v → C.values w' u v
  code_mono : ∀ {w w' e x y}, w ≤ w' → C.code w e x y → C.code w' e x y
  values_eq : C.verbatim → ∀ {w u v}, C.values w u v → u = v
  code_eq : C.verbatim → ∀ {w e x y}, C.code w e x y → x = y
  number : ∀ w n, C.values w (.number n) (.number n)
  boolean : ∀ w b, C.values w (.boolean b) (.boolean b)
  /-- Numbers, closures and the boolean false are told apart from the rest. -/
  sort : ∀ {w u v}, C.values w u v →
    u.number? = v.number? ∧ u.isClosure = v.isClosure ∧ u.isFalse = v.isFalse
  same : ∀ {w u v u' v'}, C.values w u v → C.values w u' v' → u.same u' = v.same v'
  emit : ∀ {w s s'} {event event' : Event}, C.states w s s' → (C.verbatim → event = event') →
    C.states w { s with log := s.log.push event } { s' with log := s'.log.push event' }
  tag : ∀ {w s s'}, C.states w s s' → s.store.nextTag = s'.store.nextTag ∧
    C.states w { s with store := { s.store with nextTag := s.store.nextTag + 1 } }
      { s' with store := { s'.store with nextTag := s'.store.nextTag + 1 } }
  view : ∀ {w e x y}, C.code w e x y → C.View w e x y
  /-- Entering a closure opens one new frame on both sides, in which the bodies correspond. -/
  enter : ∀ {w t t' fs fs' b b' f f' us vs},
    C.values w (.closure t fs b f) (.closure t' fs' b' f') → List.Forall₂ (C.values w) us vs →
    C.Relates w (fun w' g g' => g = g' ∧ C.code w' g b b')
      (callFrame (.closure t fs b f) fs f us) (callFrame (.closure t' fs' b' f') fs' f' vs)

variable {C} {w : C.World} {R : C.World → α → β → Prop} {Q : C.World → γ → δ → Prop}

namespace Relates

/-- Two successes with values that count as the same. -/
theorem succeed {a : α} {b : β} (h : R w a b) :
    C.Relates w R (Eval.succeed a) (Eval.succeed b) :=
  fun _ _ hs => ⟨w, le_refl w, hs, h⟩

/-- Two failures of one kind. -/
theorem fail {d d' : Error} (kind : d.kind = d'.kind) (same : C.verbatim → d = d') :
    C.Relates w R (Eval.fail d) (Eval.fail d') :=
  fun _ _ hs => ⟨w, le_refl w, hs, kind, same⟩

/-- Giving up on both sides. -/
theorem tooDeep : C.Relates w R (Eval.tooDeep : Eval α) (Eval.tooDeep : Eval β) :=
  fun _ _ hs => ⟨w, le_refl w, hs, trivial⟩

/-- Computations one after the other, the second from whatever world the first ends in. -/
theorem bind {a : Eval α} {b : Eval β} {next : α → Eval γ} {next' : β → Eval δ}
    (hfirst : C.Relates w R a b)
    (hnext : ∀ w', w ≤ w' → ∀ x y, R w' x y → C.Relates w' Q (next x) (next' y)) :
    C.Relates w Q (a >>= next) (b >>= next') := by
  intro s s' hs
  obtain ⟨w', hle, hstates, hends⟩ := hfirst s s' hs
  change ∃ w', w ≤ w' ∧ C.states w' (Eval.andThen a next s).2 (Eval.andThen b next' s').2 ∧
    C.Ends (Q w') (Eval.andThen a next s).1 (Eval.andThen b next' s').1
  unfold Eval.andThen
  revert hstates hends
  rcases a s with ⟨x | d | _, t⟩ <;> rcases b s' with ⟨y | d' | _, t'⟩ <;> intro hstates hends
  case ok.ok =>
    obtain ⟨w'', hle', hrest⟩ := hnext w' hle x y hends t t' hstates
    exact ⟨w'', le_trans hle hle', hrest⟩
  case error.error => exact ⟨w', hle, hstates, hends⟩
  case tooDeep.tooDeep => exact ⟨w', hle, hstates, trivial⟩
  all_goals exact False.elim hends

/-- Looking at the frames of states that correspond. -/
theorem getStore : C.Relates w
    (fun w' t t' => ∃ s s', C.states w' s s' ∧ s.store = t ∧ s'.store = t')
    Eval.getStore Eval.getStore :=
  fun s s' hs => ⟨w, le_refl w, hs, s, s', hs, rfl, rfl⟩

end Relates

namespace Lawful

variable (hC : C.Lawful)

include hC

/-- Recording events that are equal where they have to be. -/
theorem relates_emit {event event' : Event} (same : C.verbatim → event = event') :
    C.Relates w (fun _ _ _ => True) (Eval.emit event) (Eval.emit event') :=
  fun _ _ hs => ⟨w, le_refl w, hC.emit hs same, trivial⟩

/-- Using up a tag gives the same one on both sides. -/
theorem relates_freshTag : C.Relates w (fun _ t t' => t = t') Eval.freshTag Eval.freshTag :=
  fun _ _ hs => ⟨w, le_refl w, (hC.tag hs).2, (hC.tag hs).1⟩

/-- Expressions that correspond stay so. -/
theorem code_mono_each {w' : C.World} {e : FrameId} (hle : w ≤ w') {xs ys : List Value}
    (h : List.Forall₂ (C.code w e) xs ys) : List.Forall₂ (C.code w' e) xs ys :=
  h.imp fun _ _ => hC.code_mono hle

/-- Values that have to be equal are so one by one. -/
theorem values_eq_each (hverbatim : C.verbatim) {us vs : List Value}
    (h : List.Forall₂ (C.values w) us vs) : us = vs :=
  List.forall₂_eq_eq_eq ▸ h.imp fun _ _ => hC.values_eq hverbatim

/-- Values that correspond item by item are all the same on both sides or on neither. -/
theorem allSame_eq {us vs : List Value} (h : List.Forall₂ (C.values w) us vs) :
    allSame us = allSame vs := by
  cases h with
  | nil => rfl
  | @cons u v us vs hfirst hrest =>
    change us.all u.same = vs.all v.same
    induction hrest with
    | nil => rfl
    | cons h _ ih => rw [List.all_cons, List.all_cons, hC.same hfirst h, ih]

variable {eval eval' : Evaluator}
  (heval : ∀ {w : C.World} {e : FrameId} {x y : Value}, C.code w e x y →
    C.Relates w C.values (eval x e) (eval' y e))

include heval

/-- Expressions in a row. -/
theorem relates_evaluateEach {e : FrameId} {xs ys : List Value}
    (h : List.Forall₂ (C.code w e) xs ys) :
    C.Relates w (fun w' => List.Forall₂ (C.values w'))
      (evaluateEach eval e xs) (evaluateEach eval' e ys) := by
  induction xs generalizing ys w with
  | nil =>
    cases h
    exact .succeed .nil
  | cons x xs ih =>
    cases h with
    | cons hfirst hrest =>
      refine .bind (heval hfirst) fun w₁ hle₁ u v huv => ?_
      refine .bind (ih (hC.code_mono_each hle₁ hrest)) fun w₂ hle₂ us vs husvs => ?_
      exact .succeed (.cons (hC.values_mono hle₂ huv) husvs)

/-- Numeric operands in a row: the same numbers, or the same operand that is none. -/
theorem relates_evaluateNumbers {form : Form} {e : FrameId} {xs ys : List Value}
    (h : List.Forall₂ (C.code w e) xs ys) :
    C.Relates w (fun _ ms ns => ms = ns)
      (evaluateNumbers eval form e xs) (evaluateNumbers eval' form e ys) := by
  induction xs generalizing ys w with
  | nil =>
    cases h
    exact .succeed rfl
  | cons x xs ih =>
    cases h with
    | cons hfirst hrest =>
      refine .bind (heval hfirst) fun w₁ hle₁ u v huv => ?_
      obtain ⟨hnumber, -, -⟩ := hC.sort huv
      have hfail : C.Relates w₁ (fun _ ms ns => ms = ns)
          (Eval.fail (.operandNotNumber form u) : Eval (List Number))
          (Eval.fail (.operandNotNumber form v)) :=
        .fail rfl fun hverbatim => congrArg _ (hC.values_eq hverbatim huv)
      cases u with
      | number m =>
        cases v with
        | number n =>
          cases hnumber
          refine .bind (ih (hC.code_mono_each hle₁ hrest)) fun w₂ _ ms ns hmsns => ?_
          exact .succeed (by rw [hmsns])
        | _ => cases hnumber
      | _ =>
        cases v with
        | number n => cases hnumber
        | _ => exact hfail

/-- The arithmetic forms. -/
theorem relates_runArithmetic (form : Form) (combine : List Float → Float) {e : FrameId}
    {xs ys : List Value} (h : List.Forall₂ (C.code w e) xs ys) :
    C.Relates w C.values (runArithmetic eval form combine xs e)
      (runArithmetic eval' form combine ys e) := by
  refine .bind (hC.relates_evaluateNumbers heval h) fun w₁ _ ms ns hnumbers => ?_
  subst hnumbers
  refine .bind (hC.relates_emit fun _ => rfl) fun w₂ _ _ _ _ => ?_
  refine .bind hC.relates_freshTag fun w₃ _ t t' htag => ?_
  subst htag
  exact .succeed (hC.number w₃ _)

/-- The forms whose operands are expressions. -/
theorem relates_run_operands {form : Form} {e : FrameId} {xs ys : List Value}
    (htakes : form.takesExpressions = true) (h : List.Forall₂ (C.code w e) xs ys) :
    C.Relates w C.values (form.run eval xs e) (form.run eval' ys e) := by
  have hempty : xs.isEmpty = ys.isEmpty := by cases h <;> rfl
  cases form with
  | quote | define | lambda | assign => cases htakes
  | choose =>
    change C.Relates w C.values (runChoose eval xs e) (runChoose eval' ys e)
    match h with
    | .cons htest (.cons htrue (.cons hfalse .nil)) =>
      refine .bind (heval htest) fun w₁ hle u v huv => ?_
      rw [(hC.sort huv).2.2]
      split
      · exact heval (hC.code_mono hle hfalse)
      · exact heval (hC.code_mono hle htrue)
    | .nil | .cons _ .nil | .cons _ (.cons _ .nil) | .cons _ (.cons _ (.cons _ (.cons _ _))) =>
      exact .fail rfl fun _ => rfl
  | plus => exact hC.relates_runArithmetic heval .plus sumOf h
  | minus =>
    change C.Relates w C.values
      (if xs.isEmpty then Eval.fail (.operandCount .minus)
        else runArithmetic eval .minus differenceOf xs e)
      (if ys.isEmpty then Eval.fail (.operandCount .minus)
        else runArithmetic eval' .minus differenceOf ys e)
    rw [hempty]
    split
    · exact .fail rfl fun _ => rfl
    · exact hC.relates_runArithmetic heval .minus differenceOf h
  | times => exact hC.relates_runArithmetic heval .times productOf h
  | equals =>
    change C.Relates w C.values (runEquals eval xs e) (runEquals eval' ys e)
    unfold runEquals
    rw [hempty]
    split
    · exact .fail rfl fun _ => rfl
    · refine .bind (hC.relates_evaluateEach heval h) fun w₁ _ us vs husvs => ?_
      rw [hC.allSame_eq husvs]
      exact .succeed (hC.boolean w₁ _)

/-- Every reserved form. -/
theorem relates_run {form : Form} {e : FrameId} {xs ys : List Value}
    (h : C.FormView w e form xs ys) :
    C.Relates w C.values (form.run eval xs e) (form.run eval' ys e) := by
  cases h with
  | quote h => exact h
  | lambda h => exact h
  | define operand bind =>
    refine .bind (heval operand) fun w₁ hle₁ u v huv => ?_
    refine .bind (bind w₁ hle₁ u v huv) fun w₂ hle₂ _ _ _ => ?_
    exact .succeed (hC.values_mono hle₂ huv)
  | assign target operand found overwrite =>
    refine .bind .getStore fun w₁ hle₁ t t' hstores => ?_
    obtain ⟨s, s', hs, rfl, rfl⟩ := hstores
    rw [found w₁ hle₁ s s' hs]
    split
    · exact .fail rfl fun hverbatim => congrArg Error.assignUnbound (target hverbatim)
    · refine .bind (heval (hC.code_mono hle₁ operand)) fun w₂ hle₂ u v huv => ?_
      refine .bind (overwrite w₂ (le_trans hle₁ hle₂) u v huv) fun w₃ hle₃ _ _ _ => ?_
      exact .succeed (hC.values_mono hle₃ huv)
  | operands takes each => exact hC.relates_run_operands heval takes each
  | malformed left right kind same =>
    rw [left eval, right eval']
    exact .fail kind same

/-- Calling closures. -/
theorem relates_callClosure {t t' : Nat} {fs fs' : List Value} {b b' : Value} {f f' : FrameId}
    {us vs : List Value} (h : C.values w (.closure t fs b f) (.closure t' fs' b' f'))
    (hargs : List.Forall₂ (C.values w) us vs) :
    C.Relates w C.values (callClosure eval t fs b f us) (callClosure eval' t' fs' b' f' vs) := by
  refine .bind (hC.enter h hargs) fun w₁ hle₁ g g' hentered => ?_
  obtain ⟨rfl, hbody⟩ := hentered
  refine .bind (hC.relates_emit fun hverbatim => ?_) fun w₂ hle₂ _ _ _ => ?_
  · rw [hC.values_eq hverbatim h, hC.values_eq_each hverbatim hargs]
  · exact heval (hC.code_mono hle₂ hbody)

/-- Calling what may not be a function. -/
theorem relates_callWith {u v : Value} {d d' : Error} {e : FrameId} {xs ys : List Value}
    (h : C.values w u v) (kind : d.kind = d'.kind) (same : C.verbatim → d = d')
    (hargs : List.Forall₂ (C.code w e) xs ys) :
    C.Relates w C.values (callWith eval u d xs e) (callWith eval' v d' ys e) := by
  have hsort := (hC.sort h).2.1
  unfold callWith
  rw [hsort]
  split
  · rename_i hv
    rw [hv] at hsort
    refine .bind (hC.relates_evaluateEach heval hargs) fun w₁ hle₁ us vs husvs => ?_
    cases u with
    | closure =>
      cases v with
      | closure => exact hC.relates_callClosure heval (hC.values_mono hle₁ h) husvs
      | _ => cases hv
    | _ => cases hsort
  · exact .fail kind same

/-- One level of evaluation. -/
theorem relates_evaluateWith {e : FrameId} {x y : Value} (h : C.code w e x y) :
    C.Relates w C.values (evaluateWith eval x e) (evaluateWith eval' y e) := by
  have heq : C.verbatim → x = y := fun hverbatim => hC.code_eq hverbatim h
  cases hC.view h with
  | name lookup => exact lookup
  | number n => exact .succeed (hC.number w n)
  | boolean b => exact .succeed (hC.boolean w b)
  | foreign f => exact .fail rfl fun _ => rfl
  | closure hclosure => exact .succeed hclosure
  | empty => exact .fail rfl fun _ => rfl
  | @form form xs ys hform =>
    change C.Relates w C.values (evaluateList eval (.symbol form.name) xs e)
      (evaluateList eval' (.symbol form.name) ys e)
    simp only [evaluateList, Form.ofName?_name]
    exact hC.relates_run heval hform
  | @call m n xs ys left right lookup each =>
    change C.Relates w C.values (evaluateList eval (.symbol m) xs e)
      (evaluateList eval' (.symbol n) ys e)
    simp only [evaluateList, left, right]
    refine .bind lookup fun w₁ hle₁ u v huv => ?_
    refine hC.relates_callWith heval huv rfl (fun hverbatim => ?_) (hC.code_mono_each hle₁ each)
    cases heq hverbatim
    rfl
  | apply hclosure each =>
    refine .bind (hC.relates_evaluateEach heval each) fun w₁ hle₁ us vs husvs => ?_
    exact hC.relates_callClosure heval (hC.values_mono hle₁ hclosure) husvs
  | compute hhead each =>
    refine .bind (heval hhead) fun w₁ hle₁ u v huv => ?_
    exact hC.relates_callWith heval huv rfl
      (fun hverbatim => congrArg _ (hC.values_eq hverbatim huv)) (hC.code_mono_each hle₁ each)
  | @literalHead u v xs ys left right =>
    change C.Relates w C.values (evaluateList eval u xs e) (evaluateList eval' v ys e)
    rw [left eval, right eval']
    exact .fail rfl fun hverbatim => congrArg _ (heq hverbatim)

omit heval in
/-- Evaluation keeps every lawful correspondence, at any limit on depth. -/
theorem relates_evaluate (limit : Nat) {e : FrameId} {x y : Value} (h : C.code w e x y) :
    C.Relates w C.values (evaluate limit x e) (evaluate limit y e) := by
  induction limit generalizing w e x y with
  | zero => exact .tooDeep
  | succ limit ih => exact hC.relates_evaluateWith ih h

end Lawful

end Correspondence

end LexicalLisp
