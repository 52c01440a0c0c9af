import LexicalLisp.Proofs.Eval.Correspondence

/-!
# One expression in two states

Where both runs evaluate the same expression and are to end with the same value, error and events,
it is enough to say which expressions may be evaluated in a frame and which values may turn up. A
discipline says so, together with the pairs of states that it allows; where these are equal states,
it is an invariant of a single run.

Its laws speak of parts of expressions and of single changes to the frames. From them follows that
evaluation stays within the discipline, and that it gives the same answer on both sides.
-/

namespace LexicalLisp

/-- The states, values and expressions that evaluation keeps to. -/
structure Discipline where
  World : Type
  [order : Preorder World]
  states : World → State → State → Prop
  value : World → Value → Prop
  /-- Expressions that may be evaluated in this frame. -/
  code : World → FrameId → Value → Prop

attribute [instance] Discipline.order

namespace Discipline

/-- The world of a discipline that has nothing to keep track of. -/
structure Still where

/-- Such a world stays what it is. -/
instance : Preorder Still where
  le _ _ := True
  le_refl _ := trivial
  le_trans _ _ _ _ _ := trivial

/-- The laws by which evaluation stays within a discipline. -/
structure Lawful (D : Discipline) : Prop where
  value_mono : ∀ {w w' v}, w ≤ w' → D.value w v → D.value w' v
  code_mono : ∀ {w w' e x}, w ≤ w' → D.code w e x → D.code w' e x
  number : ∀ w n, D.value w (.number n)
  boolean : ∀ w b, D.value w (.boolean b)
  emit : ∀ {w s s'} (event : Event), D.states w s s' →
    D.states w { s with log := s.log.push event } { s' with log := s'.log.push event }
  tag : ∀ {w s s'}, D.states w s s' → s.store.nextTag = s'.store.nextTag ∧
    D.states w { s with store := { s.store with nextTag := s.store.nextTag + 1 } }
      { s' with store := { s'.store with nextTag := s'.store.nextTag + 1 } }
  lookup : ∀ {w e n s s'}, D.code w e (.symbol n) → D.states w s s' →
    s.store.lookup? e n = s'.store.lookup? e n ∧
      ∀ {v}, s.store.lookup? e n = some v → D.value w v
  closure : ∀ {w e t fs b f}, D.code w e (.closure t fs b f) → D.value w (.closure t fs b f)
  quote : ∀ {w e x}, D.code w e (.list [.symbol Form.quote.name, x]) → D.value w x
  /-- A new closure may be told apart from the others by its tag, so the world may grow. -/
  lambda : ∀ {w e fs b s s'}, D.code w e (.list [.symbol Form.lambda.name, .list fs, b]) →
    D.states w s s' → s.store.depth e = s'.store.depth e ∧ ∃ w', w ≤ w' ∧
      D.states w' { s with store := { s.store with nextTag := s.store.nextTag + 1 } }
        { s' with store := { s'.store with nextTag := s'.store.nextTag + 1 } } ∧
      D.value w' (.closure s.store.nextTag fs b e)
  define : ∀ {w e n x}, D.code w e (.list [.symbol Form.define.name, .symbol n, x]) →
    D.code w e x ∧ ∀ {w' v s s'}, w ≤ w' → D.value w' v → D.states w' s s' →
      D.states w' { s with store := s.store.put e n v } { s' with store := s'.store.put e n v }
  assign : ∀ {w e n x}, D.code w e (.list [.symbol Form.assign.name, .symbol n, x]) →
    D.code w e x ∧ ∀ {w' s s'}, w ≤ w' → D.states w' s s' →
      s.store.find? e n = s'.store.find? e n ∧
        ∀ {v target}, D.value w' v → s.store.find? e n = some target →
          D.states w' { s with store := s.store.put target n v }
            { s' with store := s'.store.put target n v }
  /-- Operands may be evaluated, except those of the four forms with rules of their own. -/
  operands : ∀ {w e head xs}, D.code w e (.list (head :: xs)) →
    (∀ form : Form, head = .symbol form.name → form.takesExpressions = true) →
    ∀ x ∈ xs, D.code w e x
  head : ∀ {w e head xs}, D.code w e (.list (head :: xs)) →
    (∀ form : Form, head ≠ .symbol form.name) → D.code w e head
  enter : ∀ {w t fs b f us bindings s s'}, D.value w (.closure t fs b f) →
    (∀ u ∈ us, D.value w u) → bindFormals [] (fs.zip us) = .ok bindings → D.states w s s' →
    s.store.frames.size = s'.store.frames.size ∧ ∃ w', w ≤ w' ∧
      D.states w' { s with store := s.store.push ⟨some f, bindings⟩ }
        { s' with store := s'.store.push ⟨some f, bindings⟩ } ∧
      D.code w' s.store.frames.size b

/-- A discipline as a correspondence of equal values and equal expressions. -/
def toCorrespondence (D : Discipline) : Correspondence where
  World := D.World
  verbatim := True
  states := D.states
  values w u v := u = v ∧ D.value w u
  code w e x y := x = y ∧ D.code w e x

section

variable {D : Discipline} {α β : Type} {w : D.World} {P : D.World → α → Prop}
  {Q : D.World → β → Prop}

/-- Two computations lead from allowed states to allowed states, with one answer. -/
def Agree (D : Discipline) {α : Type} (w : D.World) (P : D.World → α → Prop)
    (action action' : Eval α) : Prop :=
  D.toCorrespondence.Relates w (fun w' a b => a = b ∧ P w' a) action action'

/-- A computation leads from allowed states to allowed states, with one answer on both sides. -/
def Answers (D : Discipline) {α : Type} (w : D.World) (P : D.World → α → Prop)
    (action : Eval α) : Prop :=
  D.toCorrespondence.Relates w (fun w' a b => a = b ∧ P w' a) action action

namespace Agree

variable {action action' : Eval α} {next next' : α → Eval β}

/-- What allowed runs come to. -/
theorem outcome (h : D.Agree w P action action') {s s' : State} (hs : D.states w s s') :
    ∃ w', w ≤ w' ∧ D.states w' (action s).2 (action' s').2 ∧ (action s).1 = (action' s').1 ∧
      ∀ a, (action s).1 = .ok a → P w' a := by
  obtain ⟨w', hle, hstates, hends⟩ := h s s' hs
  refine ⟨w', hle, hstates, ?_⟩
  revert hends
  rcases (action s).1 with a | d | _ <;> rcases (action' s').1 with b | d' | _ <;> intro hends
  case ok.ok =>
    obtain ⟨rfl, ha⟩ := hends
    exact ⟨rfl, fun _ heq => Outcome.ok.inj heq ▸ ha⟩
  case error.error => exact ⟨congrArg _ (hends.2 trivial), nofun⟩
  case tooDeep.tooDeep => exact ⟨rfl, nofun⟩
  all_goals exact False.elim hends

/-- A success without effect. -/
theorem succeed {a : α} (h : P w a) : D.Agree w P (Eval.succeed a) (Eval.succeed a) :=
  Correspondence.Relates.succeed ⟨rfl, h⟩

/-- A failure without effect. -/
theorem fail (d : Error) : D.Agree w P (Eval.fail d) (Eval.fail d) :=
  Correspondence.Relates.fail rfl fun _ => rfl

/-- Computations one after the other. -/
theorem bind (hfirst : D.Agree w P action action')
    (hnext : ∀ w', w ≤ w' → ∀ a, P w' a → D.Agree w' Q (next a) (next' a)) :
    D.Agree w Q (action >>= next) (action' >>= next') :=
  Correspondence.Relates.bind hfirst fun w' hle a _ hab => hab.1 ▸ hnext w' hle a hab.2

/-- Errors turned into values. -/
theorem attempt (h : D.Agree w P action action') :
    D.Agree w (fun w' result => ∀ a, result = .ok a → P w' a) (Eval.attempt action)
      (Eval.attempt action') := by
  intro s s' hs
  obtain ⟨w', hle, hstates, hsame, hvalue⟩ := h.outcome hs
  refine ⟨w', hle, ?_⟩
  revert hstates hsame hvalue
  unfold Eval.attempt
  rcases action s with ⟨a | d | _, t⟩ <;> rcases action' s' with ⟨b | d' | _, t'⟩ <;>
    intro hstates hsame hvalue
  case ok.ok =>
    exact ⟨hstates, congrArg _ (Outcome.ok.inj hsame), fun _ h => Except.ok.inj h ▸ hvalue a rfl⟩
  case error.error => exact ⟨hstates, congrArg _ (Outcome.error.inj hsame), nofun⟩
  case tooDeep.tooDeep => exact ⟨hstates, trivial⟩
  all_goals cases hsame

end Agree

/-- What an allowed run comes to. -/
theorem Answers.outcome {action : Eval α} (h : D.Answers w P action) {s s' : State}
    (hs : D.states w s s') :
    ∃ w', w ≤ w' ∧ D.states w' (action s).2 (action s').2 ∧ (action s).1 = (action s').1 ∧
      ∀ a, (action s).1 = .ok a → P w' a :=
  Agree.outcome h hs

end

namespace Lawful

variable {D : Discipline} (hD : D.Lawful) {w : D.World} {e : FrameId}

include hD

/-- A name that may be looked up gives the same answer on both sides. -/
theorem relates_lookup {n : String} (h : D.code w e (.symbol n)) :
    D.toCorrespondence.Relates w D.toCorrespondence.values
      (Eval.lookup e (.symbol n)) (Eval.lookup e (.symbol n)) := by
  intro s s' hs
  obtain ⟨hsame, hvalue⟩ := hD.lookup h hs
  rw [Eval.lookup_symbol, Eval.lookup_symbol, ← hsame]
  cases hfound : s.store.lookup? e n with
  | none => exact ⟨w, le_refl w, hs, rfl, fun _ => rfl⟩
  | some v => exact ⟨w, le_refl w, hs, rfl, hvalue hfound⟩

/-- A quoted value is the same on both sides. -/
theorem relates_runQuote {xs : List Value}
    (h : D.code w e (.list (.symbol Form.quote.name :: xs))) :
    D.toCorrespondence.Relates w D.toCorrespondence.values (runQuote xs) (runQuote xs) := by
  match xs with
  | [x] => exact .succeed ⟨rfl, hD.quote h⟩
  | [] | _ :: _ :: _ => exact .fail rfl fun _ => rfl

/-- A lambda form makes the same closure on both sides. -/
theorem relates_runLambda {xs : List Value}
    (h : D.code w e (.list (.symbol Form.lambda.name :: xs))) :
    D.toCorrespondence.Relates w D.toCorrespondence.values (runLambda xs e) (runLambda xs e) := by
  by_cases hparts : ∃ fs b, xs = [.list fs, b]
  · obtain ⟨fs, b, rfl⟩ := hparts
    intro s s' hs
    have htag := (hD.tag hs).1
    obtain ⟨hdepth, w', hle, htagged, hvalue⟩ := hD.lambda h hs
    rw [runLambda_eq, runLambda_eq, ← htag, ← hdepth]
    refine ⟨w', hle, ?_, rfl, hvalue⟩
    have hemitted := hD.emit (.closureMade (.closure s.store.nextTag fs b e) (s.store.depth e))
      htagged
    rwa [← htag] at hemitted
  · simp only [not_exists] at hparts
    rw [runLambda_of_malformed hparts]
    exact .fail rfl fun _ => rfl

/-- The operands of a reserved form, looked at once for both sides. -/
theorem formView {form : Form} {xs : List Value}
    (h : D.code w e (.list (.symbol form.name :: xs))) :
    D.toCorrespondence.FormView w e form xs xs := by
  have hoperands (htakes : form.takesExpressions = true) :
      D.toCorrespondence.FormView w e form xs xs := by
    refine .operands htakes (List.forall₂_same.mpr fun x hx => ⟨rfl, ?_⟩)
    refine hD.operands h (fun other hother => ?_) x hx
    have hname : form.name = other.name := Value.symbol.inj hother
    have hform := Form.ofName?_name form
    rw [hname, Form.ofName?_name] at hform
    rwa [Option.some.inj hform]
  cases form with
  | quote => exact .quote (hD.relates_runQuote h)
  | lambda => exact .lambda (hD.relates_runLambda h)
  | define =>
    by_cases hparts : ∃ n x, xs = [.symbol n, x]
    · obtain ⟨n, x, rfl⟩ := hparts
      obtain ⟨hx, hput⟩ := hD.define h
      refine .define ⟨rfl, hx⟩ fun w' hle u v huv s s' hs => ?_
      obtain ⟨rfl, hu⟩ := huv
      exact ⟨w', le_refl w', hput hle hu hs, trivial⟩
    · simp only [not_exists] at hparts
      have hfail := runDefine_of_malformed hparts
      exact .malformed (fun eval => hfail eval e) (fun eval => hfail eval e) rfl fun _ => rfl
  | assign =>
    by_cases hparts : ∃ n x, xs = [.symbol n, x]
    · obtain ⟨n, x, rfl⟩ := hparts
      obtain ⟨hx, hfind⟩ := hD.assign h
      refine .assign (fun _ => rfl) ⟨rfl, hx⟩ (fun w' hle s s' hs => ?_)
        fun w' hle u v huv s s' hs => ?_
      · rw [(hfind hle hs).1]
      · obtain ⟨rfl, hu⟩ := huv
        obtain ⟨hsame, hput⟩ := hfind hle hs
        rw [Eval.overwrite_symbol, Eval.overwrite_symbol, ← hsame]
        cases hfound : s.store.find? e n with
        | none => exact ⟨w', le_refl w', hs, rfl, fun _ => rfl⟩
        | some target => exact ⟨w', le_refl w', hput hu hfound, trivial⟩
    · simp only [not_exists] at hparts
      have hfail := runAssign_of_malformed hparts
      exact .malformed (fun eval => hfail eval e) (fun eval => hfail eval e) rfl fun _ => rfl
  | choose | plus | minus | times | equals => exact hoperands rfl

/-- An expression looked at once for both sides. -/
theorem view {x : Value} (h : D.code w e x) : D.toCorrespondence.View w e x x := by
  match x with
  | .symbol n => exact .name (hD.relates_lookup h)
  | .number n => exact .number n
  | .boolean b => exact .boolean b
  | .foreign f => exact .foreign f
  | .closure t fs b f => exact .closure ⟨rfl, hD.closure h⟩
  | .list [] => exact .empty
  | .list (.symbol n :: xs) =>
    cases hform : Form.ofName? n with
    | some form =>
      cases Form.name_of_ofName? hform
      exact .form (hD.formView h)
    | none =>
      have hfree (form : Form) : Value.symbol n ≠ .symbol form.name := by
        intro heq
        rw [Value.symbol.inj heq, Form.ofName?_name] at hform
        cases hform
      refine .call hform hform (hD.relates_lookup (hD.head h hfree)) ?_
      exact List.forall₂_same.mpr fun x hx =>
        ⟨rfl, hD.operands h (fun form heq => absurd heq (hfree form)) x hx⟩
  | .list (.closure t fs b f :: xs) =>
    refine .apply ⟨rfl, hD.closure (hD.head h nofun)⟩ ?_
    exact List.forall₂_same.mpr fun x hx => ⟨rfl, hD.operands h nofun x hx⟩
  | .list (.list items :: xs) =>
    refine .compute ⟨rfl, hD.head h nofun⟩ ?_
    exact List.forall₂_same.mpr fun x hx => ⟨rfl, hD.operands h nofun x hx⟩
  | .list (.number _ :: xs) | .list (.boolean _ :: xs) | .list (.foreign _ :: xs) =>
    exact .literalHead (fun _ => rfl) (fun _ => rfl)

/-- Entering a closure opens the same frame on both sides. -/
theorem relates_callFrame {t : Nat} {fs us : List Value} {b : Value} {f : FrameId}
    (hclosure : D.value w (.closure t fs b f)) (hargs : ∀ u ∈ us, D.value w u) :
    D.toCorrespondence.Relates w
      (fun w' g g' => g = g' ∧ D.toCorrespondence.code w' g b b)
      (callFrame (.closure t fs b f) fs f us) (callFrame (.closure t fs b f) fs f us) := by
  by_cases hlength : us.length = fs.length
  · intro s s' hs
    rw [callFrame_eq f hlength, callFrame_eq f hlength]
    cases hformals : bindFormals [] (fs.zip us) with
    | error d => exact ⟨w, le_refl w, hs, rfl, fun _ => rfl⟩
    | ok bindings =>
      obtain ⟨hsize, w', hle, hpushed, hbody⟩ := hD.enter hclosure hargs hformals hs
      exact ⟨w', hle, hpushed, hsize, rfl, hbody⟩
  · rw [callFrame, if_neg hlength]
    exact .fail rfl fun _ => rfl

/-- The laws of a discipline are those of its correspondence. -/
theorem toCorrespondence : D.toCorrespondence.Lawful where
  values_mono hle := fun ⟨heq, hu⟩ => ⟨heq, hD.value_mono hle hu⟩
  code_mono hle := fun ⟨heq, hx⟩ => ⟨heq, hD.code_mono hle hx⟩
  values_eq _ := fun ⟨heq, _⟩ => heq
  code_eq _ := fun ⟨heq, _⟩ => heq
  number w n := ⟨rfl, hD.number w n⟩
  boolean w b := ⟨rfl, hD.boolean w b⟩
  sort := fun ⟨heq, _⟩ => heq ▸ ⟨rfl, rfl, rfl⟩
  same := fun ⟨heq, _⟩ ⟨heq', _⟩ => by rw [heq, heq']
  emit hs hevent := hevent trivial ▸ hD.emit _ hs
  tag := hD.tag
  view := fun ⟨heq, hx⟩ => heq ▸ hD.view hx
  enter := by
    intro w t t' fs fs' b b' f f' us vs hclosure hargs
    obtain ⟨heq, hclosure⟩ := hclosure
    cases heq
    have hsame : us = vs := List.forall₂_eq_eq_eq ▸ hargs.imp fun _ _ h => h.1
    subst hsame
    exact hD.relates_callFrame hclosure fun u hu => (List.forall₂_same.mp hargs u hu).2

/-- Recording an event. -/
theorem emit_agree (event : Event) :
    D.Agree w (fun _ _ => True) (Eval.emit event) (Eval.emit event) :=
  fun _ _ hs => ⟨w, le_refl w, hD.emit event hs, rfl, trivial⟩

/-- Two evaluators that agree on what may be evaluated lead to one level of evaluation that
agrees. -/
theorem evaluateWith_agree {eval eval' : Evaluator}
    (heval : ∀ {w : D.World} {e : FrameId} {x : Value}, D.code w e x →
      D.Agree w D.value (eval x e) (eval' x e)) {x : Value} (h : D.code w e x) :
    D.Agree w D.value (evaluateWith eval x e) (evaluateWith eval' x e) := by
  refine hD.toCorrespondence.relates_evaluateWith ?_ ⟨rfl, h⟩
  rintro w e x _ ⟨rfl, hx⟩
  exact heval hx

/-- Evaluation stays within a lawful discipline and gives the same answer on both sides. -/
theorem evaluate (limit : Nat) {x : Value} (h : D.code w e x) :
    D.Answers w D.value (LexicalLisp.evaluate limit x e) :=
  hD.toCorrespondence.relates_evaluate limit ⟨rfl, h⟩

end Lawful

end Discipline

end LexicalLisp
