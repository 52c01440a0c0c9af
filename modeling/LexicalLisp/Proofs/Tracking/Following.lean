import LexicalLisp.Proofs.Eval.Steps
import LexicalLisp.Proofs.Tracking.Moments
import Mathlib.Order.UpperLower.CompleteLattice

/-!
# Tracked evaluation follows evaluation

Tracked evaluation of an expression that is in its depth does what evaluation does, and comes to a
moment at which the closures in its answer are traced. This is shown for the single actions, then
for each rule from what it evaluates, and at last for evaluation within any limit.

Two rules decide how deep frames lie. A lambda form captures the frame it is evaluated in, which is
as deep as the form is nested. A call opens a frame inside the captured one, wherever the call is
made, and evaluates the body there, which is nested one deeper than its form.
-/

namespace LexicalLisp

/-- From a moment, the tracked computation leads to a later moment, where an answer has the
property. The plain one ends in the same way and in the same state, unless this moment is past a
point where it takes a course of its own. -/
def Tracked.Follows {α : Type} (parted : UpperSet Moment) (m : Moment) (P : Moment → α → Prop)
    (action : Tracked α) (plain : Eval α) : Prop :=
  ∃ (outcome : Outcome α) (n : Moment), m ≤ n ∧
    action m.trail m.state = ((outcome, n.state), n.trail) ∧
    (n ∉ parted → plain m.state = (outcome, n.state)) ∧ ∀ a, outcome = .ok a → P n a

namespace Tracked.Follows

variable {α β : Type} {parted : UpperSet Moment} {m : Moment} {P : Moment → α → Prop}
  {Q : Moment → β → Prop}

/-- A computation that leaves the trail alone. -/
theorem lift {plain : Eval α} {outcome : Outcome α} (n : Moment) (hle : m ≤ n)
    (htrail : n.trail = m.trail) (h : plain m.state = (outcome, n.state))
    (hanswer : ∀ a, outcome = .ok a → P n a) : Follows parted m P (Tracked.lift plain) plain :=
  ⟨outcome, n, hle, by rw [Tracked.lift, h, htrail], fun _ => h, hanswer⟩

/-- A success without effect. -/
theorem succeed {a : α} (h : P m a) : Follows parted m P (pure a) (pure a) :=
  ⟨.ok a, m, le_refl m, rfl, fun _ => rfl, fun _ heq => Outcome.ok.inj heq ▸ h⟩

/-- A computation that ends without effect and without an answer. -/
theorem stop {plain : Eval α} {outcome : Outcome α} (h : plain m.state = (outcome, m.state))
    (hstop : ∀ a, outcome ≠ .ok a) : Follows parted m P (Tracked.lift plain) plain :=
  lift m (le_refl m) rfl h fun a ha => absurd ha (hstop a)

/-- A failure without effect. -/
theorem fail (d : Error) : Follows parted m P (Tracked.lift (Eval.fail d)) (Eval.fail d) :=
  stop rfl (by simp)

/-- Computations one after the other. -/
theorem bind {action : Tracked α} {plain : Eval α} {next : α → Tracked β} {plainNext : α → Eval β}
    (hfirst : Follows parted m P action plain)
    (hnext : ∀ n, m ≤ n → ∀ a, P n a → Follows parted n Q (next a) (plainNext a)) :
    Follows parted m Q (action >>= next) (plain >>= plainNext) := by
  obtain ⟨outcome, n, hle, haction, hplain, hanswer⟩ := hfirst
  have hbind : (action >>= next) m.trail m.state =
      Tracked.andThen action next m.trail m.state := rfl
  rw [Tracked.andThen, haction] at hbind
  cases outcome with
  | ok a =>
    obtain ⟨outcome, n', hle', haction', hplain', hanswer'⟩ := hnext n hle a (hanswer a rfl)
    refine ⟨outcome, n', le_trans hle hle', hbind.trans haction', fun hn' => ?_, hanswer'⟩
    -- What has not parted in the end has not parted half-way.
    have hn : n ∉ parted := fun h => hn' (parted.upper hle' h)
    exact (Eval.bind_of_ok (hplain hn) plainNext).trans (hplain' hn')
  | error d => exact ⟨.error d, n, hle, hbind, fun hn => Eval.bind_of_error (hplain hn) _, nofun⟩
  | tooDeep => exact ⟨.tooDeep, n, hle, hbind, fun hn => Eval.bind_of_tooDeep (hplain hn) _, nofun⟩

/-- Errors turned into values. -/
theorem attempt {action : Tracked α} {plain : Eval α} (h : Follows parted m P action plain) :
    Follows parted m (fun n result => ∀ a, result = .ok a → P n a) (Tracked.attempt action)
      (Eval.attempt plain) := by
  obtain ⟨outcome, n, hle, haction, hplain, hanswer⟩ := h
  cases outcome with
  | ok a =>
    refine ⟨.ok (.ok a), n, hle, by rw [Tracked.attempt, haction],
      fun hn => by rw [Eval.attempt, hplain hn], ?_⟩
    rintro _ ⟨⟩ b ⟨⟩
    exact hanswer a rfl
  | error d =>
    refine ⟨.ok (.error d), n, hle, by rw [Tracked.attempt, haction],
      fun hn => by rw [Eval.attempt, hplain hn], ?_⟩
    rintro _ ⟨⟩ b ⟨⟩
  | tooDeep =>
    exact ⟨.tooDeep, n, hle, by rw [Tracked.attempt, haction],
      fun hn => by rw [Eval.attempt, hplain hn], nofun⟩

/-- An evaluation that is in its depth is put on the trail before it starts. -/
theorem visited {place : Place} {x : Value} {e : FrameId} {action : Tracked α} {plain : Eval α}
    (h : InDepth m.state.store place x e) (haction : Follows parted (m.visited h) P action plain) :
    Follows parted m P (do
      Tracked.note fun s trail => trail.visited ⟨place, x, e, s.store.depth e⟩
      action) plain := by
  obtain ⟨outcome, n, hle, haction, hplain, hanswer⟩ := haction
  exact ⟨outcome, n, le_trans (Moment.le_visited h) hle, haction, hplain, hanswer⟩

/-- Looking at the frames. -/
theorem getStore : Follows parted m (fun _ _ => True) (Tracked.lift Eval.getStore) Eval.getStore :=
  lift m (le_refl m) rfl rfl fun _ _ => trivial

/-- Recording an event, other than that a closure was made. -/
theorem emit {event : Event} (h : event.isClosureMade = false) :
    Follows parted m (fun _ _ => True) (Tracked.lift (Eval.emit event)) (Eval.emit event) :=
  lift (m.recorded h) (Moment.le_recorded h) rfl rfl fun _ _ => trivial

/-- Using up a tag. -/
theorem freshTag :
    Follows parted m (fun _ _ => True) (Tracked.lift Eval.freshTag) Eval.freshTag :=
  lift m.tagged Moment.le_tagged rfl rfl fun _ _ => trivial

/-- Looking a name up finds a value whose closures are traced. -/
theorem lookup (e : FrameId) (name : String) :
    Follows parted m Moment.Knows (Tracked.lift (Eval.lookup e (.symbol name)))
      (Eval.lookup e (.symbol name)) := by
  refine lift m (le_refl m) rfl (Eval.lookup_symbol e name m.state) fun value hvalue c hc => ?_
  cases hfound : m.state.store.lookup? e name with
  | none =>
    rw [hfound] at hvalue
    cases hvalue
  | some found =>
    rw [hfound] at hvalue
    obtain ⟨g, -, hg⟩ := List.exists_of_findSome?_eq_some hfound
    exact m.fits.held (Store.mem_closuresIn_of_get? hg (Outcome.ok.inj hvalue ▸ hc))

/-- Binding a name in a frame that exists to a known value. -/
theorem bindName {e : FrameId} (he : e < m.state.store.frames.size) (name : String) {value : Value}
    (h : m.Knows value) :
    Follows parted m (fun _ _ => True) (Tracked.lift (Eval.bindName e (.symbol name) value))
      (Eval.bindName e (.symbol name) value) :=
  lift (m.bound he name h) (m.leads_bound he name h) rfl rfl fun _ _ => trivial

/-- Overwriting a name with a known value. -/
theorem overwrite (e : FrameId) (name : String) {value : Value} (h : m.Knows value) :
    Follows parted m (fun _ _ => True) (Tracked.lift (Eval.overwrite e (.symbol name) value))
      (Eval.overwrite e (.symbol name) value) := by
  have heq := Eval.overwrite_symbol e name value m.state
  cases hfound : m.state.store.find? e name with
  | none =>
    rw [hfound] at heq
    exact stop heq (by simp)
  | some target =>
    rw [hfound] at heq
    have htarget := Store.lt_size_of_find? hfound
    exact lift (m.bound htarget name h) (m.leads_bound htarget name h) rfl heq fun _ _ => trivial

end Tracked.Follows

open Tracked (Follows)

variable {parted : UpperSet Moment} {m : Moment} {place : Place} {e : FrameId}

/-- The items of a list from an index on are in their depth. -/
def ItemsInDepth (m : Moment) (place : Place) (e : FrameId) (index : Nat) (items : List Value) :
    Prop :=
  ∀ i x, items[i]? = some x → InDepth m.state.store (place.item (index + i)) x e

namespace ItemsInDepth

variable {index : Nat} {x : Value} {rest : List Value}

/-- Items stay in their depth. -/
theorem mono {items : List Value} (h : ItemsInDepth m place e index items) {n : Moment}
    (hle : m ≤ n) : ItemsInDepth n place e index items :=
  fun i x hx => Moment.inDepth_mono (h i x hx) hle

/-- The first item. -/
theorem head (h : ItemsInDepth m place e index (x :: rest)) :
    InDepth m.state.store (place.item index) x e :=
  h 0 x rfl

/-- The items behind the first one. -/
theorem tail (h : ItemsInDepth m place e index (x :: rest)) :
    ItemsInDepth m place e (index + 1) rest := by
  intro i y hy
  rw [Nat.add_assoc, Nat.add_comm 1 i]
  exact h (i + 1) y hy

/-- The operands of a list that is no lambda form. -/
theorem operands {head : Value} {operands : List Value}
    (h : InDepth m.state.store place (.list (head :: operands)) e)
    (hhead : head ≠ .symbol Form.lambda.name) : ItemsInDepth m place e 1 operands := by
  intro i x hx
  rw [Nat.add_comm]
  exact h.item hhead hx

end ItemsInDepth

/-- A form other than `lambda` has another name. -/
theorem Form.symbol_name_ne {form : Form} (h : form ≠ .lambda) :
    Value.symbol form.name ≠ .symbol Form.lambda.name := by
  intro heq
  have hform := Form.ofName?_name form
  rw [Value.symbol.inj heq, Form.ofName?_name] at hform
  exact h (Option.some.inj hform).symm

/-- The rule of `lambda`: the closure captures the frame that the form is evaluated in. -/
theorem trackLambda_follows {operands : List Value} {started : Visit}
    (hstarted : started ∈ m.trail.visits)
    (hexpr : started.expr = .list (.symbol Form.lambda.name :: operands)) :
    Follows parted m Moment.Knows (trackLambda started.place operands started.frame)
      (runLambda operands started.frame) := by
  unfold trackLambda
  split
  · rename_i formals body
    have hle := m.leads_made started.place formals body started.frame
    refine ⟨_, m.made hstarted hexpr, hle, rfl, fun _ => rfl, fun value hvalue => ?_⟩
    exact Outcome.ok.inj hvalue ▸ Moment.knows_made hstarted hexpr
  · rename_i hparts
    rw [runLambda_of_malformed hparts]
    exact .fail _

/-- Opening the frame of a call: it is inside the captured frame, so it is as deep as the body is
nested, wherever the call is made. -/
theorem callFrame_follows {c : Closure} {arguments : List Value}
    (hclosure : c.Traced m.trail m.state.store) (harguments : ∀ v ∈ arguments, m.Knows v) :
    Follows parted m (fun n f => InDepth n.state.store ((m.trail.origin c.tag).item 2) c.body f)
      (Tracked.lift (callFrame c.toValue c.formals c.frame arguments))
      (callFrame c.toValue c.formals c.frame arguments) := by
  by_cases hlength : arguments.length = c.formals.length
  · have heq : callFrame c.toValue c.formals c.frame arguments m.state = _ :=
      callFrame_eq c.frame hlength m.state
    cases hformals : bindFormals [] (c.formals.zip arguments) with
    | error d =>
      rw [hformals] at heq
      exact .stop heq (by simp)
    | ok bindings =>
      rw [hformals] at heq
      have hlt := hclosure.inDepth.frame_lt
      have hnodup := nodup_bindFormals hformals List.nodup_nil
      have hknown := closures_bindFormals hformals harguments
      refine .lift (m.entered hlt hnodup hknown) (m.leads_entered hlt hnodup hknown) rfl heq
        fun f hf => ?_
      cases hf
      exact hclosure.inDepth.body (m.entered hlt hnodup hknown).fits.wellFormed
  · rw [callFrame, if_neg hlength]
    exact .fail _

section

variable {visit : Visitor} {eval : Evaluator}
  (hvisit : ∀ {m : Moment} {place : Place} {x : Value} {e : FrameId},
    InDepth m.state.store place x e → Follows parted m Moment.Knows (visit place x e) (eval x e))

include hvisit

/-- Evaluating items in a row. -/
theorem trackEach_follows {index : Nat} {items : List Value}
    (h : ItemsInDepth m place e index items) :
    Follows parted m (fun n values => ∀ v ∈ values, n.Knows v) (trackEach visit place e index items)
      (evaluateEach eval e items) := by
  induction items generalizing m index with
  | nil => exact .succeed (by simp)
  | cons x rest ih =>
    refine .bind (hvisit h.head) fun n hle value hvalue => ?_
    refine .bind (ih (h.tail.mono hle)) fun n' hle' values hvalues => ?_
    exact .succeed (List.forall_mem_cons.mpr ⟨hvalue.mono hle', hvalues⟩)

/-- Evaluating numeric items in a row. -/
theorem trackNumbers_follows (form : Form) {index : Nat} {items : List Value}
    (h : ItemsInDepth m place e index items) :
    Follows parted m (fun _ _ => True) (trackNumbers visit place form e index items)
      (evaluateNumbers eval form e items) := by
  induction items generalizing m index with
  | nil => exact .succeed trivial
  | cons x rest ih =>
    refine .bind (hvisit h.head) fun n hle value _ => ?_
    cases value with
    | number k => exact .bind (ih (h.tail.mono hle)) fun _ _ _ _ => .succeed trivial
    | _ => exact .fail _

/-- An arithmetic form. -/
theorem trackArithmetic_follows (form : Form) (combine : List Float → Float) {operands : List Value}
    (h : ItemsInDepth m place e 1 operands) :
    Follows parted m Moment.Knows (trackArithmetic visit place form combine operands e)
      (runArithmetic eval form combine operands e) := by
  refine .bind (trackNumbers_follows hvisit form h) fun _ _ numbers _ => ?_
  refine .bind (.emit rfl) fun _ _ _ _ => ?_
  exact .bind .freshTag fun _ _ _ _ => .succeed (Moment.knows_of_closures_eq_nil rfl)

/-- The rule of `if`. -/
theorem trackChoose_follows {operands : List Value} (h : ItemsInDepth m place e 1 operands) :
    Follows parted m Moment.Knows (trackChoose visit place operands e)
      (runChoose eval operands e) := by
  match operands, h with
  | [test, whenTrue, whenFalse], h =>
    refine .bind (hvisit h.head) fun n hle condition _ => ?_
    have hrest := h.tail.mono hle
    split
    · exact hvisit hrest.tail.head
    · exact hvisit hrest.head
  | [], _ | [_], _ | [_, _], _ | _ :: _ :: _ :: _ :: _, _ => exact .fail _

/-- The rule of `define`. -/
theorem trackDefine_follows {operands : List Value} (h : ItemsInDepth m place e 1 operands) :
    Follows parted m Moment.Knows (trackDefine visit place operands e)
      (runDefine eval operands e) := by
  unfold trackDefine
  split
  · rename_i name x
    refine .bind (hvisit h.tail.head) fun n hle value hvalue => ?_
    have he := (h.mono hle).head.frame_lt
    exact .bind (.bindName he name hvalue) fun n' hle' _ _ => .succeed (hvalue.mono hle')
  · rename_i hparts
    rw [runDefine_of_malformed hparts, runDefine_of_malformed hparts]
    exact .fail _

/-- The rule of `set!`. -/
theorem trackAssign_follows {operands : List Value} (h : ItemsInDepth m place e 1 operands) :
    Follows parted m Moment.Knows (trackAssign visit place operands e)
      (runAssign eval operands e) := by
  unfold trackAssign
  split
  · rename_i name x
    refine .bind .getStore fun n hle store _ => ?_
    split
    · exact .fail _
    · refine .bind (hvisit (h.mono hle).tail.head) fun n _ value hvalue => ?_
      exact .bind (.overwrite e name hvalue) fun n' hle _ _ => .succeed (hvalue.mono hle)
  · rename_i hparts
    rw [runAssign_of_malformed hparts, runAssign_of_malformed hparts]
    exact .fail _

/-- The rule of `=`. -/
theorem trackEquals_follows {operands : List Value} (h : ItemsInDepth m place e 1 operands) :
    Follows parted m Moment.Knows (trackEquals visit place operands e)
      (runEquals eval operands e) := by
  unfold trackEquals runEquals
  split
  · exact .fail _
  · refine .bind (trackEach_follows hvisit h) fun _ _ values _ => ?_
    exact .succeed (Moment.knows_of_closures_eq_nil rfl)

/-- Running a reserved form whose evaluation has started. -/
theorem Form.track_follows (form : Form) {operands : List Value} {started : Visit}
    (hstarted : started ∈ m.trail.visits)
    (hexpr : started.expr = .list (.symbol form.name :: operands)) :
    Follows parted m Moment.Knows (form.track visit started.place operands started.frame)
      (form.run eval operands started.frame) := by
  have hitems (hne : form ≠ .lambda) : ItemsInDepth m started.place started.frame 1 operands :=
    .operands (hexpr ▸ (m.fits.visits started hstarted).1) (Form.symbol_name_ne hne)
  cases form with
  | quote =>
    match operands, hitems (by decide) with
    | [x], hitems =>
      refine .lift m (le_refl m) rfl rfl fun value hvalue => ?_
      cases hvalue
      exact Moment.knows_written hitems.head.written
    | [], _ | _ :: _ :: _, _ => exact .fail _
  | choose => exact trackChoose_follows hvisit (hitems (by decide))
  | define => exact trackDefine_follows hvisit (hitems (by decide))
  | lambda => exact trackLambda_follows hstarted hexpr
  | assign => exact trackAssign_follows hvisit (hitems (by decide))
  | plus => exact trackArithmetic_follows hvisit .plus sumOf (hitems (by decide))
  | minus =>
    change Follows parted m Moment.Knows (if operands.isEmpty then _ else _)
      (if operands.isEmpty then _ else _)
    split
    · exact .fail _
    · exact trackArithmetic_follows hvisit .minus differenceOf (hitems (by decide))
  | times => exact trackArithmetic_follows hvisit .times productOf (hitems (by decide))
  | equals => exact trackEquals_follows hvisit (hitems (by decide))

/-- Calling a closure evaluates its body where the tag of the closure leads. -/
theorem trackCall_follows {c : Closure} {arguments : List Value} (hclosure : m.Knows c.toValue)
    (harguments : ∀ v ∈ arguments, m.Knows v) :
    Follows parted m Moment.Knows (trackCall visit c arguments)
      (callClosure eval c.tag c.formals c.body c.frame arguments) := by
  have htraced : c.Traced m.trail m.state.store := hclosure c List.mem_cons_self
  refine .bind (callFrame_follows htraced harguments) fun n hle f hbody => ?_
  refine .bind (.emit rfl) fun n' hle' _ _ => ?_
  -- The tag has led to the same form since before the frame was opened.
  have hplace := (le_trans hle hle').origin_eq c.tag htraced.tag_lt
  exact hvisit (hplace.symm ▸ Moment.inDepth_mono hbody hle')

/-- Evaluating operands and applying a function to them. -/
theorem trackApply_follows {function : Value} (hfunction : m.Knows function) (otherwise : Error)
    {operands : List Value} (h : ItemsInDepth m place e 1 operands) :
    Follows parted m Moment.Knows (trackApply visit place function otherwise operands e)
      (callWith eval function otherwise operands e) := by
  cases function with
  | closure tag formals body frame =>
    refine .bind (trackEach_follows hvisit h) fun n hle arguments harguments => ?_
    exact trackCall_follows hvisit (c := ⟨tag, formals, body, frame⟩) (hfunction.mono hle)
      harguments
  | _ => exact .fail _

/-- Evaluating a list, when its evaluation has started. -/
theorem trackList_follows {head : Value} {operands : List Value} {started : Visit}
    (hstarted : started ∈ m.trail.visits) (hexpr : started.expr = .list (head :: operands)) :
    Follows parted m Moment.Knows (trackList visit started.place head operands started.frame)
      (evaluateList eval head operands started.frame) := by
  have h : InDepth m.state.store started.place (.list (head :: operands)) started.frame :=
    hexpr ▸ (m.fits.visits started hstarted).1
  cases head with
  | symbol name =>
    cases hform : Form.ofName? name with
    | some form =>
      cases Form.name_of_ofName? hform
      simp only [trackList, evaluateList, hform]
      exact form.track_follows hvisit hstarted hexpr
    | none =>
      have hne : Value.symbol name ≠ .symbol Form.lambda.name := by
        intro heq
        rw [Value.symbol.inj heq, Form.ofName?_name] at hform
        cases hform
      simp only [trackList, evaluateList, hform]
      refine .bind (.lookup started.frame name) fun n hle function hfunction => ?_
      exact trackApply_follows hvisit hfunction _ ((ItemsInDepth.operands h hne).mono hle)
  | list items =>
    have hhead : InDepth m.state.store (started.place.item 0) (.list items) started.frame :=
      h.item (by simp) rfl
    refine .bind (hvisit hhead) fun n hle function hfunction => ?_
    exact trackApply_follows hvisit hfunction _ ((ItemsInDepth.operands h (by simp)).mono hle)
  | closure => cases Place.isTree_of_value? h.written
  | number | boolean | foreign => exact .fail _

/-- The rule for an expression whose evaluation has started. -/
theorem trackRule_follows {x : Value} (h : InDepth m.state.store place x e) :
    Follows parted (m.visited h) Moment.Knows (trackRule visit place x e)
      (evaluateWith eval x e) := by
  match x, h with
  | .symbol name, _ => exact .lookup e name
  | .number n, _ => exact .succeed (Moment.knows_of_closures_eq_nil rfl)
  | .list [], _ => exact .fail _
  | .list (head :: operands), h =>
    have hstarted : ⟨place, .list (head :: operands), e, m.state.store.depth e⟩ ∈
        (m.visited h).trail.visits := List.mem_cons_self
    exact trackList_follows hvisit hstarted rfl
  | .boolean _, h | .closure .., h | .foreign _, h => cases Place.isTree_of_value? h.written

/-- One level of evaluation. -/
theorem trackWith_follows {x : Value} (h : InDepth m.state.store place x e) :
    Follows parted m Moment.Knows (trackWith visit place x e) (evaluateWith eval x e) :=
  .visited h (trackRule_follows hvisit h)

end

/-- Tracked evaluation follows evaluation within the same limit. -/
theorem track_follows (parted : UpperSet Moment) (limit : Nat) {x : Value}
    (h : InDepth m.state.store place x e) :
    Follows parted m Moment.Knows (track limit place x e) (evaluate limit x e) := by
  induction limit generalizing m place x e with
  | zero => exact .stop rfl (by simp)
  | succ limit ih => exact trackWith_follows ih h

/-- Tracked evaluation within any depth at all leaves the evaluation on the trail. -/
theorem exists_visited_of_track (limit : Nat) {x : Value} (h : InDepth m.state.store place x e) :
    ∃ outcome n, m.visited h ≤ n ∧
      track (limit + 1) place x e m.trail m.state = ((outcome, n.state), n.trail) := by
  obtain ⟨outcome, n, hle, htracked, -⟩ :=
    trackRule_follows (track_follows ⊤ limit) h
  exact ⟨outcome, n, hle, htracked⟩

end LexicalLisp
