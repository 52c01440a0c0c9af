import LexicalLisp.Proofs.Session.Plain
import LexicalLisp.Proofs.Tracking.Following

/-!
# Tracked requests

Tracked requests to a root have the outcomes of the requests and leave the same state. Evaluation is
not called anywhere else: every call of it in the course of the requests is an evaluation that
tracking passes, so it is on the trail, and its state lies on the way.

That no call escapes tracking is shown without a look at the rules. Suppose that a rule asks for an
evaluation that tracking does not pass. An evaluator that answers this question alone in another way
then is followed just as well, to the same end, so the answer makes no difference.
-/

namespace LexicalLisp

open Tracked (Follows)

variable {parted : UpperSet Moment} {m : Moment} {root : FrameId}

/-- The frame exists and has no frame around it. -/
def Moment.AtRoot (m : Moment) (root : FrameId) : Prop :=
  root < m.state.store.frames.size ∧ m.state.store.depth root = 0

/-- A root stays one. -/
theorem Moment.AtRoot.mono (h : m.AtRoot root) {n : Moment} (hle : m ≤ n) : n.AtRoot root :=
  ⟨lt_of_lt_of_le h.1 hle.extends_store.size_le,
    (hle.extends_store.depth_eq n.fits.wellFormed h.1).trans h.2⟩

/-- An expression of a text is in its depth in a root. -/
theorem Moment.AtRoot.inDepth (h : m.AtRoot root) {source : String} {index : Nat} {x : Value}
    (hx : (Place.top source index).value? = some x) :
    InDepth m.state.store (.top source index) x root :=
  ⟨hx, h.1, h.2⟩

section

variable {visit : Visitor} {eval : Evaluator}
  (hvisit : ∀ {m : Moment} {place : Place} {x : Value} {e : FrameId},
    InDepth m.state.store place x e → Follows parted m Moment.Knows (visit place x e) (eval x e))

include hvisit

/-- Evaluating the expressions of a text in order, from an index on. -/
theorem trackSequence_follows {source : String} {index : Nat} {last : Value} {exprs : List Value}
    (hroot : m.AtRoot root) (hlast : m.Knows last)
    (hexprs : ∀ i x, exprs[i]? = some x → (Place.top source (index + i)).value? = some x) :
    Follows parted m Moment.Knows (trackSequence visit root source index last exprs)
      (sequenceWith eval root last exprs) := by
  induction exprs generalizing m index last with
  | nil => exact .succeed hlast
  | cons x rest ih =>
    refine .bind (hvisit (hroot.inDepth (hexprs 0 x rfl))) fun n hle value hvalue => ?_
    refine ih (hroot.mono hle) hvalue fun i y hy => ?_
    rw [Nat.add_assoc, Nat.add_comm 1 i]
    exact hexprs (i + 1) y hy

/-- Serving a request. -/
theorem TextRequest.track_follows (hroot : m.AtRoot root) (request : TextRequest) :
    Follows parted m (fun n answer => ∀ v, answer = some v → n.Knows v) (request.track visit root)
      (request.performWith eval root) := by
  have hfailed {n : Moment} (d : Error) :
      Follows parted n (fun n' answer => ∀ v, answer = some v → n'.Knows v)
        (do Tracked.lift (Eval.emit (.sourceFailed d)); Tracked.lift (Eval.fail d))
        (do Eval.emit (.sourceFailed d); Eval.fail d) :=
    .bind (.emit rfl) fun _ _ _ _ => .fail d
  have hexprs {source : String} {exprs : List Value} (hread : readAll source = .ok exprs) :
      Follows parted m Moment.Knows (trackSequence visit root source 0 (.list []) exprs)
        (sequenceWith eval root (.list []) exprs) := by
    refine trackSequence_follows hvisit hroot (Moment.knows_of_closures_eq_nil rfl) fun i x hx => ?_
    rw [Nat.zero_add, Place.value?_of_readAll hread, hx]
  cases request with
  | evaluate source =>
    simp only [TextRequest.track, TextRequest.performWith]
    cases hread : readAll source with
    | error fault => exact .fail _
    | ok exprs =>
      cases exprs with
      | nil => exact .fail _
      | cons x rest =>
        exact .bind (hexprs hread) fun _ _ value hvalue =>
          .succeed fun v hv => Option.some.inj hv ▸ hvalue
  | first source =>
    simp only [TextRequest.track, TextRequest.performWith]
    cases hread : readFirst source with
    | error fault => exact hfailed _
    | ok x =>
      refine .bind (.emit rfl) fun n hle _ _ => ?_
      have hx := (hroot.mono hle).inDepth (Place.value?_of_readFirst hread)
      refine .bind (hvisit hx).attempt fun n' _ result hresult => ?_
      cases result with
      | ok value => exact .succeed fun v hv => Option.some.inj hv ▸ hresult value rfl
      | error d => exact hfailed d
  | load source =>
    simp only [TextRequest.track, TextRequest.performWith]
    cases hread : readAll source with
    | error fault => exact .fail _
    | ok exprs => exact .bind (hexprs hread) fun _ _ _ _ => .succeed (by simp)

end

/-- Serving requests one after another. -/
theorem trackRequests_follows (hroot : m.AtRoot root) (requests : List (Nat × TextRequest)) :
    ∃ n outcomes, m ≤ n ∧ performRequests root requests m.state = (outcomes, n.state) ∧
      trackRequests root requests m.trail m.state = ((outcomes, n.state), n.trail) ∧
      ∀ v, .ok (some v) ∈ outcomes → n.Knows v := by
  induction requests generalizing m with
  | nil => exact ⟨m, [], le_refl m, rfl, rfl, by simp⟩
  | cons call rest ih =>
    obtain ⟨limit, request⟩ := call
    obtain ⟨outcome, n, hle, hfirst, hperformed, hanswer⟩ :=
      request.track_follows (track_follows ⊤ limit) hroot
    have hperform : request.perform limit root m.state = (outcome, n.state) := by
      rw [← request.performWith_evaluate]
      exact hperformed id
    obtain ⟨n', outcomes, hle', hplain, htracked, hanswers⟩ := ih (hroot.mono hle)
    refine ⟨n', outcome :: outcomes, le_trans hle hle', ?_, ?_, ?_⟩
    · change ((request.perform limit root m.state).1 ::
          (performRequests root rest (request.perform limit root m.state).2).1,
        (performRequests root rest (request.perform limit root m.state).2).2) = _
      rw [hperform, hplain]
    · rw [trackRequests, hfirst]
      simp only [htracked]
    · intro v hv
      rcases List.mem_cons.mp hv with hv | hv
      · exact (hanswer _ hv.symm v rfl).mono hle'
      · exact hanswers v hv

/-- Requests after others are tracked from the state and the trail that these leave. -/
theorem trackRequests_append (root : FrameId) (first second : List (Nat × TextRequest))
    (trail : Trail) (s : State) :
    trackRequests root (first ++ second) trail s =
      (let ((outcomes, t), trail') := trackRequests root first trail s
       let ((outcomes', u), trail'') := trackRequests root second trail' t
       ((outcomes ++ outcomes', u), trail'')) := by
  induction first generalizing trail s with
  | nil => rfl
  | cons call rest ih => simp only [List.cons_append, trackRequests, ih]

/-- A tracked run ends in one moment only. -/
theorem Moment.eq_of_ends {β : Type} {run : (β × State) × Trail} {a b : β} {n : Moment}
    (h : run = ((a, m.state), m.trail)) (h' : run = ((b, n.state), n.trail)) : m = n := by
  have hends := h.symm.trans h'
  exact Moment.ext (congrArg Prod.snd hends) (congrArg (fun run => run.1.2) hends)

/-- On the way to a last moment, tracking passes the evaluation of an expression that is in its
depth, in this frame and this state. -/
def Moment.Passed (final : Moment) (limit : Nat) (x : Value) (e : FrameId) (s : State) : Prop :=
  ∃ (place : Place) (before after : Moment) (outcome : Outcome Value), before.state = s ∧
    InDepth before.state.store place x e ∧
    track limit place x e before.trail before.state = ((outcome, after.state), after.trail) ∧
    after ≤ final

namespace Moment.Passed

variable {final : Moment} {limit : Nat} {x : Value} {e : FrameId} {s : State}

/-- What was passed stays so. -/
theorem mono (h : m.Passed limit x e s) (hle : m ≤ final) : final.Passed limit x e s := by
  obtain ⟨place, before, after, outcome, hstate, hdepth, htracked, hafter⟩ := h
  exact ⟨place, before, after, outcome, hstate, hdepth, htracked, le_trans hafter hle⟩

/-- An evaluation that was passed starts and ends on the way. -/
theorem moves (h : final.Passed limit x e s) :
    State.Moves s (evaluate limit x e s).2 ∧
      State.Moves (evaluate limit x e s).2 final.state := by
  obtain ⟨place, before, after, outcome, rfl, hdepth, htracked, hafter⟩ := h
  obtain ⟨outcome', n, hle, hends, hplain, -⟩ := track_follows ⊤ limit hdepth
  obtain rfl := Moment.eq_of_ends hends htracked
  rw [hplain id]
  exact ⟨hle.moves, hafter.moves⟩

/-- An evaluation that was passed is on the trail, unless there was no depth for it. -/
theorem exists_visit (h : final.Passed (limit + 1) x e s) :
    ∃ place, ⟨place, x, e, s.store.depth e⟩ ∈ final.trail.visits := by
  obtain ⟨place, before, after, outcome, rfl, hdepth, htracked, hafter⟩ := h
  obtain ⟨outcome', n, hle, hends⟩ := exists_visited_of_track limit hdepth
  obtain rfl := Moment.eq_of_ends hends htracked
  exact ⟨place, hafter.visits_subset (hle.visits_subset List.mem_cons_self)⟩

end Moment.Passed

/-- What a rule asks for is passed where the rule is tracked, if tracking follows the rule with any
evaluator that evaluation is tracked for. -/
theorem Moment.passed_of_asks {α : Type} {P : Moment → α → Prop} {tracked : Tracked α}
    {rule : Evaluator → Eval α} {limit : Nat} {x : Value} {e : FrameId} {s : State}
    (hrule : ∀ (parted : UpperSet Moment) (eval : Evaluator),
      (∀ {m : Moment} {place : Place} {x : Value} {e : FrameId}, InDepth m.state.store place x e →
        Follows parted m Moment.Knows (track limit place x e) (eval x e)) →
      Follows parted m P tracked (rule eval))
    (h : Asks rule (evaluate limit) m.state x e s) :
    ∃ (outcome : Outcome α) (n : Moment), m ≤ n ∧
      tracked m.trail m.state = ((outcome, n.state), n.trail) ∧ n.Passed limit x e s := by
  obtain ⟨other, hagree, hchanged⟩ := h
  let passed : UpperSet Moment := ⟨{n | n.Passed limit x e s}, fun _ _ hle h => h.mono hle⟩
  -- The evaluators part at the question only, and where it is answered it is passed.
  have hother : ∀ {m : Moment} {place : Place} {y : Value} {g : FrameId},
      InDepth m.state.store place y g →
        Follows passed m Moment.Knows (track limit place y g) (other y g) := by
    intro m place y g hdepth
    obtain ⟨outcome, n, hle, htracked, hplain, hknown⟩ := track_follows ⊤ limit hdepth
    refine ⟨outcome, n, hle, htracked, fun hn => ?_, hknown⟩
    rw [hagree, hplain id]
    rintro ⟨rfl, rfl, rfl⟩
    exact hn ⟨place, m, n, outcome, rfl, hdepth, htracked, le_refl n⟩
  obtain ⟨outcome, n, hle, htracked, hplain, -⟩ := hrule ⊤ (evaluate limit) (track_follows ⊤ limit)
  obtain ⟨outcome', n', -, htracked', hplain', -⟩ := hrule passed other hother
  obtain ⟨hsame, -⟩ := Prod.mk.inj (htracked'.symm.trans htracked)
  obtain rfl := Moment.eq_of_ends htracked' htracked
  refine ⟨outcome, _, hle, htracked, Classical.byContradiction fun hn => hchanged ?_⟩
  rw [hplain' hn, hplain id, hsame]

/-- In the course of requests, tracking passes every call of evaluation. -/
theorem Evaluates.passed (hroot : m.AtRoot root) {requests : List (Nat × TextRequest)}
    {limit : Nat} {x : Value} {e : FrameId} {s : State}
    (h : Evaluates root m.state requests limit x e s) {final : Moment}
    {outcomes : List (Outcome (Option Value))}
    (hfinal : trackRequests root requests m.trail m.state =
      ((outcomes, final.state), final.trail)) : final.Passed limit x e s := by
  induction h with
  | @asked earlier later limit request x e s hplace hasks =>
    obtain ⟨n, outcomes₀, hle, hearlier, htracked, -⟩ := trackRequests_follows hroot earlier
    rw [hearlier] at hasks
    obtain ⟨outcome, n', hle', hrequest, hpassed⟩ := Moment.passed_of_asks
      (fun _ _ hvisit => request.track_follows hvisit (hroot.mono hle)) hasks
    obtain ⟨n'', outcomes', hle'', -, hlater, -⟩ :=
      trackRequests_follows (hroot.mono (le_trans hle hle')) later
    rw [hplace, trackRequests_append, htracked] at hfinal
    simp only [trackRequests, hrequest, hlater] at hfinal
    obtain rfl := Moment.eq_of_ends rfl hfinal
    exact hpassed.mono hle''
  | @within limit x y e g s t _ hasks ih =>
    obtain ⟨place, before, after, outcome, rfl, hdepth, htracked, hafter⟩ := ih
    obtain ⟨outcome', n, -, hends, hpassed⟩ := Moment.passed_of_asks
      (fun _ _ hvisit => trackWith_follows hvisit hdepth) hasks
    obtain rfl := Moment.eq_of_ends hends htracked
    exact hpassed.mono hafter

/-- The trail of a session that has just begun: the four operators are where their tags lead. -/
def Trail.newSession : Trail where
  visits := []
  origin
    | 0 => .operator .plus
    | 1 => .operator .minus
    | 2 => .operator .times
    | _ => .operator .equals

/-- The first moment of a session. -/
def Moment.newSession : Moment where
  trail := .newSession
  state := .newSession
  fits :=
    { wellFormed := State.wellFormed_newSession
      held := by
        intro e c hc
        rcases Store.mem_closuresIn_push hc with hold | ⟨-, binding, hmem, hnew⟩
        · cases hold
        · have hoperator : c ∈ (standardBindings 0 0).flatMap fun binding => binding.2.closures :=
            List.mem_flatMap.mpr ⟨binding, hmem, hnew⟩
          rw [closures_standardBindings] at hoperator
          simp only [List.mem_cons, List.not_mem_nil, or_false] at hoperator
          rcases hoperator with rfl | rfl | rfl | rfl <;>
            exact ⟨by decide, rfl, by decide, rfl⟩
      logged := fun hlog => absurd hlog (Array.not_mem_empty _)
      visits := fun _ hvisit => absurd hvisit List.not_mem_nil }

/-- The root of a new session is one. -/
theorem Moment.atRoot_newSession : Moment.newSession.AtRoot 0 :=
  ⟨by decide, rfl⟩

end LexicalLisp
