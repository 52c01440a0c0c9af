import LexicalLisp.Proofs.Tracking.Requests

/-!
# Frames lie as deep as expressions are nested

In a session that is driven by texts, an expression that lies within the bodies of so many lambda
forms is only ever evaluated in frames with so many frames around them. A closure captures a frame
that is as deep as its lambda form is nested. How deep calls nest has no part in it: closures may
be stored, handed on and called from anywhere.
-/

namespace LexicalLisp

/-- Every evaluation of a session takes place in a frame as deep as its expression is nested, and
every closure captures a frame as deep as its lambda form is nested.

The session is followed from place to place: tracking serves the requests with the same outcomes
and leaves the same state. Every call of evaluation that has depth left is on the trail, with its
frame and the depth that the frame had then. What is on the trail is there with the place that its
expression is written at, and its frame lies as deep as the place is nested, then and at the end.
Every closure that was ever made is in the log, with the depth of its frame. Its tag leads to the
place of its lambda form, which was evaluated there in the frame that the closure captured. The
depth also is right for every closure that a frame of the session holds or that was answered, the
operators of the root included. -/
theorem frame_depth_is_nesting_level (requests : List (Nat × TextRequest)) :
    ∃ root start outcomes final trail, standardRoot {} = (.ok root, start) ∧
      performRequests root requests start = (outcomes, final) ∧
      trackRequests root requests .newSession start = ((outcomes, final), trail) ∧
      (∀ limit x e s, Evaluates root start requests (limit + 1) x e s →
        ∃ place, ⟨place, x, e, s.store.depth e⟩ ∈ trail.visits) ∧
      (∀ visit ∈ trail.visits, visit.place.value? = some visit.expr ∧
        visit.depth = visit.place.level ∧ final.store.depth visit.frame = visit.place.level) ∧
      (∀ v depth, .closureMade v depth ∈ final.log → ∃ c : Closure, v = c.toValue ∧
        depth = (trail.origin c.tag).level ∧ ∃ visit ∈ trail.visits,
          visit.place = trail.origin c.tag ∧ visit.expr = c.lambdaForm ∧ visit.frame = c.frame) ∧
      ∀ c : Closure, ((∃ e, c ∈ final.store.closuresIn e) ∨
          ∃ v, .ok (some v) ∈ outcomes ∧ c ∈ v.closures) →
        (trail.origin c.tag).value? = some c.lambdaForm ∧
          final.store.depth c.frame = (trail.origin c.tag).level := by
  have hroot := Moment.atRoot_newSession
  obtain ⟨n, outcomes, -, hplain, htracked, hanswers⟩ := trackRequests_follows hroot requests
  refine ⟨0, .newSession, outcomes, n.state, n.trail, standardRoot_empty, hplain, htracked,
    fun limit x e s h => (h.passed hroot htracked).exists_visit, fun visit hvisit => ?_,
    fun v depth hv => ?_, fun c hc => ?_⟩
  · obtain ⟨hdepth, hlevel⟩ := n.fits.visits visit hvisit
    exact ⟨hdepth.written, hlevel, hdepth.depth_eq⟩
  · obtain ⟨c, rfl, htraced, visit, hmakes, rfl⟩ := n.fits.logged hv
    obtain ⟨hdepth, hlevel⟩ := n.fits.visits visit hmakes.on_trail
    have hexpr : some visit.expr = some c.lambdaForm := by
      rw [← hdepth.written, hmakes.place_eq, htraced.inDepth.written]
    exact ⟨c, rfl, hmakes.place_eq ▸ hlevel, visit, hmakes.on_trail, hmakes.place_eq,
      Option.some.inj hexpr, hmakes.frame_eq⟩
  · have htraced : c.Traced n.trail n.state.store := by
      rcases hc with ⟨e, hc⟩ | ⟨v, hv, hc⟩
      · exact n.fits.held hc
      · exact hanswers v hv c hc
    exact ⟨htraced.inDepth.written, htraced.inDepth.depth_eq⟩

end LexicalLisp
