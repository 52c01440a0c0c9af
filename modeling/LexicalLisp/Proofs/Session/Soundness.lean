import LexicalLisp.Proofs.Tracking.Requests

/-!
# Sound frames at every moment of a session

From the new root on, the store of a session is sound at every moment: after each request, whether
or not it succeeds, and half-way through one, wherever evaluation starts or ends. Frames are never
moved, and the names of a frame are only ever added to at the end.

All that happens is moves, and tracking passes every call of evaluation, so the states in which
evaluation starts and ends lie between the states in which the requests do.
-/

namespace LexicalLisp

/-- What is written holds no closures, so it may be evaluated in any frame that exists. -/
theorem movingFrom_admitsWritten {start : State} {root : FrameId} {size : Nat}
    (hroot : root < size) : (movingFrom start).AdmitsWritten size root := by
  intro size' hle x hx
  refine ⟨lt_of_lt_of_le hroot hle, fun c hc => ?_⟩
  rw [Value.closures_of_isTree x hx.isTree] at hc
  cases hc

/-- Requests to a frame of a well-formed store call evaluation in states that they have moved to. -/
theorem Evaluates.moves {root : FrameId} {start : State} (hs : start.store.WellFormed)
    (hroot : root < start.store.frames.size) {requests : List (Nat × TextRequest)} {limit : Nat}
    {x : Value} {e : FrameId} {s : State} (h : Evaluates root start requests limit x e s) :
    State.Moves start s := by
  obtain ⟨_, -, -, -, -, hmoves⟩ := h.code (movingFrom_lawful start)
    (movingFrom_admitsWritten hroot) ⟨rfl, rfl, hs, .refl⟩ fun hstates => hstates.1
  exact hmoves

/-- The frames of a session are sound at every moment, stay where they are and keep their names.

The later requests lead on from the earlier ones by moves. At every moment on the way the store is
sound, every frame has the outer link it had after the earlier requests and the names it had then
in front, and both are kept to the end. Wherever the later requests call evaluation, it starts and
ends at such moments. Every closure that a request ever answered captured a frame that exists. -/
theorem session_frames_sound (earlier later : List (Nat × TextRequest)) :
    ∃ root start, standardRoot {} = (.ok root, start) ∧
      State.Moves (performRequests root earlier start).2
        (performRequests root (earlier ++ later) start).2 ∧
      (∀ moment, State.Moves (performRequests root earlier start).2 moment →
        State.Moves moment (performRequests root (earlier ++ later) start).2 →
        moment.store.Sound root ∧
          (performRequests root earlier start).2.store.Grows moment.store ∧
          moment.store.Grows (performRequests root (earlier ++ later) start).2.store) ∧
      (∀ limit x e s, Evaluates root (performRequests root earlier start).2 later limit x e s →
        State.Moves (performRequests root earlier start).2 s ∧
          State.Moves s (evaluate limit x e s).2 ∧
          State.Moves (evaluate limit x e s).2
            (performRequests root (earlier ++ later) start).2) ∧
      ∀ v, .ok (some v) ∈ (performRequests root (earlier ++ later) start).1 → ∀ c ∈ v.closures,
        c.frame < (performRequests root (earlier ++ later) start).2.store.frames.size := by
  have hwf := State.wellFormed_newSession
  have hsize := State.size_newSession
  have hroot : 0 < State.newSession.store.frames.size := hsize ▸ Nat.one_pos
  have hsole : ∀ e < State.newSession.store.frames.size,
      State.newSession.store.outerOf e = none → e = 0 :=
    fun e he _ => Nat.lt_one_iff.mp (hsize ▸ he)
  have hanswered := (performRequests_moves hwf hroot (earlier ++ later)).2
  obtain ⟨m, outcomes, hle, hfirst, -⟩ := trackRequests_follows Moment.atRoot_newSession earlier
  have hroot' := Moment.atRoot_newSession.mono hle
  obtain ⟨n, outcomes', hle', hsecond, htracked, -⟩ := trackRequests_follows hroot' later
  change performRequests 0 earlier .newSession = (outcomes, m.state) at hfirst
  rw [performRequests_append, hfirst, hsecond] at hanswered
  refine ⟨0, State.newSession, standardRoot_empty, ?_⟩
  rw [performRequests_append, hfirst, hsecond]
  refine ⟨hle'.moves, fun moment hbefore hafter => ?_, fun limit x e s h => ?_, hanswered⟩
  · exact ⟨State.Moves.sound (hle.moves.trans hbefore) hwf hsole, hbefore.grows, hafter.grows⟩
  · exact ⟨h.moves m.fits.wellFormed hroot'.1, (h.passed hroot' htracked).moves⟩

end LexicalLisp
