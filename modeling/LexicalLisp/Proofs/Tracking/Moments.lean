import LexicalLisp.Proofs.Eval.Moves
import LexicalLisp.Proofs.Store.Finding
import LexicalLisp.Proofs.Tracking.Run

/-!
# Trails that fit a state

An expression is in its depth if the frame it is evaluated in lies as deep as the place of the
expression is nested. A trail fits a state if this holds of every evaluation on it, and of the
lambda form of every closure that a frame holds or the log mentions.

Frames never move, so the depth of a frame is what it was when the frame was new. A trail that fits
goes on fitting through every change that evaluation makes. A moment is a state with a trail that
fits it, and a later moment is one that is come to by single moves, with nothing taken off the
trail.
-/

namespace LexicalLisp

namespace Store

/-- A frame that stays where it is keeps the frames around it. -/
theorem Extends.chain_eq {s t : Store} (h : s.Extends t) (ht : t.WellFormed) {e : FrameId}
    (he : e < s.frames.size) : t.chain e = s.chain e := by
  have hnested : ∀ {e o : Nat}, s.outerOf e = some o → o < e := fun houter =>
    ht.outer_lt ((h.outer_eq _ (lt_size_of_outerOf houter)).trans houter)
  induction e using Nat.strongRecOn with
  | ind e ih =>
    rw [Store.chain_eq ht.outer_lt (lt_of_lt_of_le he h.size_le), Store.chain_eq hnested he,
      h.outer_eq e he]
    cases houter : s.outerOf e with
    | none => rfl
    | some o =>
      have ho := hnested houter
      exact congrArg (e :: ·) (ih o ho (lt_trans ho he))

/-- A frame that stays where it is keeps its depth. -/
theorem Extends.depth_eq {s t : Store} (h : s.Extends t) (ht : t.WellFormed) {e : FrameId}
    (he : e < s.frames.size) : t.depth e = s.depth e := by
  rw [depth, depth, h.chain_eq ht he]

/-- A store that grows extends the earlier one. -/
theorem Grows.extends {s t : Store} (h : s.Grows t) : s.Extends t where
  size_le := h.size_le
  outer_eq := h.outer_eq
  still_binds hbinds := by
    rw [binds_iff] at hbinds ⊢
    exact (h.names_prefix _).subset hbinds

/-- A new frame lies one deeper than the frame it is inside of. -/
theorem depth_push {s : Store} {frame : Frame} {outer : FrameId} (houter : frame.outer = some outer)
    (hlt : outer < s.frames.size) (h : (s.push frame).WellFormed) :
    (s.push frame).depth s.frames.size = s.depth outer + 1 := by
  have hlink : (s.push frame).outerOf s.frames.size = some outer := by
    rw [outerOf_push, if_pos rfl, houter]
  have hnew : s.frames.size < (s.push frame).frames.size := by
    rw [size_push]
    exact Nat.lt_succ_self _
  have hold : (s.push frame).chain outer = s.chain outer := (Extends.push s frame).chain_eq h hlt
  have hchain : (s.push frame).chain s.frames.size = s.frames.size :: s.chain outer := by
    rw [Store.chain_eq h.outer_lt hnew, hlink]
    exact congrArg (s.frames.size :: ·) hold
  have hpos : 0 < (s.chain outer).length := by
    rw [← hold, Store.chain_eq h.outer_lt (lt_trans hlt hnew)]
    exact Nat.succ_pos _
  rw [depth, hchain, List.length_cons, depth]
  omega

end Store

/-- The event says that a closure was made. -/
def Event.isClosureMade : Event → Bool
  | .closureMade _ _ => true
  | _ => false

/-- The lambda form that a closure is made from. -/
def Closure.lambdaForm (c : Closure) : Value :=
  .lambdaForm c.formals c.body

/-- The expression is written at the place, and the frame lies as deep as the place is nested. -/
structure InDepth (store : Store) (place : Place) (expr : Value) (e : FrameId) : Prop where
  written : place.value? = some expr
  frame_lt : e < store.frames.size
  depth_eq : store.depth e = place.level

namespace InDepth

variable {store later : Store} {place : Place} {x : Value} {e : FrameId}

/-- Frames keep their depth. -/
theorem mono (h : InDepth store place x e) (hext : store.Extends later) (hwf : later.WellFormed) :
    InDepth later place x e where
  written := h.written
  frame_lt := lt_of_lt_of_le h.frame_lt hext.size_le
  depth_eq := (hext.depth_eq hwf h.frame_lt).trans h.depth_eq

/-- Items of a list that is no lambda form are nested no deeper than the list. -/
theorem item {head : Value} {operands : List Value} {index : Nat}
    (h : InDepth store place (.list (head :: operands)) e) (hhead : head ≠ .symbol Form.lambda.name)
    (hx : (head :: operands)[index]? = some x) : InDepth store (place.item index) x e where
  written := Place.value?_item h.written hx
  frame_lt := h.frame_lt
  depth_eq := by
    rw [Place.level_item h.written (Value.isLambdaForm_of_head_ne hhead operands)]
    exact h.depth_eq

/-- A new frame inside the one that a lambda form is evaluated in lies as deep as the body is
nested. -/
theorem body {formals : List Value} {b : Value} {bindings : Bindings}
    (h : InDepth store place (.lambdaForm formals b) e)
    (hwf : (store.push ⟨some e, bindings⟩).WellFormed) :
    InDepth (store.push ⟨some e, bindings⟩) (place.item 2) b store.frames.size where
  written := Place.value?_item h.written rfl
  frame_lt := by
    rw [Store.size_push]
    exact Nat.lt_succ_self _
  depth_eq := by
    rw [Store.depth_push rfl h.frame_lt hwf, Place.level_body h.written, h.depth_eq]

end InDepth

/-- The tag of the closure leads to its lambda form, in whose depth it captured a frame. -/
structure Closure.Traced (c : Closure) (trail : Trail) (store : Store) : Prop where
  tag_lt : c.tag < store.nextTag
  inDepth : InDepth store (trail.origin c.tag) c.lambdaForm c.frame

/-- An evaluation on the trail, of the lambda form that the tag of the closure leads to, in the
frame that the closure captured. -/
structure Visit.Makes (visit : Visit) (trail : Trail) (c : Closure) : Prop where
  on_trail : visit ∈ trail.visits
  place_eq : visit.place = trail.origin c.tag
  frame_eq : visit.frame = c.frame

/-- Every evaluation on the trail is in its depth. Every closure that is held by a frame or was ever
made is traced by the trail, and the latter were made by evaluations on it. -/
structure Trail.Fits (trail : Trail) (s : State) : Prop where
  wellFormed : s.store.WellFormed
  visits : ∀ visit ∈ trail.visits, InDepth s.store visit.place visit.expr visit.frame ∧
    visit.depth = visit.place.level
  held : ∀ {e : FrameId} {c : Closure}, c ∈ s.store.closuresIn e → c.Traced trail s.store
  logged : ∀ {v : Value} {depth : Nat}, .closureMade v depth ∈ s.log →
    ∃ c : Closure, v = c.toValue ∧ c.Traced trail s.store ∧
      ∃ visit : Visit, visit.Makes trail c ∧ visit.depth = depth

/-- A state and a trail that come later: the state is moved to, evaluations stay on the trail, and
tags in use lead where they led. -/
structure Trail.Leads (trail : Trail) (s : State) (trail' : Trail) (t : State) : Prop where
  moves : State.Moves s t
  tag_le : s.store.nextTag ≤ t.store.nextTag
  visits_subset : trail.visits ⊆ trail'.visits
  origin_eq : ∀ tag < s.store.nextTag, trail'.origin tag = trail.origin tag

/-- What comes later extends the store. -/
theorem Trail.Leads.extends_store {trail trail' : Trail} {s t : State}
    (h : trail.Leads s trail' t) : s.store.Extends t.store :=
  h.moves.grows.extends

/-- Where only the state changes, it has to be moved to, with the tags in use. -/
theorem Trail.leads_of_move (trail : Trail) {s t : State} (hmove : State.Move s t)
    (htag : s.store.nextTag ≤ t.store.nextTag) : trail.Leads s trail t :=
  ⟨.single hmove, htag, List.Subset.refl _, fun _ _ => rfl⟩

/-- A closure that is traced stays so. -/
theorem Closure.Traced.mono {c : Closure} {trail trail' : Trail} {s t : State}
    (h : c.Traced trail s.store) (hleads : trail.Leads s trail' t) (hwf : t.store.WellFormed) :
    c.Traced trail' t.store where
  tag_lt := lt_of_lt_of_le h.tag_lt hleads.tag_le
  inDepth := by
    rw [hleads.origin_eq c.tag h.tag_lt]
    exact h.inDepth.mono hleads.extends_store hwf

/-- A later trail fits if it does so for what is new. -/
theorem Trail.Fits.advance {trail trail' : Trail} {s t : State} (h : trail.Fits s)
    (hleads : trail.Leads s trail' t) (hwf : t.store.WellFormed)
    (hvisits : ∀ visit ∈ trail'.visits, visit ∈ trail.visits ∨
      (InDepth t.store visit.place visit.expr visit.frame ∧ visit.depth = visit.place.level))
    (hheld : ∀ {e : FrameId} {c : Closure}, c ∈ t.store.closuresIn e →
      c ∈ s.store.closuresIn e ∨ c.Traced trail' t.store)
    (hlogged : ∀ {v : Value} {depth : Nat}, .closureMade v depth ∈ t.log →
      .closureMade v depth ∈ s.log ∨ ∃ c : Closure, v = c.toValue ∧ c.Traced trail' t.store ∧
        ∃ visit : Visit, visit.Makes trail' c ∧ visit.depth = depth) :
    trail'.Fits t where
  wellFormed := hwf
  visits visit hvisit := by
    rcases hvisits visit hvisit with hold | hnew
    · exact ⟨(h.visits visit hold).1.mono hleads.extends_store hwf, (h.visits visit hold).2⟩
    · exact hnew
  held hc := (hheld hc).elim (fun hold => (h.held hold).mono hleads hwf) id
  logged hv := by
    rcases hlogged hv with hold | hnew
    · obtain ⟨c, rfl, hc, visit, hmakes, hdepth⟩ := h.logged hold
      refine ⟨c, rfl, hc.mono hleads hwf, visit, ⟨?_, ?_, hmakes.frame_eq⟩, hdepth⟩
      · exact hleads.visits_subset hmakes.on_trail
      · rw [hleads.origin_eq c.tag hc.tag_lt, hmakes.place_eq]
    · exact hnew

/-- A state with a trail that fits it. -/
@[ext]
structure Moment where
  trail : Trail
  state : State
  fits : trail.Fits state

namespace Moment

/-- Moments are ordered by what evaluation changes. -/
instance : Preorder Moment where
  le m n := m.trail.Leads m.state n.trail n.state
  le_refl m := ⟨.refl, le_refl _, List.Subset.refl _, fun _ _ => rfl⟩
  le_trans _ _ _ h h' :=
    { moves := h.moves.trans h'.moves
      tag_le := le_trans h.tag_le h'.tag_le
      visits_subset := List.Subset.trans h.visits_subset h'.visits_subset
      origin_eq := fun tag htag =>
        (h'.origin_eq tag (lt_of_lt_of_le htag h.tag_le)).trans (h.origin_eq tag htag) }

/-- Every closure within the value is traced. -/
def Knows (m : Moment) (v : Value) : Prop :=
  ∀ c ∈ v.closures, c.Traced m.trail m.state.store

variable {m n : Moment} {place : Place} {x : Value} {e : FrameId}

/-- What is known stays known. -/
theorem Knows.mono {v : Value} (h : m.Knows v) (hle : m ≤ n) : n.Knows v :=
  fun c hc => (h c hc).mono hle n.fits.wellFormed

/-- A value that holds no closures is known. -/
theorem knows_of_closures_eq_nil (h : x.closures = []) : m.Knows x := by
  intro c hc
  rw [h] at hc
  cases hc

/-- What is written holds no closures. -/
theorem knows_written (h : place.value? = some x) : m.Knows x :=
  knows_of_closures_eq_nil (Value.closures_of_isTree x (Place.isTree_of_value? h))

/-- What is in its depth stays so. -/
theorem inDepth_mono (h : InDepth m.state.store place x e) (hle : m ≤ n) :
    InDepth n.state.store place x e :=
  h.mono hle.extends_store n.fits.wellFormed

/-- The moment after one more evaluation has started. -/
def visited (m : Moment) (h : InDepth m.state.store place x e) : Moment where
  trail := m.trail.visited ⟨place, x, e, m.state.store.depth e⟩
  state := m.state
  fits := by
    refine m.fits.advance ⟨.refl, le_refl _, List.subset_cons_self _ _, fun _ _ => rfl⟩
      m.fits.wellFormed (fun visit hvisit => ?_) .inl .inl
    rcases List.mem_cons.mp hvisit with rfl | hold
    · exact .inr ⟨h, h.depth_eq⟩
    · exact .inl hold

/-- Starting an evaluation leads on. -/
theorem le_visited (h : InDepth m.state.store place x e) : m ≤ m.visited h :=
  ⟨.refl, le_refl _, List.subset_cons_self _ _, fun _ _ => rfl⟩

/-- The moment after an event was recorded, other than that a closure was made. -/
def recorded (m : Moment) {event : Event} (h : event.isClosureMade = false) : Moment where
  trail := m.trail
  state := { m.state with log := m.state.log.push event }
  fits := by
    refine m.fits.advance (m.trail.leads_of_move (.recorded _ event) (le_refl _))
      m.fits.wellFormed (fun _ => .inl) .inl fun {v depth} hv => ?_
    rcases Array.mem_push.mp hv with hold | hnew
    · exact .inl hold
    · rw [← hnew] at h
      cases h

/-- Recording an event leads on. -/
theorem le_recorded {event : Event} (h : event.isClosureMade = false) : m ≤ m.recorded h :=
  m.trail.leads_of_move (.recorded _ event) (le_refl _)

/-- The moment after a tag was used up. -/
def tagged (m : Moment) : Moment where
  trail := m.trail
  state := { m.state with store := { m.state.store with nextTag := m.state.store.nextTag + 1 } }
  fits := by
    have hwf := m.fits.wellFormed
    exact m.fits.advance (m.trail.leads_of_move (.tagged _) (Nat.le_succ _))
      ⟨hwf.outer_lt, hwf.names_nodup, hwf.captured_lt⟩ (fun _ => .inl) .inl .inl

/-- Using up a tag leads on. -/
theorem le_tagged : m ≤ m.tagged :=
  m.trail.leads_of_move (.tagged _) (Nat.le_succ _)

/-- Binding a name in a frame that exists to a known value leads on. -/
theorem leads_bound (m : Moment) {e : FrameId} (he : e < m.state.store.frames.size) (name : String)
    {value : Value} (h : m.Knows value) :
    m.trail.Leads m.state m.trail { m.state with store := m.state.store.put e name value } :=
  m.trail.leads_of_move
    (.bound _ e name value he fun c hc => (h c hc).inDepth.frame_lt) (le_refl _)

/-- The moment after a name was bound to a known value. -/
def bound (m : Moment) {e : FrameId} (he : e < m.state.store.frames.size) (name : String)
    {value : Value} (h : m.Knows value) : Moment where
  trail := m.trail
  state := { m.state with store := m.state.store.put e name value }
  fits := by
    have hleads := m.leads_bound he name h
    have hwf := hleads.moves.wellFormed m.fits.wellFormed
    refine m.fits.advance hleads hwf (fun _ => .inl) (fun hc => ?_) .inl
    rcases Store.mem_closuresIn_put hc with hold | ⟨-, hnew⟩
    · exact .inl hold
    · exact .inr ((h _ hnew).mono hleads hwf)

/-- Adding a frame inside one that exists, with known values, leads on. -/
theorem leads_entered (m : Moment) {outer : FrameId} (hlt : outer < m.state.store.frames.size)
    {bindings : Bindings} (hnodup : bindings.names.Nodup)
    (h : ∀ binding ∈ bindings, m.Knows binding.2) :
    m.trail.Leads m.state m.trail
      { m.state with store := m.state.store.push ⟨some outer, bindings⟩ } :=
  m.trail.leads_of_move (.entered _ outer bindings hlt hnodup
    fun binding hmem c hc => (h binding hmem c hc).inDepth.frame_lt) (le_refl _)

/-- The moment after a frame was added inside another one, with known values. -/
def entered (m : Moment) {outer : FrameId} (hlt : outer < m.state.store.frames.size)
    {bindings : Bindings} (hnodup : bindings.names.Nodup)
    (h : ∀ binding ∈ bindings, m.Knows binding.2) : Moment where
  trail := m.trail
  state := { m.state with store := m.state.store.push ⟨some outer, bindings⟩ }
  fits := by
    have hleads := m.leads_entered hlt hnodup h
    have hwf := hleads.moves.wellFormed m.fits.wellFormed
    refine m.fits.advance hleads hwf (fun _ => .inl) (fun hc => ?_) .inl
    rcases Store.mem_closuresIn_push hc with hold | ⟨-, binding, hmem, hnew⟩
    · exact .inl hold
    · exact .inr ((h binding hmem _ hnew).mono hleads hwf)

section

variable {formals : List Value} {body : Value} {visit : Visit}

/-- A closure that is made leaves tags in use where they lead. -/
theorem leads_made (m : Moment) (place : Place) (formals : List Value) (body : Value)
    (e : FrameId) :
    m.trail.Leads m.state (m.trail.made m.state.store.nextTag place)
      (runLambda [.list formals, body] e m.state).2 := by
  rw [runLambda_eq]
  -- Only the tag that is given out now is led elsewhere.
  exact ⟨.tail (.single (.tagged _)) (.recorded _ _), Nat.le_succ _, List.Subset.refl _,
    fun tag htag => if_neg (Nat.ne_of_lt htag)⟩

/-- The moment after a lambda form whose evaluation is on the trail has made a closure. -/
def made (m : Moment) (hvisit : visit ∈ m.trail.visits)
    (hexpr : visit.expr = .lambdaForm formals body) : Moment where
  trail := m.trail.made m.state.store.nextTag visit.place
  state := (runLambda [.list formals, body] visit.frame m.state).2
  fits := by
    have hleads := m.leads_made visit.place formals body visit.frame
    rw [runLambda_eq] at hleads ⊢
    have hwf := m.tagged.fits.wellFormed
    have horigin : (m.trail.made m.state.store.nextTag visit.place).origin m.state.store.nextTag =
        visit.place := if_pos rfl
    obtain ⟨hdepth, hlevel⟩ := m.fits.visits visit hvisit
    rw [hexpr] at hdepth
    refine m.fits.advance hleads hwf (fun _ => .inl) .inl fun {v depth} hv => ?_
    rcases Array.mem_push.mp hv with hold | hnew
    · exact .inl hold
    · cases hnew
      refine .inr ⟨⟨m.state.store.nextTag, formals, body, visit.frame⟩, rfl,
        ⟨Nat.lt_succ_self _, ?_⟩, visit, ⟨hvisit, horigin.symm, rfl⟩, ?_⟩
      · rw [horigin]
        exact hdepth.mono hleads.extends_store hwf
      · rw [hlevel, hdepth.depth_eq]

/-- The closure that a lambda form has made is known. -/
theorem knows_made (hvisit : visit ∈ m.trail.visits)
    (hexpr : visit.expr = .lambdaForm formals body) :
    (m.made hvisit hexpr).Knows (.closure m.state.store.nextTag formals body visit.frame) := by
  intro c hc
  have hcases : c = ⟨m.state.store.nextTag, formals, body, visit.frame⟩ ∨
      c ∈ (Value.lambdaForm formals body).closures := Value.mem_closures_made hc
  rcases hcases with rfl | hinner
  · have hmem : .closureMade (.closure m.state.store.nextTag formals body visit.frame)
        (m.state.store.depth visit.frame) ∈ (m.made hvisit hexpr).state.log := by
      change _ ∈ (runLambda [.list formals, body] visit.frame m.state).2.log
      rw [runLambda_eq]
      exact Array.mem_push_self
    obtain ⟨⟨tag, fs, b, f⟩, heq, htraced, -⟩ := (m.made hvisit hexpr).fits.logged hmem
    cases heq
    exact htraced
  · have hwritten := (m.fits.visits visit hvisit).1.written
    exact knows_written (hexpr ▸ hwritten) c hinner

end

end Moment

end LexicalLisp
