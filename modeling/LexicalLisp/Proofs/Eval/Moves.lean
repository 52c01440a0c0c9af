import LexicalLisp.Proofs.Eval.Discipline
import LexicalLisp.Proofs.Store.Nesting
import Mathlib.Logic.Relation
import Mathlib.Order.Nat

/-!
# Evaluation moves from one well-formed store to the next

Whatever evaluation does to the frames it does in single moves: it binds a name in a frame that
exists, or adds a frame inside one that exists, and every closure it puts into a frame captured a
frame that exists. A move keeps a store well-formed, whichever frame it is made in. Frames never
lose or reorder names, and a frame stays inside the same frame.

That evaluation consists of moves is an instance of keeping to a discipline. What holds after every
move holds at every moment of an evaluation, however it ends.
-/

namespace LexicalLisp

/-- A single change to the state, within what exists. -/
inductive State.Move : State → State → Prop where
  | bound (s : State) (e : FrameId) (name : String) (value : Value)
      (frame_lt : e < s.store.frames.size)
      (captured_lt : ∀ c ∈ value.closures, c.frame < s.store.frames.size) :
      Move s { s with store := s.store.put e name value }
  | entered (s : State) (outer : FrameId) (bindings : Bindings)
      (outer_lt : outer < s.store.frames.size) (names_nodup : bindings.names.Nodup)
      (captured_lt : ∀ binding ∈ bindings, ∀ c ∈ binding.2.closures,
        c.frame < s.store.frames.size) :
      Move s { s with store := s.store.push ⟨some outer, bindings⟩ }
  | tagged (s : State) :
      Move s { s with store := { s.store with nextTag := s.store.nextTag + 1 } }
  | recorded (s : State) (event : Event) : Move s { s with log := s.log.push event }

/-- Any number of moves. -/
abbrev State.Moves : State → State → Prop :=
  Relation.ReflTransGen State.Move

namespace Store

/-- The second store has the frames of the first where they were, with the names they had in
front, and every frame it adds is inside another one. -/
structure Grows (s t : Store) : Prop where
  size_le : s.frames.size ≤ t.frames.size
  outer_eq : ∀ e < s.frames.size, t.outerOf e = s.outerOf e
  names_prefix : ∀ e : FrameId, (s.bindingsOf e).names <+: (t.bindingsOf e).names
  inside : ∀ e < t.frames.size, t.outerOf e = none → e < s.frames.size

/-- A store grows into itself. -/
theorem Grows.refl (s : Store) : s.Grows s :=
  ⟨le_refl _, fun _ _ => rfl, fun _ => List.prefix_refl _, fun _ h _ => h⟩

/-- Growing further is growing. -/
theorem Grows.trans {s t u : Store} (h : s.Grows t) (h' : t.Grows u) : s.Grows u where
  size_le := le_trans h.size_le h'.size_le
  outer_eq e he := (h'.outer_eq e (lt_of_lt_of_le he h.size_le)).trans (h.outer_eq e he)
  names_prefix e := (h.names_prefix e).trans (h'.names_prefix e)
  inside e he houter := by
    have ht := h'.inside e he houter
    exact h.inside e ht (h'.outer_eq e ht ▸ houter)

/-- Binding a name lets a store grow. -/
theorem grows_put (s : Store) (e : FrameId) (name : String) (value : Value) :
    s.Grows (s.put e name value) where
  size_le := le_of_eq (size_put s e name value).symm
  outer_eq g _ := outerOf_put s e g name value
  names_prefix g := by
    rw [bindingsOf_put]
    split
    · exact Bindings.names_prefix_put _ _ _
    · exact List.prefix_refl _
  inside g hg _ := size_put s e name value ▸ hg

/-- Adding a frame inside another one lets a store grow. -/
theorem grows_push (s : Store) (outer : FrameId) (bindings : Bindings) :
    s.Grows (s.push ⟨some outer, bindings⟩) where
  size_le := by rw [size_push]; exact Nat.le_succ _
  outer_eq e he := by rw [outerOf_push, if_neg (Nat.ne_of_lt he)]
  names_prefix e := by
    rw [bindingsOf_push]
    split
    · rename_i he
      have hnone : s.bindingsOf e = [] := by simp [bindingsOf, he]
      rw [hnone]
      exact List.nil_prefix
    · exact List.prefix_refl _
  inside e he houter := by
    rw [outerOf_push] at houter
    split at houter
    · cases houter
    · rw [size_push] at he
      exact lt_of_le_of_ne (Nat.le_of_lt_succ he) ‹_›

/-- Binding a name in a well-formed store, to a value whose closures captured frames that exist. -/
theorem WellFormed.put {s : Store} (hs : s.WellFormed) (e : FrameId) (name : String)
    {value : Value} (hvalue : ∀ c ∈ value.closures, c.frame < s.frames.size) :
    (s.put e name value).WellFormed where
  outer_lt houter := hs.outer_lt (outerOf_put s e _ name value ▸ houter)
  names_nodup g := by
    rw [bindingsOf_put]
    split
    · exact Bindings.nodup_names_put (hs.names_nodup g) name value
    · exact hs.names_nodup g
  captured_lt hc := by
    rw [size_put]
    rcases mem_closuresIn_put hc with hold | ⟨-, hnew⟩
    · exact hs.captured_lt hold
    · exact hvalue _ hnew

/-- Adding a frame to a well-formed store, alone or inside a frame that exists. -/
theorem WellFormed.push {s : Store} (hs : s.WellFormed) {frame : Frame}
    (houter : ∀ o, frame.outer = some o → o < s.frames.size)
    (hnodup : frame.bindings.names.Nodup)
    (hcaptured : ∀ binding ∈ frame.bindings, ∀ c ∈ binding.2.closures,
      c.frame < s.frames.size + 1) :
    (s.push frame).WellFormed where
  outer_lt h := by
    rw [outerOf_push] at h
    split at h
    · rename_i he
      exact he ▸ houter _ h
    · exact hs.outer_lt h
  names_nodup e := by
    rw [bindingsOf_push]
    split
    · exact hnodup
    · exact hs.names_nodup e
  captured_lt hc := by
    rw [size_push]
    rcases mem_closuresIn_push hc with hold | ⟨-, binding, hmem, hnew⟩
    · exact Nat.lt_succ_of_lt (hs.captured_lt hold)
    · exact hcaptured binding hmem _ hnew

end Store

namespace State

/-- A move keeps a store well-formed. -/
theorem Move.wellFormed {s t : State} (h : Move s t) (hs : s.store.WellFormed) :
    t.store.WellFormed := by
  cases h with
  | bound e name value _ hvalue => exact hs.put e name hvalue
  | entered outer bindings houter hnodup hcaptured =>
    exact hs.push (fun o ho => Option.some.inj ho ▸ houter) hnodup
      fun binding hmem c hc => Nat.lt_succ_of_lt (hcaptured binding hmem c hc)
  | tagged => exact ⟨hs.outer_lt, hs.names_nodup, hs.captured_lt⟩
  | recorded => exact hs

/-- A move lets the store grow. -/
theorem Move.grows {s t : State} (h : Move s t) : s.store.Grows t.store := by
  cases h with
  | bound e name value => exact s.store.grows_put e name value
  | entered outer bindings => exact s.store.grows_push outer bindings
  | tagged => exact ⟨le_refl _, fun _ _ => rfl, fun _ => List.prefix_refl _, fun _ h _ => h⟩
  | recorded => exact .refl _

/-- Moves keep a store well-formed. -/
theorem Moves.wellFormed {s t : State} (h : Moves s t) (hs : s.store.WellFormed) :
    t.store.WellFormed := by
  induction h with
  | refl => exact hs
  | tail _ hmove ih => exact hmove.wellFormed ih

/-- Moves let the store grow. -/
theorem Moves.grows {s t : State} (h : Moves s t) : s.store.Grows t.store := by
  induction h with
  | refl => exact .refl _
  | tail _ hmove ih => exact ih.trans hmove.grows

end State

/-- Values from a well-formed store captured frames that exist. -/
theorem Store.WellFormed.captured_lt_of_lookup? {s : Store} (hs : s.WellFormed) {e : FrameId}
    {name : String} {value : Value} (h : s.lookup? e name = some value) :
    ∀ c ∈ value.closures, c.frame < s.frames.size := by
  obtain ⟨g, -, hg⟩ := List.exists_of_findSome?_eq_some h
  exact fun c hc => hs.captured_lt (Store.mem_closuresIn_of_get? hg hc)

/-- A name is found in a frame that exists. -/
theorem Store.lt_size_of_find? {s : Store} {e g : FrameId} {name : String}
    (h : s.find? e name = some g) : g < s.frames.size :=
  lt_size_of_binds (binds_of_find? h)

/-- Evaluation in frames that exist, of expressions whose closures captured frames that exist,
moving on from a start. The world is the number of frames. -/
def movingFrom (start : State) : Discipline where
  World := Nat
  states n s s' :=
    s = s' ∧ s.store.frames.size = n ∧ s.store.WellFormed ∧ State.Moves start s
  value n v := ∀ c ∈ v.closures, c.frame < n
  code n e x := e < n ∧ ∀ c ∈ x.closures, c.frame < n

/-- Evaluation within what exists consists of moves. -/
theorem movingFrom_lawful (start : State) : (movingFrom start).Lawful where
  value_mono hle hv c hc := lt_of_lt_of_le (hv c hc) hle
  code_mono hle := fun ⟨he, hx⟩ =>
    ⟨lt_of_lt_of_le he hle, fun c hc => lt_of_lt_of_le (hx c hc) hle⟩
  number _ _ := nofun
  boolean _ _ := nofun
  emit event := by
    rintro ⟨rfl, hsize, hwf, hmoves⟩
    exact ⟨rfl, hsize, hwf, hmoves.tail (.recorded _ event)⟩
  tag := by
    rintro n s s' ⟨rfl, hsize, hwf, hmoves⟩
    have hmove := State.Move.tagged s
    exact ⟨rfl, rfl, hsize, hmove.wellFormed hwf, hmoves.tail hmove⟩
  lookup := by
    rintro n e name s s' - ⟨rfl, rfl, hwf, -⟩
    exact ⟨rfl, fun hfound => hwf.captured_lt_of_lookup? hfound⟩
  closure := fun ⟨_, hx⟩ => hx
  quote := fun ⟨_, hx⟩ c hc => hx c (Value.mem_closures_list (by simp) hc)
  lambda := by
    rintro n e fs b s s' ⟨he, hx⟩ ⟨rfl, hsize, hwf, hmoves⟩
    have hmove := State.Move.tagged s
    refine ⟨rfl, n, le_refl _, ⟨rfl, hsize, hmove.wellFormed hwf, hmoves.tail hmove⟩, ?_⟩
    intro c hc
    rcases Value.mem_closures_made hc with rfl | hc
    · exact he
    · exact hx c hc
  define := by
    rintro n e name x ⟨he, hx⟩
    refine ⟨⟨he, fun c hc => hx c (Value.mem_closures_list (by simp) hc)⟩, ?_⟩
    rintro n' v s s' hle hv ⟨rfl, rfl, hwf, hmoves⟩
    have hmove := State.Move.bound s e name v (lt_of_lt_of_le he hle) hv
    exact ⟨rfl, Store.size_put _ _ _ _, hmove.wellFormed hwf, hmoves.tail hmove⟩
  assign := by
    rintro n e name x ⟨he, hx⟩
    refine ⟨⟨he, fun c hc => hx c (Value.mem_closures_list (by simp) hc)⟩, ?_⟩
    rintro n' s s' - ⟨rfl, rfl, hwf, hmoves⟩
    refine ⟨rfl, fun hv hfound => ?_⟩
    have hmove := State.Move.bound s _ name _ (Store.lt_size_of_find? hfound) hv
    exact ⟨rfl, Store.size_put _ _ _ _, hmove.wellFormed hwf, hmoves.tail hmove⟩
  operands := fun ⟨he, hx⟩ _ y hy =>
    ⟨he, fun c hc => hx c (Value.mem_closures_list (List.mem_cons_of_mem _ hy) hc)⟩
  head := fun ⟨he, hx⟩ _ =>
    ⟨he, fun c hc => hx c (Value.mem_closures_list List.mem_cons_self hc)⟩
  enter := by
    rintro n t fs b f us bindings s s' hclosure hargs hbound ⟨rfl, rfl, hwf, hmoves⟩
    have hmove := State.Move.entered s f bindings (hclosure _ List.mem_cons_self)
      (nodup_bindFormals hbound List.nodup_nil) (closures_bindFormals hbound hargs)
    refine ⟨rfl, s.store.frames.size + 1, Nat.le_succ _,
      ⟨rfl, Store.size_push _ _, hmove.wellFormed hwf, hmoves.tail hmove⟩, Nat.lt_succ_self _, ?_⟩
    intro c hc
    exact Nat.lt_succ_of_lt
      (hclosure c (List.mem_cons_of_mem _ (List.mem_append_right _ hc)))

end LexicalLisp
