import LexicalLisp.Eval.Scope
import LexicalLisp.Proofs.Value.Closures

/-!
# What a frame holds

A frame is known by three things: the frame around it, its names in order, and the closures within
its values. This module says what becomes of them when a name is bound, when a frame is added, and
when parameters are bound to arguments. Nothing else about stores is opened after it.
-/

namespace LexicalLisp

namespace Bindings

/-- A value that is found is among the bindings. -/
theorem mem_of_get? {bindings : Bindings} {name : String} {value : Value}
    (h : bindings.get? name = some value) : (name, value) ∈ bindings := by
  induction bindings with
  | nil => simp [get?] at h
  | cons head rest ih =>
    obtain ⟨key, old⟩ := head
    by_cases hkey : key = name
    · simp only [get?, hkey, if_true, Option.some.injEq] at h
      exact List.mem_cons.mpr (.inl (by rw [hkey, h]))
    · simp only [get?, hkey, if_false] at h
      exact List.mem_cons_of_mem _ (ih h)

/-- A name has a value exactly when it is among the bound names. -/
theorem isSome_get? (bindings : Bindings) (name : String) :
    (bindings.get? name).isSome = true ↔ name ∈ bindings.names := by
  induction bindings with
  | nil => simp [get?, names]
  | cons head rest ih =>
    obtain ⟨key, old⟩ := head
    by_cases hkey : key = name
    · simp [get?, names, hkey]
    · simpa [get?, names, hkey, Ne.symm hkey] using ih

/-- Binding a name adds no other binding. -/
theorem mem_put {bindings : Bindings} {name : String} {value : Value} {binding : String × Value}
    (h : binding ∈ bindings.put name value) : binding = (name, value) ∨ binding ∈ bindings := by
  induction bindings with
  | nil => exact .inl (List.mem_singleton.mp h)
  | cons head rest ih =>
    obtain ⟨key, old⟩ := head
    by_cases hkey : key = name
    · simp only [put, hkey, if_true, List.mem_cons] at h
      rcases h with h | h
      · exact .inl h
      · exact .inr (List.mem_cons_of_mem _ h)
    · simp only [put, hkey, if_false, List.mem_cons] at h
      rcases h with h | h
      · exact .inr (List.mem_cons.mpr (.inl h))
      · exact (ih h).imp_right (List.mem_cons_of_mem _)

/-- Binding a name keeps the earlier names in front. -/
theorem names_prefix_put (bindings : Bindings) (name : String) (value : Value) :
    bindings.names <+: (bindings.put name value).names := by
  rw [names_put]
  split
  · exact List.prefix_refl _
  · exact List.prefix_append _ _

/-- Binding a name repeats none. -/
theorem nodup_names_put {bindings : Bindings} (h : bindings.names.Nodup) (name : String)
    (value : Value) : (bindings.put name value).names.Nodup := by
  rw [names_put]
  split
  · exact h
  · rename_i hname
    exact List.nodup_append.mpr ⟨h, by simp, fun a ha b hb hab =>
      hname (by rwa [← List.mem_singleton.mp hb, ← hab])⟩

end Bindings

/-- The values of a call frame are arguments. -/
theorem mem_bindFormals {bindings result : Bindings} {pairs : List (Value × Value)}
    (h : bindFormals bindings pairs = .ok result) {binding : String × Value}
    (hmem : binding ∈ result) :
    binding ∈ bindings ∨ ∃ pair ∈ pairs, binding.2 = pair.2 := by
  induction pairs generalizing bindings with
  | nil => exact .inl (Except.ok.inj h ▸ hmem)
  | cons pair rest ih =>
    obtain ⟨formal, value⟩ := pair
    cases formal with
    | symbol name =>
      rcases ih h with hput | ⟨pair, hpair, heq⟩
      · rcases Bindings.mem_put hput with rfl | hold
        · exact .inr ⟨_, List.mem_cons_self, rfl⟩
        · exact .inl hold
      · exact .inr ⟨pair, List.mem_cons_of_mem _ hpair, heq⟩
    | _ => cases h

/-- What holds of the arguments holds of the values of the call frame. -/
theorem forall_bindFormals {formals arguments : List Value} {result : Bindings}
    (h : bindFormals [] (formals.zip arguments) = .ok result) {P : Value → Prop}
    (harguments : ∀ u ∈ arguments, P u) : ∀ binding ∈ result, P binding.2 := by
  intro binding hmem
  rcases mem_bindFormals h hmem with hnil | ⟨pair, hpair, heq⟩
  · cases hnil
  · exact heq ▸ harguments pair.2 (List.of_mem_zip hpair).2

/-- What holds of the closures within the arguments holds of those within the call frame. -/
theorem closures_bindFormals {formals arguments : List Value} {result : Bindings}
    (h : bindFormals [] (formals.zip arguments) = .ok result) {P : Closure → Prop}
    (harguments : ∀ u ∈ arguments, ∀ c ∈ u.closures, P c) :
    ∀ binding ∈ result, ∀ c ∈ binding.2.closures, P c :=
  forall_bindFormals h harguments

/-- No name of a call frame is repeated. -/
theorem nodup_bindFormals {bindings result : Bindings} {pairs : List (Value × Value)}
    (h : bindFormals bindings pairs = .ok result) (hnodup : bindings.names.Nodup) :
    result.names.Nodup := by
  induction pairs generalizing bindings with
  | nil => exact Except.ok.inj h ▸ hnodup
  | cons pair rest ih =>
    obtain ⟨formal, value⟩ := pair
    cases formal with
    | symbol name => exact ih h (Bindings.nodup_names_put hnodup name value)
    | _ => cases h

namespace Store

/-- The frame around a frame. -/
def outerOf (s : Store) (e : FrameId) : Option FrameId :=
  s.frames[e]?.bind Frame.outer

/-- The closures within the values of a frame. -/
def closuresIn (s : Store) (e : FrameId) : List Closure :=
  (s.bindingsOf e).flatMap fun binding => binding.2.closures

/-- A frame is its outer link and its bindings. -/
theorem getElem?_frames {s : Store} {e : FrameId} (h : e < s.frames.size) :
    s.frames[e]? = some ⟨s.outerOf e, s.bindingsOf e⟩ := by
  simp [outerOf, bindingsOf, h]

/-- Chains are a matter of the outer links alone. -/
theorem chain_congr {s t : Store} (hsize : s.frames.size = t.frames.size)
    (houter : ∀ g, s.outerOf g = t.outerOf g) (e : FrameId) : s.chain e = t.chain e := by
  have hwithin (bound : Nat) (start : Option FrameId) :
      s.chainWithin bound start = t.chainWithin bound start := by
    induction bound generalizing start with
    | zero => rfl
    | succ bound ih =>
      cases start with
      | none => rfl
      | some g =>
        by_cases hg : g < s.frames.size
        · rw [chainWithin, chainWithin, getElem?_frames hg, getElem?_frames (hsize ▸ hg)]
          exact congrArg (g :: ·) (houter g ▸ ih (s.outerOf g))
        · have hnone := Array.getElem?_eq_none (Nat.le_of_not_lt hg)
          have hnone' := Array.getElem?_eq_none (hsize ▸ Nat.le_of_not_lt hg)
          rw [chainWithin, chainWithin, hnone, hnone']
  rw [chain, chain, hwithin, hsize]

/-- The closures within a bound value are within the frame. -/
theorem mem_closuresIn_of_mem {s : Store} {e : FrameId} {binding : String × Value} {c : Closure}
    (hmem : binding ∈ s.bindingsOf e) (hc : c ∈ binding.2.closures) : c ∈ s.closuresIn e :=
  List.mem_flatMap.mpr ⟨binding, hmem, hc⟩

/-- The closures within a value that a frame binds are within the frame. -/
theorem mem_closuresIn_of_get? {s : Store} {e : FrameId} {name : String} {value : Value}
    {c : Closure} (h : s.get? e name = some value) (hc : c ∈ value.closures) :
    c ∈ s.closuresIn e :=
  mem_closuresIn_of_mem (Bindings.mem_of_get? h) hc

/-- Only a frame that exists holds closures. -/
theorem lt_size_of_mem_closuresIn {s : Store} {e : FrameId} {c : Closure}
    (h : c ∈ s.closuresIn e) : e < s.frames.size := by
  apply Nat.lt_of_not_le
  intro hsize
  rw [closuresIn, bindingsOf, Array.getElem?_eq_none hsize] at h
  cases h

/-- Binding a name moves no frame. -/
theorem outerOf_put (s : Store) (e g : FrameId) (name : String) (value : Value) :
    (s.put e name value).outerOf g = s.outerOf g := by
  simp only [outerOf, put, Array.getElem?_modify]
  split
  · cases s.frames[g]? <;> rfl
  · rfl

/-- Binding a name leaves the other frames alone. -/
theorem getElem?_frames_put_of_ne {s : Store} {e g : FrameId} (h : g ≠ e) (name : String)
    (value : Value) : (s.put e name value).frames[g]? = s.frames[g]? := by
  simp [put, Array.getElem?_modify, Ne.symm h]

/-- The closures of a frame after a name is bound were there before or are within the value. -/
theorem mem_closuresIn_put {s : Store} {e g : FrameId} {name : String} {value : Value}
    {c : Closure} (h : c ∈ (s.put e name value).closuresIn g) :
    c ∈ s.closuresIn g ∨ (g = e ∧ c ∈ value.closures) := by
  obtain ⟨binding, hmem, hc⟩ := List.mem_flatMap.mp h
  rw [bindingsOf_put] at hmem
  split at hmem
  · rename_i hg
    rcases Bindings.mem_put hmem with rfl | hold
    · exact .inr ⟨hg.1, hc⟩
    · exact .inl (mem_closuresIn_of_mem hold hc)
  · exact .inl (mem_closuresIn_of_mem hmem hc)

/-- A new frame is one more. -/
theorem size_push (s : Store) (frame : Frame) :
    (s.push frame).frames.size = s.frames.size + 1 := by
  simp [push]

/-- A new frame leaves the others alone. -/
theorem getElem?_frames_push_of_ne {s : Store} {g : FrameId} (h : g ≠ s.frames.size)
    (frame : Frame) : (s.push frame).frames[g]? = s.frames[g]? := by
  simp [push, Array.getElem?_push, h]

/-- The outer links after a frame is added. -/
theorem outerOf_push (s : Store) (frame : Frame) (g : FrameId) :
    (s.push frame).outerOf g = if g = s.frames.size then frame.outer else s.outerOf g := by
  simp only [outerOf, push, Array.getElem?_push]
  split <;> rfl

/-- The bindings after a frame is added. -/
theorem bindingsOf_push (s : Store) (frame : Frame) (g : FrameId) :
    (s.push frame).bindingsOf g =
      if g = s.frames.size then frame.bindings else s.bindingsOf g := by
  simp only [bindingsOf, push, Array.getElem?_push]
  by_cases h : g = s.frames.size <;> simp [h]

/-- The closures of a frame after one is added were there before or are within the new one. -/
theorem mem_closuresIn_push {s : Store} {frame : Frame} {g : FrameId} {c : Closure}
    (h : c ∈ (s.push frame).closuresIn g) :
    c ∈ s.closuresIn g ∨
      (g = s.frames.size ∧ ∃ binding ∈ frame.bindings, c ∈ binding.2.closures) := by
  obtain ⟨binding, hmem, hc⟩ := List.mem_flatMap.mp h
  rw [bindingsOf_push] at hmem
  split at hmem
  · exact .inr ⟨‹_›, binding, hmem, hc⟩
  · exact .inl (mem_closuresIn_of_mem hmem hc)

/-- A name that a frame binds has a value there. -/
theorem binds_iff (s : Store) (e : FrameId) (name : String) :
    s.binds e name = true ↔ name ∈ (s.bindingsOf e).names :=
  Bindings.isSome_get? (s.bindingsOf e) name

end Store

end LexicalLisp
