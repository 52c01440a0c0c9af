import LexicalLisp.Proofs.Store.Nesting
import Mathlib.Data.List.Find

/-!
# Where a name is found later on

A store that is only added to keeps its frames inside the frames they were in, and keeps the names
they bound. What was found from a frame is therefore found from it later on as well. It is found in
the same frame as before, unless a frame before that one has come to bind the name.

If no frame but the first one has gained names since, the new place can only be that first frame.
Both kinds of store change are described here by what they leave alone, one lemma for each way of
changing a store.
-/

namespace LexicalLisp

namespace Store

/-- The frames of an earlier store are inside the frames they were in and bind what they bound. -/
structure Extends (start s : Store) : Prop where
  size_le : start.frames.size ≤ s.frames.size
  outer_eq : ∀ e < start.frames.size, s.outerOf e = start.outerOf e
  still_binds : ∀ {e : FrameId} {name : String}, start.binds e name = true → s.binds e name = true

namespace Extends

variable {start s t : Store}

/-- A store extends itself. -/
theorem refl (s : Store) : s.Extends s :=
  ⟨Nat.le_refl _, fun _ _ => rfl, id⟩

/-- Extending further is extending. -/
theorem trans (h : start.Extends s) (h' : s.Extends t) : start.Extends t where
  size_le := Nat.le_trans h.size_le h'.size_le
  outer_eq e he := (h'.outer_eq e (Nat.lt_of_lt_of_le he h.size_le)).trans (h.outer_eq e he)
  still_binds hbinds := h'.still_binds (h.still_binds hbinds)

/-- Binding a name extends a store. -/
theorem put (s : Store) (g : FrameId) (name : String) (value : Value) :
    s.Extends (s.put g name value) where
  size_le := Nat.le_of_eq (size_put s g name value).symm
  outer_eq e _ := outerOf_put s g e name value
  still_binds := by
    intro e other hbinds
    rw [binds_iff] at hbinds ⊢
    rw [bindingsOf_put]
    split
    · exact (Bindings.names_prefix_put _ name value).subset hbinds
    · exact hbinds

/-- Adding a frame extends a store. -/
theorem push (s : Store) (frame : Frame) : s.Extends (s.push frame) where
  size_le := by
    rw [size_push]
    exact Nat.le_succ _
  outer_eq e he := by rw [outerOf_push, if_neg (Nat.ne_of_lt he)]
  still_binds := by
    intro e name hbinds
    have hold := Nat.ne_of_lt (lt_size_of_binds hbinds)
    rw [binds_iff] at hbinds ⊢
    rwa [bindingsOf_push, if_neg hold]

/-- Chains keep what they have in front. -/
theorem chainWithin_prefix (h : start.Extends s) {m n : Nat} (hle : m ≤ n)
    (link : Option FrameId) : start.chainWithin m link <+: s.chainWithin n link := by
  induction m generalizing n link with
  | zero => exact List.nil_prefix
  | succ m ih =>
    obtain ⟨n, rfl⟩ := Nat.exists_eq_add_of_lt hle
    cases link with
    | none => exact List.nil_prefix
    | some e =>
      by_cases he : e < start.frames.size
      · rw [chainWithin_succ he, chainWithin_succ (Nat.lt_of_lt_of_le he h.size_le),
          h.outer_eq e he]
        exact List.cons_prefix_cons.mpr ⟨rfl, ih (Nat.le_add_right m n) _⟩
      · rw [chainWithin, Array.getElem?_eq_none (Nat.le_of_not_lt he)]
        exact List.nil_prefix

/-- The chain of a frame keeps what it has in front. -/
theorem chain_prefix (h : start.Extends s) (e : FrameId) : start.chain e <+: s.chain e :=
  h.chainWithin_prefix h.size_le (some e)

/-- A name that is found is found later on as well. -/
theorem isSome_find? (h : start.Extends s) {e : FrameId} {name : String}
    (hfound : (start.find? e name).isSome = true) : (s.find? e name).isSome = true := by
  obtain ⟨g, hg, hbinds⟩ := List.find?_isSome.mp hfound
  exact List.find?_isSome.mpr ⟨g, (h.chain_prefix e).subset hg, h.still_binds hbinds⟩

end Extends

/-- A frame that binds a name is where it is found from. -/
theorem find?_of_binds {s : Store} {e : FrameId} {name : String} (h : s.binds e name = true) :
    s.find? e name = some e := by
  have he := lt_size_of_binds h
  obtain ⟨bound, hbound⟩ := Nat.exists_eq_succ_of_ne_zero (Nat.ne_zero_of_lt he)
  rw [find?, chain, hbound, chainWithin_succ he]
  exact List.find?_cons_of_pos h

/-- Binding a name again adds no name to any frame. -/
theorem names_put_of_binds {s : Store} {g : FrameId} {name : String} (h : s.binds g name = true)
    (value : Value) (i : FrameId) :
    ((s.put g name value).bindingsOf i).names = (s.bindingsOf i).names := by
  rw [bindingsOf_put]
  split
  · rename_i hi
    rw [Bindings.names_put, if_pos (hi.1 ▸ (binds_iff s g name).mp h)]
  · rfl

/-- The frames of an earlier store, one of them apart, have no names but those they had. -/
structure KeepsNames (start s : Store) (e : FrameId) : Prop where
  size_le : start.frames.size ≤ s.frames.size
  names_eq : ∀ i < start.frames.size, i ≠ e → (s.bindingsOf i).names = (start.bindingsOf i).names

namespace KeepsNames

variable {start s : Store} {e : FrameId}

/-- Binding any name in the frame set apart, or in a newer one. -/
theorem put_own (h : start.KeepsNames s e) {g : FrameId} (hg : g = e ∨ start.frames.size ≤ g)
    (name : String) (value : Value) : start.KeepsNames (s.put g name value) e where
  size_le := size_put s g name value ▸ h.size_le
  names_eq i hi hne := by
    have hother : i ≠ g := by
      rcases hg with rfl | hnew
      · exact hne
      · exact Nat.ne_of_lt (Nat.lt_of_lt_of_le hi hnew)
    rw [bindingsOf_put, if_neg fun hsame => hother hsame.1]
    exact h.names_eq i hi hne

/-- Binding a name again, in any frame. -/
theorem put_again (h : start.KeepsNames s e) {g : FrameId} {name : String}
    (hbinds : s.binds g name = true) (value : Value) :
    start.KeepsNames (s.put g name value) e where
  size_le := size_put s g name value ▸ h.size_le
  names_eq i hi hne := (names_put_of_binds hbinds value i).trans (h.names_eq i hi hne)

/-- Adding a frame. -/
theorem push (h : start.KeepsNames s e) (frame : Frame) :
    start.KeepsNames (s.push frame) e where
  size_le := by
    rw [size_push]
    exact Nat.le_succ_of_le h.size_le
  names_eq i hi hne := by
    have hold := Nat.ne_of_lt (Nat.lt_of_lt_of_le hi h.size_le)
    rw [bindingsOf_push, if_neg hold]
    exact h.names_eq i hi hne

/-- The frames whose names are kept bind what they bound. -/
theorem binds_eq (h : start.KeepsNames s e) {i : FrameId} (hi : i < start.frames.size)
    (hne : i ≠ e) (name : String) : s.binds i name = start.binds i name := by
  rw [Bool.eq_iff_iff, binds_iff, binds_iff, h.names_eq i hi hne]

end KeepsNames

/-- A name is found later on where it was found before, unless the frame itself has come to bind it,
the only one that may have gained names. -/
theorem find?_eq_of_keepsNames {start s : Store} {e f : FrameId} {name : String}
    (hextends : start.Extends s) (hkeeps : start.KeepsNames s e)
    (hfound : start.find? e name = some f) :
    s.find? e name =
      some (if start.binds e name = false ∧ s.binds e name = true then e else f) := by
  cases hbinds : s.binds e name with
  | true =>
    rw [find?_of_binds hbinds]
    cases hbefore : start.binds e name with
    | true =>
      rw [find?_of_binds hbefore] at hfound
      simp [Option.some.inj hfound]
    | false => simp
  | false =>
    -- Neither store has the name in the frame itself, and the frames around it bind what they did.
    have hbefore : start.binds e name ≠ true := by
      intro htrue
      rw [hextends.still_binds htrue] at hbinds
      cases hbinds
    have hsame : ∀ g ∈ start.chain e, s.binds g name = start.binds g name := by
      intro g hg
      by_cases hne : g = e
      · rw [hne, hbinds, Bool.eq_false_of_not_eq_true hbefore]
      · exact hkeeps.binds_eq (lt_size_of_mem_chainWithin hg) hne name
    obtain ⟨rest, hchain⟩ := hextends.chain_prefix e
    rw [find?, ← hchain, List.find?_append, List.find?_congr hsame, ← find?, hfound]
    simp

/-- One binding of the first store has another value in the second, and all else is the same. -/
structure Overwrites (s t : Store) (g : FrameId) (name : String) (value : Value) : Prop where
  size_eq : t.frames.size = s.frames.size
  nextTag_eq : t.nextTag = s.nextTag
  outer_eq : ∀ i, t.outerOf i = s.outerOf i
  names_eq : ∀ i, (t.bindingsOf i).names = (s.bindingsOf i).names
  bound : s.binds g name = true
  written : t.get? g name = some value
  kept : ∀ i n, i ≠ g ∨ n ≠ name → t.get? i n = s.get? i n

/-- Binding a name again writes one binding. -/
theorem overwrites_put {s : Store} {g : FrameId} {name : String} (h : s.binds g name = true)
    (value : Value) : s.Overwrites (s.put g name value) g name value where
  size_eq := size_put s g name value
  nextTag_eq := rfl
  outer_eq i := outerOf_put s g i name value
  names_eq := names_put_of_binds h value
  bound := h
  written := by
    rw [get?, bindingsOf_put, if_pos ⟨rfl, lt_size_of_binds h⟩]
    exact Bindings.get?_put_self name value _
  kept i n hother := by
    rw [get?, get?, bindingsOf_put]
    split
    · rename_i hi
      exact Bindings.get?_put_of_ne (hother.resolve_left fun hne => hne hi.1) value _
    · rfl

end Store

end LexicalLisp
