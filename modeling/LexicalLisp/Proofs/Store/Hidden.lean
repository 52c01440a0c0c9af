import LexicalLisp.Proofs.Store.Reach

/-!
# Hidden names

Names may be hidden, so that their bindings do not count. Two stores agree outside of the hidden
names if their frames are the same and nested in the same way, and every other name has the same
value in each of them. Names that are not hidden are then found in the same frames, and with the
same values.

What a frame leads to by the other names is what it leads to in the store without the bindings of
hidden names.
-/

namespace LexicalLisp

variable {hidden : String → Bool}

namespace Bindings

/-- The bindings of the names that are not hidden. -/
def without (hidden : String → Bool) (bindings : Bindings) : Bindings :=
  bindings.filter fun binding => !hidden binding.1

/-- The other names keep their values. -/
theorem get?_without {name : String} (h : hidden name = false) (bindings : Bindings) :
    (bindings.without hidden).get? name = bindings.get? name := by
  induction bindings with
  | nil => rfl
  | cons head rest ih =>
    obtain ⟨key, value⟩ := head
    change Bindings.get? name (List.filter _ rest) = _ at ih
    by_cases hkey : hidden key = true
    · have hne : key ≠ name := by
        rintro rfl
        rw [h] at hkey
        cases hkey
      simp [without, get?, hkey, hne, ih]
    · simp [without, get?, hkey, ih]

/-- Binding another name, before or after. -/
theorem without_put {name : String} (h : hidden name = false) (value : Value)
    (bindings : Bindings) :
    (bindings.put name value).without hidden = (bindings.without hidden).put name value := by
  induction bindings with
  | nil => simp [without, put, h]
  | cons head rest ih =>
    obtain ⟨key, old⟩ := head
    change List.filter _ _ = Bindings.put name value (List.filter _ rest) at ih
    by_cases hname : key = name
    · subst hname
      simp [without, put, h]
    · by_cases hkey : hidden key = true
      · simp [without, put, hname, hkey, ih]
      · simp [without, put, hname, hkey, ih]

end Bindings

namespace Store

/-- The store without the bindings of hidden names. -/
def without (hidden : String → Bool) (s : Store) : Store :=
  { s with frames := s.frames.map fun frame =>
      { frame with bindings := frame.bindings.without hidden } }

section Without

variable (hidden) (s : Store)

/-- Hiding names removes no frame. -/
theorem size_without : (s.without hidden).frames.size = s.frames.size := by
  simp [without]

/-- Hiding names moves no frame. -/
theorem outerOf_without (e : FrameId) : (s.without hidden).outerOf e = s.outerOf e := by
  simp only [outerOf, without, Array.getElem?_map]
  cases s.frames[e]? <;> rfl

/-- The bindings that are left. -/
theorem bindingsOf_without (e : FrameId) :
    (s.without hidden).bindingsOf e = (s.bindingsOf e).without hidden := by
  simp only [bindingsOf, without, Array.getElem?_map]
  cases s.frames[e]? <;> rfl

variable {hidden}

/-- Hiding names adds no closure to a frame. -/
theorem mem_closuresIn_of_without {e : FrameId} {c : Closure}
    (h : c ∈ (s.without hidden).closuresIn e) : c ∈ s.closuresIn e := by
  obtain ⟨binding, hmem, hc⟩ := List.mem_flatMap.mp h
  rw [bindingsOf_without] at hmem
  exact mem_closuresIn_of_mem (List.mem_of_mem_filter hmem) hc

/-- Binding a name that is not hidden, before or after. -/
theorem without_put {name : String} (h : hidden name = false) (e : FrameId) (value : Value) :
    (s.put e name value).without hidden = (s.without hidden).put e name value := by
  refine congrArg (Store.mk · s.nextTag) (Array.ext_getElem? fun i => ?_)
  simp only [without, put, Array.getElem?_map, Array.getElem?_modify]
  by_cases hi : e = i
  · simp [hi, Bindings.without_put h, Function.comp_def]
  · simp [hi]

/-- Adding a frame, before or after. -/
theorem without_push (frame : Frame) :
    (s.push frame).without hidden =
      (s.without hidden).push ⟨frame.outer, frame.bindings.without hidden⟩ := by
  simp [without, push]

end Without

/-- The same frames, nested in the same way, with the same values for all names but the hidden ones.
The tag that is given out next is the same as well, so that a new closure is one and the same. -/
structure AgreeOutside (hidden : String → Bool) (s t : Store) : Prop where
  size_eq : s.frames.size = t.frames.size
  tag_eq : s.nextTag = t.nextTag
  outer_eq : ∀ e, s.outerOf e = t.outerOf e
  get?_eq : ∀ e name, hidden name = false → s.get? e name = t.get? e name

/-- A store agrees with itself without the bindings of hidden names. -/
theorem agreeOutside_without (hidden : String → Bool) (s : Store) :
    s.AgreeOutside hidden (s.without hidden) where
  size_eq := (size_without hidden s).symm
  tag_eq := rfl
  outer_eq e := (outerOf_without hidden s e).symm
  get?_eq e name h := by rw [get?, get?, bindingsOf_without, Bindings.get?_without h]

namespace AgreeOutside

variable {s t : Store} (hagree : s.AgreeOutside hidden t)

include hagree

/-- Chains are the same. -/
theorem chain_eq (e : FrameId) : s.chain e = t.chain e :=
  chain_congr hagree.size_eq hagree.outer_eq e

/-- A name that is not hidden has the same value. -/
theorem lookup?_eq {name : String} (h : hidden name = false) (e : FrameId) :
    s.lookup? e name = t.lookup? e name := by
  have hget : (s.get? · name) = (t.get? · name) := by
    funext g
    exact hagree.get?_eq g name h
  rw [lookup?, lookup?, hagree.chain_eq, hget]

/-- A name that is not hidden is bound in the same frame. -/
theorem find?_eq {name : String} (h : hidden name = false) (e : FrameId) :
    s.find? e name = t.find? e name := by
  have hbinds : (s.binds · name) = (t.binds · name) := by
    funext g
    rw [binds, binds, hagree.get?_eq g name h]
  rw [find?, find?, hagree.chain_eq, hbinds]

/-- Binding any name to the same value on both sides. -/
theorem put (e : FrameId) (name : String) (value : Value) :
    (s.put e name value).AgreeOutside hidden (t.put e name value) where
  size_eq := by rw [size_put, size_put, hagree.size_eq]
  tag_eq := hagree.tag_eq
  outer_eq g := by rw [outerOf_put, outerOf_put, hagree.outer_eq]
  get?_eq g other h := by
    have hold := hagree.get?_eq g other h
    rw [get?, get?] at hold ⊢
    rw [bindingsOf_put, bindingsOf_put, ← hagree.size_eq]
    split
    · by_cases hname : other = name
      · rw [hname, Bindings.get?_put_self, Bindings.get?_put_self]
      · rw [Bindings.get?_put_of_ne hname, Bindings.get?_put_of_ne hname, hold]
    · exact hold

/-- Adding the same frame on both sides. -/
theorem push (frame : Frame) : (s.push frame).AgreeOutside hidden (t.push frame) where
  size_eq := by rw [size_push, size_push, hagree.size_eq]
  tag_eq := hagree.tag_eq
  outer_eq g := by rw [outerOf_push, outerOf_push, hagree.size_eq, hagree.outer_eq]
  get?_eq g name h := by
    have hold := hagree.get?_eq g name h
    rw [get?, get?] at hold ⊢
    rw [bindingsOf_push, bindingsOf_push, ← hagree.size_eq]
    split
    · rfl
    · exact hold

/-- Handing a tag out on both sides. -/
theorem tag :
    AgreeOutside hidden { s with nextTag := s.nextTag + 1 } { t with nextTag := t.nextTag + 1 } :=
  ⟨hagree.size_eq, congrArg (· + 1) hagree.tag_eq, hagree.outer_eq, hagree.get?_eq⟩

end AgreeOutside

end Store

end LexicalLisp
