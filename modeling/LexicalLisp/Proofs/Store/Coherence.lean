import LexicalLisp.Proofs.Store.Nesting

/-!
# Coherent stores

A closure is known by its tag: nothing else is equal to it. In a coherent store two closures with
one tag are therefore the same closure, wherever they are held, and no tag is in use that has yet to
be given out. An expression that is to be evaluated counts as a place where closures are held.
-/

namespace LexicalLisp

namespace Store

/-- The closures within the frames and within an expression. -/
def holds (s : Store) (x : Value) : List Closure :=
  (List.range s.frames.size).flatMap s.closuresIn ++ x.closures

/-- A closure is held by a frame or by the expression. -/
theorem mem_holds {s : Store} {x : Value} {c : Closure} :
    c ∈ s.holds x ↔ (∃ e, c ∈ s.closuresIn e) ∨ c ∈ x.closures := by
  rw [holds, List.mem_append, List.mem_flatMap]
  exact or_congr_left ⟨fun ⟨e, _, hc⟩ => ⟨e, hc⟩,
    fun ⟨e, hc⟩ => ⟨e, List.mem_range.mpr (lt_size_of_mem_closuresIn hc), hc⟩⟩

/-- What is within a closure that is held is held as well. -/
theorem holds_trans {s : Store} {x : Value} {c d : Closure} (hc : c ∈ s.holds x)
    (hd : d ∈ Value.closuresEach c.formals ++ c.body.closures) : d ∈ s.holds x := by
  rw [mem_holds] at hc ⊢
  rcases hc with ⟨e, hc⟩ | hc
  · obtain ⟨binding, hmem, hc⟩ := List.mem_flatMap.mp hc
    exact .inl ⟨e, mem_closuresIn_of_mem hmem (Value.closures_trans _ hc hd)⟩
  · exact .inr (Value.closures_trans _ hc hd)

/-- A well-formed store together with an expression, in which tags tell closures apart. -/
structure Coherent (s : Store) (x : Value) : Prop where
  wellFormed : s.WellFormed
  captured_lt : ∀ c ∈ x.closures, c.frame < s.frames.size
  tag_lt : ∀ c ∈ s.holds x, c.tag < s.nextTag
  tag_inj : ∀ c ∈ s.holds x, ∀ d ∈ s.holds x, c.tag = d.tag → c = d

end Store

end LexicalLisp
