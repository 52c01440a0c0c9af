import LexicalLisp.Value

/-!
# Closures within values

A value may hold closures at any depth: as an item of a list, or within the parameters and the
body of another closure, since code is data. All of them are collected here, each with its tag,
its code and the frame it captured. What a value can lead to is told by this list alone.
-/

namespace LexicalLisp

/-- What a closure is made of. -/
structure Closure where
  tag : Nat
  formals : List Value
  body : Value
  frame : FrameId

/-- A closure as a value. -/
def Closure.toValue (c : Closure) : Value :=
  .closure c.tag c.formals c.body c.frame

namespace Value

mutual

/-- The closures within a value, those within its closures included. -/
def closures : Value → List Closure
  | .list items => closuresEach items
  | .closure tag formals body frame =>
    ⟨tag, formals, body, frame⟩ :: (closuresEach formals ++ closures body)
  | _ => []

/-- The closures within the items of a list. -/
def closuresEach : List Value → List Closure
  | [] => []
  | v :: rest => closures v ++ closuresEach rest

end

/-- A closure within a list is within one of its items. -/
theorem mem_closuresEach {c : Closure} {items : List Value} :
    c ∈ closuresEach items ↔ ∃ v ∈ items, c ∈ v.closures := by
  induction items with
  | nil => simp [closuresEach]
  | cons v rest ih => simp [closuresEach, ih]

/-- A closure within an item is within the list. -/
theorem mem_closures_list {c : Closure} {v : Value} {items : List Value} (hv : v ∈ items)
    (hc : c ∈ v.closures) : c ∈ (Value.list items).closures :=
  mem_closuresEach.mpr ⟨v, hv, hc⟩

/-- The closures within a new closure are the closure itself and those of the form it is made
from. -/
theorem mem_closures_made {c : Closure} {tag : Nat} {head body : Value} {formals : List Value}
    {frame : FrameId} (hc : c ∈ (Value.closure tag formals body frame).closures) :
    c = ⟨tag, formals, body, frame⟩ ∨ c ∈ (Value.list [head, .list formals, body]).closures := by
  rcases List.mem_cons.mp hc with heq | hc
  · exact .inl heq
  · rcases List.mem_append.mp hc with hc | hc
    · exact .inr (mem_closures_list (v := .list formals) (by simp) hc)
    · exact .inr (mem_closures_list (by simp) hc)

mutual

/-- What is within a closure within a value is within the value. -/
theorem closures_trans (v : Value) {c d : Closure} (hc : c ∈ v.closures)
    (hd : d ∈ closuresEach c.formals ++ c.body.closures) : d ∈ v.closures := by
  match v with
  | .number _ | .boolean _ | .symbol _ | .foreign _ => simp [closures] at hc
  | .list items =>
    rw [closures] at hc ⊢
    exact closuresEach_trans items hc hd
  | .closure tag formals body frame =>
    rw [closures, List.mem_cons] at hc ⊢
    rcases hc with rfl | hc
    · exact .inr hd
    · rw [List.mem_append] at hc ⊢
      rcases hc with hc | hc
      · exact .inr (.inl (closuresEach_trans formals hc hd))
      · exact .inr (.inr (closures_trans body hc hd))

/-- What is within a closure within a list is within the list. -/
theorem closuresEach_trans (items : List Value) {c d : Closure} (hc : c ∈ closuresEach items)
    (hd : d ∈ closuresEach c.formals ++ c.body.closures) : d ∈ closuresEach items := by
  match items with
  | [] => simp [closuresEach] at hc
  | v :: rest =>
    rw [closuresEach, List.mem_append] at hc ⊢
    rcases hc with hc | hc
    · exact .inl (closures_trans v hc hd)
    · exact .inr (closuresEach_trans rest hc hd)

end

end Value

end LexicalLisp
