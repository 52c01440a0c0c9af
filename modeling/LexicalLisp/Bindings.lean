import LexicalLisp.Value

/-!
# Bindings of one frame

The names of a frame stand in the order in which they were first bound. Binding a name again
replaces its value and keeps its place, so the order never changes and no name is ever lost.
-/

namespace LexicalLisp

/-- Names with their values, in the order of first binding. -/
abbrev Bindings := List (String × Value)

namespace Bindings

/-- The value bound to a name. -/
def get? (name : String) : Bindings → Option Value
  | [] => none
  | (key, value) :: rest => if key = name then some value else get? name rest

/-- Bind a name, replacing an earlier value. -/
def put (name : String) (value : Value) : Bindings → Bindings
  | [] => [(name, value)]
  | (key, old) :: rest =>
    if key = name then (key, value) :: rest else (key, old) :: put name value rest

/-- The bound names in order. -/
def names (bindings : Bindings) : List String :=
  bindings.map Prod.fst

/-- The name just bound has its new value. -/
theorem get?_put_self (name : String) (value : Value) (bindings : Bindings) :
    (bindings.put name value).get? name = some value := by
  induction bindings with
  | nil => simp [put, get?]
  | cons head rest ih =>
    obtain ⟨key, old⟩ := head
    by_cases h : key = name <;> simp [put, get?, h, ih]

/-- Binding a name leaves every other name alone. -/
theorem get?_put_of_ne {name other : String} (h : other ≠ name) (value : Value)
    (bindings : Bindings) : (bindings.put name value).get? other = bindings.get? other := by
  induction bindings with
  | nil => simp [put, get?, Ne.symm h]
  | cons head rest ih =>
    obtain ⟨key, old⟩ := head
    by_cases hk : key = name
    · simp [put, get?, hk, Ne.symm h]
    · simp [put, get?, hk, ih]

/-- A name takes a new place only if it was not bound before. -/
theorem names_put (name : String) (value : Value) (bindings : Bindings) :
    (bindings.put name value).names =
      if name ∈ bindings.names then bindings.names else bindings.names ++ [name] := by
  induction bindings with
  | nil => simp [put, names]
  | cons head rest ih =>
    obtain ⟨key, old⟩ := head
    by_cases hk : key = name
    · simp [put, names, hk]
    · simp only [put, hk, if_false, names, List.map_cons, List.mem_cons] at ih ⊢
      rw [ih]
      by_cases hm : name ∈ List.map Prod.fst rest <;> simp [hm, Ne.symm hk]

end Bindings

end LexicalLisp
