import LexicalLisp.Proofs.Store.Contents

/-!
# Well-formed stores

In a well-formed store every outer link leads to an earlier frame, no frame repeats a name, and
every closure in a frame captured a frame that exists. Following outer links from a frame then
comes to an end, and the bound on the length of a chain never cuts one short: looking a name up is
looking in the frame and then in the frame around it.
-/

namespace LexicalLisp

namespace Store

/-- Outer links lead to earlier frames, names are not repeated, captured frames exist. -/
structure WellFormed (s : Store) : Prop where
  outer_lt : ∀ {e o : Nat}, s.outerOf e = some o → o < e
  names_nodup : ∀ e : FrameId, (s.bindingsOf e).names.Nodup
  captured_lt : ∀ {e : FrameId} {c : Closure}, c ∈ s.closuresIn e → c.frame < s.frames.size

/-- Following outer links from a frame until there is none, without any bound. -/
inductive Walk (s : Store) : FrameId → List FrameId → Prop where
  | last {e : FrameId} (exists_frame : e < s.frames.size) (alone : s.outerOf e = none) :
      Walk s e [e]
  | step {e o : FrameId} {path : List FrameId} (outer : s.outerOf e = some o)
      (rest : Walk s o path) : Walk s e (e :: path)

/-- Only a frame that exists has a frame around it. -/
theorem lt_size_of_outerOf {s : Store} {e o : FrameId} (h : s.outerOf e = some o) :
    e < s.frames.size := by
  apply Nat.lt_of_not_le
  intro hsize
  rw [outerOf, Array.getElem?_eq_none hsize] at h
  cases h

/-- Only a frame that exists binds names. -/
theorem lt_size_of_binds {s : Store} {e : FrameId} {name : String} (h : s.binds e name = true) :
    e < s.frames.size := by
  apply Nat.lt_of_not_le
  intro hsize
  rw [binds_iff, bindingsOf, Array.getElem?_eq_none hsize] at h
  cases h

/-- A name is found in a frame that binds it. -/
theorem binds_of_find? {s : Store} {e f : FrameId} {name : String}
    (h : s.find? e name = some f) : s.binds f name = true :=
  List.find?_some (p := (s.binds · name)) h

/-- One link of a chain. -/
theorem chainWithin_succ {s : Store} {e : FrameId} (h : e < s.frames.size) (bound : Nat) :
    s.chainWithin (bound + 1) (some e) = e :: s.chainWithin bound (s.outerOf e) := by
  rw [chainWithin, getElem?_frames h]

/-- A chain starts from a frame or is empty. -/
theorem chainWithin_none (s : Store) (bound : Nat) : s.chainWithin bound none = [] := by
  cases bound <;> rfl

/-- A chain has frames that exist only. -/
theorem lt_size_of_mem_chainWithin {s : Store} {bound : Nat} {link : Option FrameId} {g : FrameId}
    (h : g ∈ s.chainWithin bound link) : g < s.frames.size := by
  induction bound generalizing link with
  | zero => cases h
  | succ bound ih =>
    cases link with
    | none => cases h
    | some e =>
      by_cases he : e < s.frames.size
      · rw [chainWithin_succ he] at h
        rcases List.mem_cons.mp h with rfl | h
        · exact he
        · exact ih h
      · rw [chainWithin, Array.getElem?_eq_none (Nat.le_of_not_lt he)] at h
        cases h

section Nested

variable {s : Store} (hlt : ∀ {e o : Nat}, s.outerOf e = some o → o < e)

include hlt

/-- Any bound beyond the frame itself gives the whole chain. -/
theorem chainWithin_eq_of_lt {e m n : Nat} (he : e < s.frames.size) (hm : e < m) (hn : e < n) :
    s.chainWithin m (some e) = s.chainWithin n (some e) := by
  induction e using Nat.strongRecOn generalizing m n with
  | ind e ih =>
    obtain ⟨m, rfl⟩ := Nat.exists_eq_add_of_lt hm
    obtain ⟨n, rfl⟩ := Nat.exists_eq_add_of_lt hn
    rw [chainWithin_succ he, chainWithin_succ he]
    cases houter : s.outerOf e with
    | none => rw [chainWithin_none, chainWithin_none]
    | some o =>
      have ho := hlt houter
      rw [ih o ho (Nat.lt_trans ho he) (Nat.lt_add_right m ho) (Nat.lt_add_right n ho)]

/-- A chain is a frame and the chain of the frame around it. -/
theorem chain_eq {e : FrameId} (he : e < s.frames.size) :
    s.chain e = e :: (match s.outerOf e with
      | none => []
      | some o => s.chain o) := by
  obtain ⟨bound, hbound⟩ := Nat.exists_eq_succ_of_ne_zero (Nat.ne_zero_of_lt he)
  rw [chain, hbound, chainWithin_succ he]
  cases houter : s.outerOf e with
  | none => rw [chainWithin_none]
  | some o =>
    have ho := hlt houter
    change e :: s.chainWithin bound (some o) = e :: s.chain o
    rw [chain, chainWithin_eq_of_lt hlt (Nat.lt_trans ho he)
      (Nat.lt_of_lt_of_le ho (Nat.le_of_lt_succ (hbound ▸ he))) (Nat.lt_trans ho he)]

/-- The chain of a frame is all that following outer links from it comes by. -/
theorem walk_chain {e : FrameId} (he : e < s.frames.size) : s.Walk e (s.chain e) := by
  induction e using Nat.strongRecOn with
  | ind e ih =>
    rw [chain_eq hlt he]
    cases houter : s.outerOf e with
    | none => exact .last he houter
    | some o =>
      have ho := hlt houter
      exact .step houter (ih o ho (Nat.lt_trans ho he))

/-- Looking a name up is looking in the frame, then from the frame around it. -/
theorem lookup?_eq {e : FrameId} (he : e < s.frames.size) (name : String) :
    s.lookup? e name = (s.get? e name).or ((s.outerOf e).bind (s.lookup? · name)) := by
  rw [lookup?, chain_eq hlt he, List.findSome?_cons]
  cases s.get? e name with
  | some value => rfl
  | none => cases s.outerOf e <;> rfl

/-- The frame that binds a name is the frame itself, or is found from the frame around it. -/
theorem find?_eq {e : FrameId} (he : e < s.frames.size) (name : String) :
    s.find? e name =
      if s.binds e name then some e else (s.outerOf e).bind (s.find? · name) := by
  rw [find?, chain_eq hlt he, List.find?_cons]
  cases s.binds e name with
  | true => rfl
  | false => cases s.outerOf e <;> rfl

end Nested

/-- Following outer links ends at a frame that exists and has none around it. -/
theorem Walk.getLast? {s : Store} {e : FrameId} {path : List FrameId} (h : s.Walk e path) :
    ∃ r, path.getLast? = some r ∧ r < s.frames.size ∧ s.outerOf r = none := by
  induction h with
  | @last e he houter => exact ⟨e, rfl, he, houter⟩
  | @step e o path houter hrest ih =>
    obtain ⟨r, hlast, hr⟩ := ih
    refine ⟨r, ?_, hr⟩
    cases path with
    | nil => cases hrest
    | cons => rw [List.getLast?_cons_cons, hlast]

end Store

end LexicalLisp
