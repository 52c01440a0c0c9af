import LexicalLisp.Proofs.Eval.Moves
import LexicalLisp.Proofs.Eval.Steps
import LexicalLisp.Session

/-!
# Root frames

A new root frame is added behind the frames that exist and has no frame around it. It holds the two
booleans and four closures, and these captured the root itself, so nothing leads from it to another
frame. The store stays well-formed, and the frames that were there are as they were.
-/

namespace LexicalLisp

/-- The closure that an operator is bound to in a root frame. -/
def operatorOf (form : Form) (tag : Nat) (root : FrameId) : Closure :=
  ⟨tag, [.symbol "x", .symbol "y"], .list [.symbol form.name, .symbol "x", .symbol "y"], root⟩

/-- The bindings of a new root frame, with the tags from here on. -/
def standardBindings (root : FrameId) (tag : Nat) : Bindings :=
  [("true", .boolean true), ("false", .boolean false),
    (Form.plus.name, (operatorOf .plus tag root).toValue),
    (Form.minus.name, (operatorOf .minus (tag + 1) root).toValue),
    (Form.times.name, (operatorOf .times (tag + 2) root).toValue),
    (Form.equals.name, (operatorOf .equals (tag + 3) root).toValue)]

/-- A state with one more frame, a root with these bindings, and the next tag set. -/
def State.withRoot (s : State) (bindings : Bindings) (tag : Nat) : State :=
  { s with store := { s.store.push ⟨none, bindings⟩ with nextTag := tag } }

/-- Binding a name in the new root. -/
theorem bindName_withRoot (s : State) (bindings : Bindings) (tag : Nat) (name : String)
    (value : Value) :
    Eval.bindName s.store.frames.size (.symbol name) value (s.withRoot bindings tag) =
      (.ok (), s.withRoot (bindings.put name value) tag) := by
  have hframes : (s.store.frames.push ⟨none, bindings⟩).modify s.store.frames.size
        (fun frame => { frame with bindings := frame.bindings.put name value }) =
      s.store.frames.push ⟨none, bindings.put name value⟩ := by
    apply Array.ext_getElem?
    intro i
    rw [Array.getElem?_modify, Array.getElem?_push, Array.getElem?_push]
    by_cases h : s.store.frames.size = i
    · simp [h]
    · simp [h, Ne.symm h]
  exact congrArg (fun frames => (Outcome.ok (), State.mk ⟨frames, tag⟩ s.log)) hframes

/-- Binding an operator in the new root uses up one tag. -/
theorem bindOperators_withRoot (s : State) (bindings : Bindings) (tag : Nat) (form : Form)
    (rest : List Form) :
    bindOperators s.store.frames.size (form :: rest) (s.withRoot bindings tag) =
      bindOperators s.store.frames.size rest (s.withRoot
        (bindings.put form.name (operatorOf form tag s.store.frames.size).toValue) (tag + 1)) :=
  Eval.bind_of_ok (t := s.withRoot bindings (tag + 1)) rfl _ |>.trans
    (Eval.bind_of_ok (bindName_withRoot s bindings (tag + 1) _ _) _)

/-- The standard bindings are put into the new root one by one. -/
theorem populate_withRoot (s : State) (tag : Nat) :
    populate s.store.frames.size (s.withRoot [] tag) =
      (.ok (), s.withRoot (standardBindings s.store.frames.size tag) (tag + 4)) := by
  have hmerge : mergePairs [(.symbol "true", .boolean true), (.symbol "false", .boolean false)] =
      [(.symbol "true", .boolean true), (.symbol "false", .boolean false)] := by
    simp [mergePairs, putPair]
  have hbooleans : bindMany s.store.frames.size
        [(.symbol "true", .boolean true), (.symbol "false", .boolean false)] (s.withRoot [] tag) =
      (.ok (), s.withRoot [("true", .boolean true), ("false", .boolean false)] tag) := by
    rw [bindMany, hmerge]
    refine (Eval.bind_of_ok (bindName_withRoot s [] tag _ _) _).trans ?_
    exact Eval.bind_of_ok (bindName_withRoot s [("true", .boolean true)] tag _ _) _
  refine (Eval.bind_of_ok hbooleans _).trans ?_
  simp only [bindOperators_withRoot]
  rfl

/-- A new root is the newest frame, and holds the standard bindings. -/
theorem standardRoot_eq (s : State) :
    standardRoot s = (.ok s.store.frames.size,
      s.withRoot (standardBindings s.store.frames.size s.store.nextTag) (s.store.nextTag + 4)) :=
  Eval.bind_of_ok (t := s.withRoot [] s.store.nextTag) rfl _ |>.trans
    (Eval.bind_of_ok (populate_withRoot s s.store.nextTag) _)

/-- The closures of a new root are the four operators. -/
theorem closures_standardBindings (root : FrameId) (tag : Nat) :
    (standardBindings root tag).flatMap (fun binding => binding.2.closures) =
      [operatorOf .plus tag root, operatorOf .minus (tag + 1) root,
        operatorOf .times (tag + 2) root, operatorOf .equals (tag + 3) root] := by
  rfl

/-- The closures of a new root captured the root. -/
theorem frame_of_mem_standardBindings {root : FrameId} {tag : Nat} {binding : String × Value}
    {c : Closure} (hmem : binding ∈ standardBindings root tag) (hc : c ∈ binding.2.closures) :
    c.frame = root := by
  have hoperator : c ∈ (standardBindings root tag).flatMap fun binding => binding.2.closures :=
    List.mem_flatMap.mpr ⟨binding, hmem, hc⟩
  rw [closures_standardBindings] at hoperator
  simp only [List.mem_cons, List.not_mem_nil, or_false] at hoperator
  rcases hoperator with rfl | rfl | rfl | rfl <;> rfl

/-- A store without frames is well-formed. -/
theorem Store.wellFormed_empty : Store.WellFormed (State.mk {} #[]).store :=
  ⟨nofun, fun _ => List.nodup_nil, nofun⟩

/-- A new root leaves a well-formed store well-formed. -/
theorem Store.WellFormed.withRoot {s : State} (hs : s.store.WellFormed) (tag tag' : Nat) :
    (s.withRoot (standardBindings s.store.frames.size tag) tag').store.WellFormed := by
  have hpush : (s.store.push ⟨none, standardBindings s.store.frames.size tag⟩).WellFormed := by
    refine hs.push nofun ?_ fun binding hmem c hc => ?_
    · simp [standardBindings, Bindings.names, Form.name]
    · rw [frame_of_mem_standardBindings hmem hc]
      exact Nat.lt_succ_self _
  exact ⟨hpush.outer_lt, hpush.names_nodup, hpush.captured_lt⟩

/-- The state of a session that has just begun: one root, and nothing recorded. -/
def State.newSession : State :=
  State.withRoot {} (standardBindings 0 0) 4

/-- A session begins with a new root. -/
theorem standardRoot_empty : standardRoot {} = (.ok 0, State.newSession) :=
  standardRoot_eq {}

/-- The store of a new session is well-formed. -/
theorem State.wellFormed_newSession : State.newSession.store.WellFormed :=
  Store.wellFormed_empty.withRoot 0 4

/-- A new session has one frame. -/
theorem State.size_newSession : State.newSession.store.frames.size = 1 := by
  rfl

end LexicalLisp
