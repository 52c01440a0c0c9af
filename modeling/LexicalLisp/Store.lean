import LexicalLisp.Bindings
import LexicalLisp.Value.Text

/-!
# Frames and their store

A frame holds the bindings of one scope and knows the frame around it. Frames are created and
written to, never removed, and closures refer to them by identity, so all frames live in one
store.

Looking a name up follows the chain of enclosing frames outwards. The chain is computed with a
bound, the number of frames, that no chain of properly nested frames exceeds.
-/

namespace LexicalLisp

/-- One scope: the frame around it and its own bindings. -/
structure Frame where
  outer : Option FrameId
  bindings : Bindings

/-- All frames created so far, and the next unused tag. -/
structure Store where
  frames : Array Frame := #[]
  nextTag : Nat := 0

namespace Store

/-- A frame and those around it, innermost first, as far as the bound allows. -/
def chainWithin (s : Store) : Nat → Option FrameId → List FrameId
  | 0, _ => []
  | _, none => []
  | bound + 1, some e =>
    match s.frames[e]? with
    | none => []
    | some frame => e :: s.chainWithin bound frame.outer

/-- A frame and those around it, innermost first. -/
def chain (s : Store) (e : FrameId) : List FrameId :=
  s.chainWithin s.frames.size (some e)

/-- The bindings of a frame. -/
def bindingsOf (s : Store) (e : FrameId) : Bindings :=
  match s.frames[e]? with
  | none => []
  | some frame => frame.bindings

/-- The value that a frame itself binds a name to. -/
def get? (s : Store) (e : FrameId) (name : String) : Option Value :=
  (s.bindingsOf e).get? name

/-- The frame itself binds the name. -/
def binds (s : Store) (e : FrameId) (name : String) : Bool :=
  (s.get? e name).isSome

/-- The nearest frame on the chain that binds the name. -/
def find? (s : Store) (e : FrameId) (name : String) : Option FrameId :=
  (s.chain e).find? (s.binds · name)

/-- The value a name has, seen from a frame. -/
def lookup? (s : Store) (e : FrameId) (name : String) : Option Value :=
  (s.chain e).findSome? (s.get? · name)

/-- Bind a name in a frame. -/
def put (s : Store) (e : FrameId) (name : String) (value : Value) : Store :=
  { s with frames := s.frames.modify e fun frame =>
      { frame with bindings := frame.bindings.put name value } }

/-- Add a frame; its name is the number of frames before it. -/
def push (s : Store) (frame : Frame) : Store :=
  { s with frames := s.frames.push frame }

/-- The number of frames around a frame. -/
def depth (s : Store) (e : FrameId) : Nat :=
  (s.chain e).length - 1

/-- The bindings of one frame between braces. -/
def describeBindings (bindings : Bindings) : String :=
  let entries := bindings.map fun (name, value) => name ++ ": " ++ value.inspect
  "\x7b" ++ ", ".intercalate entries ++ "\x7d"

/-- A frame by its own bindings, with a sign that others are around it. -/
def display (s : Store) (e : FrameId) : String :=
  describeBindings (s.bindingsOf e) ++ if 0 < s.depth e then " -> ..." else ""

/-- A frame with all those around it. -/
def inspect (s : Store) (e : FrameId) : String :=
  let texts := (s.chain e).map fun g => describeBindings (s.bindingsOf g)
  "<Environment chain: " ++ " -> ".intercalate texts ++ ">"

/-- Binding a name creates no frame. -/
theorem size_put (s : Store) (e : FrameId) (name : String) (value : Value) :
    (s.put e name value).frames.size = s.frames.size := by
  simp [put]

/-- Binding a name leaves the nesting of frames alone. -/
theorem chainWithin_put (s : Store) (e : FrameId) (name : String) (value : Value) (bound : Nat)
    (start : Option FrameId) :
    (s.put e name value).chainWithin bound start = s.chainWithin bound start := by
  induction bound generalizing start with
  | zero => simp [chainWithin]
  | succ bound ih =>
    cases start with
    | none => simp [chainWithin]
    | some g =>
      simp only [chainWithin, put, Array.getElem?_modify]
      by_cases hg : e = g
      · subst hg
        cases hframe : s.frames[e]? with
        | none => simp
        | some frame =>
          simp only [if_true, Option.map_some]
          exact congrArg (e :: ·) (ih frame.outer)
      · simp only [hg, if_false]
        cases hframe : s.frames[g]? with
        | none => rfl
        | some frame => exact congrArg (g :: ·) (ih frame.outer)

/-- Binding a name leaves every chain alone. -/
theorem chain_put (s : Store) (e g : FrameId) (name : String) (value : Value) :
    (s.put e name value).chain g = s.chain g := by
  simp only [chain, size_put, chainWithin_put]

/-- Binding a name changes the bindings of its frame only. -/
theorem bindingsOf_put (s : Store) (e g : FrameId) (name : String) (value : Value) :
    (s.put e name value).bindingsOf g =
      if g = e ∧ e < s.frames.size then (s.bindingsOf g).put name value else s.bindingsOf g := by
  simp only [bindingsOf, put, Array.getElem?_modify]
  by_cases hg : e = g
  · subst hg
    by_cases hsize : e < s.frames.size <;> simp [hsize]
  · simp [hg, Ne.symm hg]

end Store

end LexicalLisp
