import LexicalLisp.Eval.Basic

/-!
# Names in scope

Frames are addressed with values as names. Only symbols are ever bound; any other value is simply
not bound when it is looked up, and refused when it is to be bound.
-/

namespace LexicalLisp

namespace Store

/-- The frame itself binds this name. -/
def bindsName (s : Store) (e : FrameId) (name : Value) : Bool :=
  match name with
  | .symbol text => s.binds e text
  | _ => false

/-- The nearest frame on the chain that binds this name. -/
def findName? (s : Store) (e : FrameId) (name : Value) : Option FrameId :=
  match name with
  | .symbol text => s.find? e text
  | _ => none

end Store

namespace Eval

/-- Look a name up along the chain of a frame. -/
def lookup (e : FrameId) (name : Value) : Eval Value := do
  let store ← getStore
  match name.symbolName?.bind (store.lookup? e) with
  | some value => succeed value
  | none => fail (.unbound name)

/-- Bind a name in a frame. -/
def bindName (e : FrameId) (name value : Value) : Eval Unit :=
  match name with
  | .symbol text => modifyStore (·.put e text value)
  | _ => fail (.bindNonSymbol name)

/-- Overwrite the nearest binding of a name. -/
def overwrite (e : FrameId) (name value : Value) : Eval Unit := do
  let store ← getStore
  match name with
  | .symbol text =>
    match store.find? e text with
    | some target => modifyStore (·.put target text value)
    | none => fail (.overwriteUnbound name)
  | _ => fail (.overwriteUnbound name)

/-- Create a frame. -/
def newFrame (frame : Frame) : Eval FrameId :=
  fun s => (.ok s.store.frames.size, { s with store := s.store.push frame })

end Eval

/-- Set the value of a symbol that is already among the pairs, or add the pair at the end. -/
def putPair (name value : Value) : List (Value × Value) → List (Value × Value)
  | [] => [(name, value)]
  | (key, old) :: rest =>
    match key, name with
    | .symbol k, .symbol n =>
      if k = n then (key, value) :: rest else (key, old) :: putPair name value rest
    | _, _ => (key, old) :: putPair name value rest

/-- A repeated symbol keeps its first place and takes its last value. -/
def mergePairs (pairs : List (Value × Value)) : List (Value × Value) :=
  pairs.foldl (fun merged (name, value) => putPair name value merged) []

/-- Bind each pair in order, up to the first name that is not a symbol. -/
def bindEach (e : FrameId) : List (Value × Value) → Eval Unit
  | [] => Eval.succeed ()
  | (name, value) :: rest => do
    Eval.bindName e name value
    bindEach e rest

/-- Bind many names at once in a frame. -/
def bindMany (e : FrameId) (pairs : List (Value × Value)) : Eval Unit :=
  bindEach e (mergePairs pairs)

/-- Bind parameters to arguments; a repeated parameter takes the last argument. -/
def bindFormals (bindings : Bindings) : List (Value × Value) → Except Error Bindings
  | [] => .ok bindings
  | (.symbol name, value) :: rest => bindFormals (bindings.put name value) rest
  | (formal, _) :: _ => .error (.bindNonSymbol formal)

/-- The frame for a call of a closure, inside the frame that the closure was created in.

The number of arguments is checked before the parameters are looked at. -/
def callFrame (closure : Value) (formals : List Value) (frame : FrameId)
    (arguments : List Value) : Eval FrameId :=
  if arguments.length = formals.length then do
    let bindings ← Eval.ofExcept (bindFormals [] (formals.zip arguments))
    Eval.newFrame ⟨some frame, bindings⟩
  else Eval.fail (.argumentCount closure formals.length arguments.length)

end LexicalLisp
