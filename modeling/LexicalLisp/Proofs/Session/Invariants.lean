import LexicalLisp.Proofs.Session.Calls
import LexicalLisp.Proofs.Session.Roots

/-!
# What holds throughout a session

A session starts with a root in an empty store and goes on by calls, each of which may fail or run
out of depth part way. The store stays sound: outer links lead to earlier frames and from every
frame to the root, closures captured frames that exist, and no frame repeats a name.

All calls consist of moves, and every state that moves lead to is sound.
-/

namespace LexicalLisp

/-- Requests to one root, each with the depth it may use. -/
def callsOn (root : FrameId) (requests : List (Nat × TextRequest)) : List Call :=
  requests.map fun (limit, request) => ⟨root, limit, .text request⟩

/-- Calls within a well-formed store consist of moves, and the closures that they answer captured
frames that exist. -/
theorem performEach_moves {s : State} (hs : s.store.WellFormed) {calls : List Call}
    (hcalls : ∀ call ∈ calls, call.root < s.store.frames.size ∧
      ∀ c ∈ call.closures, c.frame < s.store.frames.size) :
    State.Moves s (performEach calls s).2 ∧
      ∀ v, .ok (some v) ∈ (performEach calls s).1 →
        ∀ c ∈ v.closures, c.frame < (performEach calls s).2.store.frames.size := by
  have hadmits : ∀ call ∈ calls, (movingFrom s).Admits s.store.frames.size call := by
    intro call hcall n hle x hx
    obtain ⟨hroot, hcaptured⟩ := hcalls call hcall
    exact ⟨lt_of_lt_of_le hroot hle,
      fun c hc => lt_of_lt_of_le (hcaptured c (Call.mem_closures hx hc)) hle⟩
  obtain ⟨n, -, ⟨-, rfl, -, hmoves⟩, -, hvalues⟩ :=
    (movingFrom_lawful s).performEach hadmits ⟨rfl, rfl, hs, .refl⟩
  exact ⟨hmoves, hvalues⟩

namespace Store

/-- A store as it should be in a session with this root.

Following outer links from a frame comes to the root. The frames on the way decide where a name is
found, which value it has, how deep the frame lies and how it is shown. -/
structure Sound (s : Store) (root : FrameId) : Prop where
  wellFormed : s.WellFormed
  walk : ∀ e < s.frames.size, ∃ path, s.Walk e path ∧ path.getLast? = some root ∧
    s.depth e + 1 = path.length ∧
    (∀ name, s.find? e name = path.find? (s.binds · name)) ∧
    (∀ name, s.lookup? e name = path.findSome? (s.get? · name)) ∧
    s.inspect e = "<Environment chain: " ++
      " -> ".intercalate (path.map fun g => describeBindings (s.bindingsOf g)) ++ ">"

/-- A well-formed store with a single root is sound. -/
theorem WellFormed.sound {s : Store} (hs : s.WellFormed) {root : FrameId}
    (hroot : ∀ e < s.frames.size, s.outerOf e = none → e = root) : s.Sound root where
  wellFormed := hs
  walk e he := by
    have hwalk := walk_chain hs.outer_lt he
    obtain ⟨r, hlast, hr, houter⟩ := hwalk.getLast?
    refine ⟨s.chain e, hwalk, hroot r hr houter ▸ hlast, ?_, fun _ => rfl, fun _ => rfl, rfl⟩
    exact Nat.sub_add_cancel (List.length_pos_of_mem (List.mem_of_getLast? hlast))

end Store

/-- The outcomes of requests to a root, and the state they leave. -/
def performRequests (root : FrameId) (requests : List (Nat × TextRequest)) (s : State) :
    List (Outcome (Option Value)) × State :=
  performEach (callsOn root requests) s

/-- Requests after others go on from the state that these leave. -/
theorem performRequests_append (root : FrameId) (first second : List (Nat × TextRequest))
    (s : State) :
    performRequests root (first ++ second) s =
      ((performRequests root first s).1 ++
          (performRequests root second (performRequests root first s).2).1,
        (performRequests root second (performRequests root first s).2).2) := by
  rw [performRequests, callsOn, List.map_append]
  exact performEach_append _ _ s

/-- Requests to a frame of a well-formed store consist of moves, and the closures that they answer
captured frames that exist. -/
theorem performRequests_moves {s : State} (hs : s.store.WellFormed) {root : FrameId}
    (hroot : root < s.store.frames.size) (requests : List (Nat × TextRequest)) :
    State.Moves s (performRequests root requests s).2 ∧
      ∀ v, .ok (some v) ∈ (performRequests root requests s).1 →
        ∀ c ∈ v.closures, c.frame < (performRequests root requests s).2.store.frames.size :=
  performEach_moves hs fun _ hcall => by
    obtain ⟨_, -, rfl⟩ := List.mem_map.mp hcall
    exact ⟨hroot, nofun⟩

/-- Moves from a well-formed store with a single root lead to sound stores only. -/
theorem State.Moves.sound {s t : State} (h : State.Moves s t) (hs : s.store.WellFormed)
    {root : FrameId} (hroot : ∀ e < s.store.frames.size, s.store.outerOf e = none → e = root) :
    t.store.Sound root := by
  refine (h.wellFormed hs).sound fun e he houter => ?_
  have hold := h.grows.inside e he houter
  exact hroot e hold (h.grows.outer_eq e hold ▸ houter)

end LexicalLisp
