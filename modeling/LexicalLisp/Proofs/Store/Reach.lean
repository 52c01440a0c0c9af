import LexicalLisp.Proofs.Store.Nesting
import Mathlib.Data.List.Basic
import Mathlib.Data.List.Find
import Mathlib.Logic.Relation

/-!
# What frames and values lead to

From a frame one gets to the frame around it and to the values it binds, from a list to its items,
and from a closure to the frame it captured and to its body. What can be got to in this way is all
that an evaluation can come by, since names are found along outer links and bodies are run in frames
inside captured ones. The parameters of a closure lead nowhere: whatever they are, they are never
evaluated.

A set of frames that nothing leads out of stays so when names are bound to values from within and
frames are added inside it. Frames that do not exist yet count as members: they lead nowhere, and
become frames of the evaluation that creates them.
-/

namespace LexicalLisp

/-- A frame or a value. -/
inductive Node where
  | frame (e : FrameId)
  | value (v : Value)

namespace Node

/-- Frames are of one sort, and values have closures of another sort within them only. -/
def Confined (within : FrameId → Prop) (sort : Closure → Prop) : Node → Prop
  | .frame e => within e
  | .value v => ∀ c ∈ v.closures, sort c

/-- If it is a closure, it has the property. -/
def IfClosure (P : Closure → Prop) (y : Node) : Prop :=
  ∀ c : Closure, y = .value c.toValue → P c

/-- A closure has to have the property. -/
theorem ifClosure_closure_iff {P : Closure → Prop} {tag : Nat} {formals : List Value} {body : Value}
    {frame : FrameId} :
    IfClosure P (.value (.closure tag formals body frame)) ↔ P ⟨tag, formals, body, frame⟩ := by
  refine ⟨fun h => h _ rfl, fun h c hc => ?_⟩
  cases hc
  exact h

end Node

namespace Store

/-- What a frame, a list or a closure contains. -/
inductive Contains (s : Store) : Node → Node → Prop where
  | outer {e o : FrameId} (h : s.outerOf e = some o) : Contains s (.frame e) (.frame o)
  | bound {e : FrameId} {binding : String × Value} (h : binding ∈ s.bindingsOf e) :
      Contains s (.frame e) (.value binding.2)
  | item {v : Value} {items : List Value} (h : v ∈ items) :
      Contains s (.value (.list items)) (.value v)
  | captured (tag : Nat) (formals : List Value) (body : Value) (frame : FrameId) :
      Contains s (.value (.closure tag formals body frame)) (.frame frame)

/-- One step on: to something contained, or from a closure to its body. -/
inductive Link (s : Store) : Node → Node → Prop where
  | contains {y z : Node} (h : s.Contains y z) : Link s y z
  | body (tag : Nat) (formals : List Value) (body : Value) (frame : FrameId) :
      Link s (.value (.closure tag formals body frame)) (.value body)

/-- Any number of steps on. -/
abbrev Leads (s : Store) : Node → Node → Prop :=
  Relation.ReflTransGen s.Link

/-- What a frame or an expression leads to. -/
def Reachable (s : Store) (e : FrameId) (x : Value) (z : Node) : Prop :=
  s.Leads (.frame e) z ∨ s.Leads (.value x) z

/-- Only a frame that exists leads on. -/
theorem Link.lt_size {s : Store} {e : FrameId} {z : Node} (h : s.Link (.frame e) z) :
    e < s.frames.size := by
  cases h with
  | contains h =>
    cases h with
    | outer h => exact lt_size_of_outerOf h
    | bound h =>
      apply Nat.lt_of_not_le
      intro hsize
      rw [bindingsOf, Array.getElem?_eq_none hsize] at h
      cases h

section Confined

variable {s : Store} {within : FrameId → Prop} {sort : Closure → Prop}
  (houter : ∀ {e o : FrameId}, within e → s.outerOf e = some o → within o)
  (hheld : ∀ {e : FrameId} {c : Closure}, within e → c ∈ s.closuresIn e → sort c)
  (hframe : ∀ {c : Closure}, sort c → within c.frame)

include houter hheld hframe

/-- What is confined leads on to what is confined. -/
theorem confined_of_link {y z : Node} (hy : y.Confined within sort) (h : s.Link y z) :
    z.Confined within sort := by
  cases h with
  | contains h =>
    cases h with
    | outer h => exact houter hy h
    | bound h => exact fun c hc => hheld hy (mem_closuresIn_of_mem h hc)
    | item h => exact fun c hc => hy c (Value.mem_closures_list h hc)
    | captured => exact hframe (hy _ List.mem_cons_self)
  | body tag formals body frame =>
    exact fun c hc => hy c (List.mem_cons_of_mem _ (List.mem_append_right _ hc))

/-- What is confined leads to what is confined. -/
theorem confined_of_leads {y z : Node} (hy : y.Confined within sort) (h : s.Leads y z) :
    z.Confined within sort := by
  induction h with
  | refl => exact hy
  | tail _ hlink ih => exact confined_of_link houter hheld hframe ih hlink

end Confined

/-- A closure that is reachable is within a frame or within the expression. -/
theorem Reachable.of_forall {s : Store} {sort : Closure → Prop} {e : FrameId} {x : Value}
    (hheld : ∀ g, ∀ c ∈ s.closuresIn g, sort c) (hx : ∀ c ∈ x.closures, sort c) {c : Closure}
    (h : s.Reachable e x (.value c.toValue)) : sort c := by
  have hconfined (y : Node) (hy : y.Confined (fun _ => True) sort)
      (h : s.Leads y (.value c.toValue)) : sort c :=
    confined_of_leads (fun _ _ => trivial) (fun {g c} _ hc => hheld g c hc) (fun _ => trivial) hy h
      c List.mem_cons_self
  exact h.elim (hconfined (.frame e) trivial) (hconfined (.value x) hx)

/-- In a well-formed store, frames that exist lead to frames that exist. -/
theorem WellFormed.lt_size_of_leads {s : Store} (hs : s.WellFormed) {e g : FrameId}
    (he : e < s.frames.size) (h : s.Leads (.frame e) (.frame g)) : g < s.frames.size := by
  have hstart : (Node.frame e).Confined (· < s.frames.size) (·.frame < s.frames.size) := he
  exact confined_of_leads (fun he houter => Nat.lt_trans (hs.outer_lt houter) he)
    (fun _ hc => hs.captured_lt hc) id hstart h

/-- What a frame or a value leads to does not depend on frames that it does not lead to. -/
theorem leads_of_frames_eq {s t : Store} {y : Node}
    (hframes : ∀ g, s.Leads y (.frame g) → t.frames[g]? = s.frames[g]?) {z : Node}
    (h : t.Leads y z) : s.Leads y z := by
  induction h with
  | refl => exact .refl
  | tail _ hlink ih =>
    refine ih.tail ?_
    cases hlink with
    | contains h =>
      cases h with
      | outer houter => exact .contains (.outer (by rwa [outerOf, hframes _ ih] at houter))
      | bound hmem => exact .contains (.bound (by rwa [bindingsOf, hframes _ ih] at hmem))
      | item hv => exact .contains (.item hv)
      | captured tag formals body frame => exact .contains (.captured tag formals body frame)
    | body tag formals body frame => exact .body tag formals body frame

/-- The frame or value leads to what is of this sort only. -/
def LeadsOnlyTo (s : Store) (sort : Node → Prop) (y : Node) : Prop :=
  ∀ z, s.Leads y z → sort z

namespace LeadsOnlyTo

variable {s : Store} {sort : Node → Prop} {y z : Node}

/-- The closures that a frame and an expression lead to have the property. -/
theorem of_reachable {P : Closure → Prop} {e : FrameId} {x : Value}
    (h : ∀ c : Closure, s.Reachable e x (.value c.toValue) → P c) :
    s.LeadsOnlyTo (Node.IfClosure P) (.frame e) ∧
      s.LeadsOnlyTo (Node.IfClosure P) (.value x) :=
  ⟨fun _ hz c hc => h c (.inl (hc ▸ hz)), fun _ hz c hc => h c (.inr (hc ▸ hz))⟩

/-- What is one step on leads no further. -/
theorem link (h : s.LeadsOnlyTo sort y) (hlink : s.Link y z) : s.LeadsOnlyTo sort z :=
  fun u hu => h u (.head hlink hu)

/-- The steps that there are decide. -/
theorem of_links (hy : sort y) (h : ∀ z, s.Link y z → s.LeadsOnlyTo sort z) :
    s.LeadsOnlyTo sort y := by
  intro z hz
  rcases hz.cases_head with rfl | ⟨u, hlink, hu⟩
  · exact hy
  · exact h u hlink z hu

/-- An item of a list. -/
theorem item {v : Value} {items : List Value} (h : s.LeadsOnlyTo sort (.value (.list items)))
    (hv : v ∈ items) : s.LeadsOnlyTo sort (.value v) :=
  h.link (.contains (.item hv))

variable {tag : Nat} {formals : List Value} {code : Value} {frame : FrameId}

/-- The frame that a closure captured. -/
theorem captured (h : s.LeadsOnlyTo sort (.value (.closure tag formals code frame))) :
    s.LeadsOnlyTo sort (.frame frame) :=
  h.link (.contains (.captured tag formals code frame))

/-- The body of a closure. -/
theorem body (h : s.LeadsOnlyTo sort (.value (.closure tag formals code frame))) :
    s.LeadsOnlyTo sort (.value code) :=
  h.link (.body tag formals code frame)

/-- A closure of the sort, from the frame that it captured and its body. -/
theorem closure (hself : sort (.value (.closure tag formals code frame)))
    (hframe : s.LeadsOnlyTo sort (.frame frame)) (hbody : s.LeadsOnlyTo sort (.value code)) :
    s.LeadsOnlyTo sort (.value (.closure tag formals code frame)) := by
  refine of_links hself fun z hlink => ?_
  cases hlink with
  | contains h =>
    cases h with
    | captured => exact hframe
  | body => exact hbody

end LeadsOnlyTo

/-- Nothing leads out of a set of frames and values, but where values lead on their own. -/
structure Enclosed (s : Store) (within : Node → Prop) : Prop where
  fresh : ∀ e : Nat, s.frames.size ≤ e → within (.frame e)
  outer : ∀ {e o : FrameId}, within (.frame e) → s.outerOf e = some o → within (.frame o)
  bound : ∀ {e : FrameId} {binding : String × Value}, within (.frame e) →
    binding ∈ s.bindingsOf e → within (.value binding.2)

namespace Enclosed

variable {s : Store} {within : Node → Prop}

/-- The frames on the chain of a member are members. -/
theorem chain (h : s.Enclosed within) {e : FrameId} (he : within (.frame e)) :
    ∀ g ∈ s.chain e, within (.frame g) := by
  have hwithin (bound : Nat) (start : Option FrameId)
      (hstart : ∀ e, start = some e → within (.frame e)) :
      ∀ g ∈ s.chainWithin bound start, within (.frame g) := by
    induction bound generalizing start with
    | zero =>
      intro g hg
      cases hg
    | succ bound ih =>
      cases start with
      | none =>
        intro g hg
        cases hg
      | some e =>
        have he := hstart e rfl
        rw [chainWithin]
        cases hframe : s.frames[e]? with
        | none =>
          intro g hg
          cases hg
        | some frame =>
          refine List.forall_mem_cons.mpr ⟨he, ih frame.outer fun o ho => h.outer he ?_⟩
          rw [outerOf, hframe, Option.bind_some, ho]
  exact hwithin _ _ fun _ heq => Option.some.inj heq ▸ he

/-- A value that is seen from a member is a member. -/
theorem lookup? (h : s.Enclosed within) {e : FrameId} (he : within (.frame e)) {name : String}
    {value : Value} (hfound : s.lookup? e name = some value) : within (.value value) := by
  obtain ⟨g, hg, hvalue⟩ := List.exists_of_findSome?_eq_some hfound
  exact h.bound (h.chain he g hg) (Bindings.mem_of_get? hvalue)

/-- A name that is seen from a member is bound in a member. -/
theorem find? (h : s.Enclosed within) {e g : FrameId} (he : within (.frame e)) {name : String}
    (hfound : s.find? e name = some g) : within (.frame g) :=
  h.chain he g (List.mem_of_find?_eq_some hfound)

/-- Tags do not matter. -/
theorem tag (h : s.Enclosed within) (tag : Nat) : Enclosed { s with nextTag := tag } within :=
  ⟨h.fresh, h.outer, h.bound⟩

/-- Binding a name to a member. -/
theorem put (h : s.Enclosed within) (e : FrameId) (name : String) {value : Value}
    (hvalue : within (.value value)) : (s.put e name value).Enclosed within where
  fresh g hg := h.fresh g (size_put s e name value ▸ hg)
  outer hg houter := h.outer hg (outerOf_put s e _ name value ▸ houter)
  bound hg hmem := by
    rw [bindingsOf_put] at hmem
    split at hmem
    · rcases Bindings.mem_put hmem with rfl | hold
      · exact hvalue
      · exact h.bound hg hold
    · exact h.bound hg hmem

/-- Adding a frame inside a member, with members for values. -/
theorem push (h : s.Enclosed within) {o : FrameId} {bindings : Bindings} (ho : within (.frame o))
    (hbindings : ∀ binding ∈ bindings, within (.value binding.2)) :
    (s.push ⟨some o, bindings⟩).Enclosed within where
  fresh g hg := by
    rw [size_push] at hg
    exact h.fresh g (Nat.le_of_succ_le hg)
  outer hg houter := by
    rw [outerOf_push] at houter
    split at houter
    · exact Option.some.inj houter ▸ ho
    · exact h.outer hg houter
  bound hg hmem := by
    rw [bindingsOf_push] at hmem
    split at hmem
    · exact hbindings _ hmem
    · exact h.bound hg hmem

/-- Where members are what leads to one sort only, that is what they lead to later on. -/
theorem leads {start : Store} {sort : Node → Prop} (h : s.Enclosed (start.LeadsOnlyTo sort))
    {y z : Node} (hy : start.LeadsOnlyTo sort y) (hleads : s.Leads y z) :
    start.LeadsOnlyTo sort z := by
  induction hleads with
  | refl => exact hy
  | tail _ hlink ih =>
    -- Where a value leads on its own is the same in every store.
    cases hlink with
    | contains hcontains =>
      cases hcontains with
      | outer houter => exact h.outer ih houter
      | bound hmem => exact h.bound ih hmem
      | item hv => exact ih.item hv
      | captured => exact ih.captured
    | body => exact ih.body

end Enclosed

/-- Nothing leads out of what leads to one sort only. -/
theorem enclosed_leadsOnlyTo (s : Store) {sort : Node → Prop}
    (hfresh : ∀ e : Nat, s.frames.size ≤ e → sort (.frame e)) :
    s.Enclosed (s.LeadsOnlyTo sort) where
  fresh e he := .of_links (hfresh e he) fun _ hlink =>
    absurd hlink.lt_size (Nat.not_lt.mpr he)
  outer he houter := he.link (.contains (.outer houter))
  bound he hmem := he.link (.contains (.bound hmem))

/-- The store with other bindings in one frame. -/
def rebind (s : Store) (g : FrameId) (bindings : Bindings) : Store :=
  { s with frames := s.frames.modify g fun frame => { frame with bindings } }

section Rebind

variable (s : Store) (g : FrameId) (bindings : Bindings)

/-- Other bindings make no frame. -/
theorem size_rebind : (s.rebind g bindings).frames.size = s.frames.size := by
  simp [rebind]

/-- Other bindings move no frame. -/
theorem outerOf_rebind (e : FrameId) : (s.rebind g bindings).outerOf e = s.outerOf e := by
  simp only [outerOf, rebind, Array.getElem?_modify]
  split
  · cases s.frames[e]? <;> rfl
  · rfl

/-- Other bindings in one frame leave those of the others alone. -/
theorem get?_rebind_of_ne {e : FrameId} (he : e ≠ g) (name : String) :
    (s.rebind g bindings).get? e name = s.get? e name := by
  simp [get?, bindingsOf, rebind, Array.getElem?_modify, Ne.symm he]

/-- Other bindings leave chains alone. -/
theorem chain_rebind (e : FrameId) : (s.rebind g bindings).chain e = s.chain e :=
  chain_congr (size_rebind s g bindings) (outerOf_rebind s g bindings) e

/-- A frame off the chain does not matter to the value of a name. -/
theorem lookup?_rebind {e : FrameId} (he : ∀ h ∈ s.chain e, h ≠ g) (name : String) :
    (s.rebind g bindings).lookup? e name = s.lookup? e name := by
  rw [lookup?, lookup?, chain_rebind, ← List.head?_filterMap, ← List.head?_filterMap]
  exact congrArg List.head? (List.filterMap_congr fun h hh =>
    get?_rebind_of_ne s g bindings (he h hh) name)

/-- A frame off the chain does not matter to where a name is bound. -/
theorem find?_rebind {e : FrameId} (he : ∀ h ∈ s.chain e, h ≠ g) (name : String) :
    (s.rebind g bindings).find? e name = s.find? e name := by
  rw [find?, find?, chain_rebind]
  exact List.find?_congr fun h hh => by
    rw [binds, binds, get?_rebind_of_ne s g bindings (he h hh) name]

/-- Binding a name in another frame, before or after. -/
theorem put_rebind {e : FrameId} (he : e ≠ g) (name : String) (value : Value) :
    (s.rebind g bindings).put e name value = (s.put e name value).rebind g bindings := by
  refine congrArg (Store.mk · s.nextTag) (Array.ext_getElem? fun i => ?_)
  simp only [rebind, put, Array.getElem?_modify]
  by_cases hg : g = i
  · have hi : e ≠ i := hg ▸ he
    simp [hg, hi]
  · simp [hg]

/-- Adding a frame, before or after. -/
theorem push_rebind (hg : g < s.frames.size) (frame : Frame) :
    (s.rebind g bindings).push frame = (s.push frame).rebind g bindings := by
  refine congrArg (Store.mk · s.nextTag) (Array.ext_getElem? fun i => ?_)
  simp only [rebind, push, Array.getElem?_modify, Array.getElem?_push, Array.size_modify]
  by_cases hi : i = s.frames.size
  · have hne : g ≠ s.frames.size := Nat.ne_of_lt hg
    simp [hi, hne]
  · simp [hi]

end Rebind

end Store

/-- The state with other bindings in one frame. -/
def State.rebind (s : State) (g : FrameId) (bindings : Bindings) : State :=
  { s with store := s.store.rebind g bindings }

end LexicalLisp
