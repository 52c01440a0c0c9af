import LexicalLisp.Proofs.Eval.Discipline
import LexicalLisp.Proofs.Store.Reach

/-!
# Frames out of reach

An evaluation that starts where nothing leads to a frame never comes to it: the frame keeps its
outer link and its bindings, and other bindings in it would have made no difference. Both are said
at once by comparing a run with one from a state that differs in the bindings of this frame only.
All the while the two states differ there and nowhere else.

The discipline keeps the evaluation to frames, values and expressions that did not lead to the frame
at the start.
-/

namespace LexicalLisp

/-- The frame or value does not lead to the frame. -/
abbrev Store.Misses (s : Store) (g : FrameId) : Node → Prop :=
  s.LeadsOnlyTo (· ≠ .frame g)

/-- Evaluation of what does not lead to a frame in the store at the start, in two states that differ
in the bindings of this frame only. In the first state the frame is kept as it is. -/
def keepingAway (start : Store) (g : FrameId) (kept : Frame) (bindings : Bindings) :
    Discipline where
  World := Discipline.Still
  states _ s s' := s.store.Enclosed (start.Misses g) ∧ s.store.frames[g]? = some kept ∧
    s' = s.rebind g bindings
  value _ v := start.Misses g (.value v)
  code _ e x := start.Misses g (.frame e) ∧ start.Misses g (.value x)

section

variable {start : Store} {g : FrameId} {kept : Frame} {bindings : Bindings} {s s' : State}

/-- Missing a frame is not leading to it. -/
theorem Store.misses_iff {y : Node} : start.Misses g y ↔ ¬ start.Leads y (.frame g) :=
  ⟨fun h hleads => h _ hleads rfl, fun h _ hz heq => h (heq ▸ hz)⟩

/-- A frame that does not lead to the frame is another one. -/
theorem Store.Misses.ne {e : FrameId} (h : start.Misses g (.frame e)) : e ≠ g :=
  fun heq => h _ .refl (congrArg Node.frame heq)

/-- A value without closures leads to no frame. -/
theorem Store.misses_of_closures_eq_nil {x : Value} (hx : x.closures = []) :
    start.Misses g (.value x) := by
  have hconfined : (Node.value x).Confined (fun _ => False) (fun _ => False) := by
    intro c hc
    rw [hx] at hc
    cases hc
  rintro _ hz rfl
  exact confined_of_leads False.elim False.elim False.elim hconfined hz

/-- Binding a name elsewhere keeps the two states apart in the one frame only. -/
theorem keepingAway_put (hs : (keepingAway start g kept bindings).states ⟨⟩ s s') {e : FrameId}
    (he : start.Misses g (.frame e)) (name : String) {v : Value}
    (hv : start.Misses g (.value v)) :
    (keepingAway start g kept bindings).states ⟨⟩ { s with store := s.store.put e name v }
      { s' with store := s'.store.put e name v } := by
  obtain ⟨henclosed, hkept, rfl⟩ := hs
  have hne : e ≠ g := Store.Misses.ne he
  exact ⟨henclosed.put e name hv,
    (Store.getElem?_frames_put_of_ne (Ne.symm hne) name v).trans hkept,
    congrArg (State.mk · s.log) (s.store.put_rebind g bindings hne name v)⟩

variable (start g kept bindings)

/-- Evaluation of what does not lead to a frame leaves the frame alone. -/
theorem keepingAway_lawful : (keepingAway start g kept bindings).Lawful where
  value_mono _ hv := hv
  code_mono _ hx := hx
  number _ _ := .of_links nofun nofun
  boolean _ _ := .of_links nofun nofun
  emit event := by
    rintro ⟨henclosed, hkept, rfl⟩
    exact ⟨henclosed, hkept, rfl⟩
  tag := by
    rintro _ s s' ⟨henclosed, hkept, rfl⟩
    exact ⟨rfl, henclosed.tag _, hkept, rfl⟩
  lookup := by
    rintro _ e name s s' ⟨he, -⟩ ⟨henclosed, -, rfl⟩
    have hoff : ∀ h ∈ s.store.chain e, h ≠ g :=
      fun h hh => Store.Misses.ne (henclosed.chain he h hh)
    exact ⟨(s.store.lookup?_rebind g bindings hoff name).symm,
      fun hfound => henclosed.lookup? he hfound⟩
  closure := fun ⟨_, hx⟩ => hx
  quote := fun ⟨_, hx⟩ => hx.item (by simp)
  lambda := by
    rintro _ e fs b s s' ⟨he, hx⟩ ⟨henclosed, hkept, rfl⟩
    exact ⟨congrArg (·.length - 1) (s.store.chain_rebind g bindings e).symm, ⟨⟩, le_refl _,
      ⟨henclosed.tag _, hkept, rfl⟩, .closure nofun he (hx.item (by simp))⟩
  define := fun {_ e name _} ⟨he, hx⟩ =>
    ⟨⟨he, hx.item (by simp)⟩, fun _ hv hs => keepingAway_put hs he name hv⟩
  assign := by
    rintro _ e name x ⟨he, hx⟩
    refine ⟨⟨he, hx.item (by simp)⟩, ?_⟩
    rintro _ s s' - hs
    have henclosed : s.store.Enclosed (start.Misses g) := hs.1
    obtain rfl : s' = s.rebind g bindings := hs.2.2
    have hoff : ∀ h ∈ s.store.chain e, h ≠ g :=
      fun h hh => Store.Misses.ne (henclosed.chain he h hh)
    exact ⟨(s.store.find?_rebind g bindings hoff name).symm,
      fun hv hfound => keepingAway_put hs (henclosed.find? he hfound) name hv⟩
  operands := fun ⟨he, hx⟩ _ _ hy => ⟨he, hx.item (List.mem_cons_of_mem _ hy)⟩
  head := fun ⟨he, hx⟩ _ => ⟨he, hx.item List.mem_cons_self⟩
  enter := by
    rintro _ t fs b f us new s s' hclosure hargs hbound ⟨henclosed, hkept, rfl⟩
    have hlt : g < s.store.frames.size := by
      obtain ⟨hlt, -⟩ := Array.getElem?_eq_some_iff.mp hkept
      exact hlt
    refine ⟨(s.store.size_rebind g bindings).symm, ⟨⟩, le_refl _, ⟨?_, ?_, ?_⟩, ?_, ?_⟩
    · exact henclosed.push hclosure.captured (forall_bindFormals hbound hargs)
    · exact (Store.getElem?_frames_push_of_ne (Nat.ne_of_lt hlt) _).trans hkept
    · exact congrArg (State.mk · s.log) (s.store.push_rebind g bindings hlt _)
    -- The frame of the call did not exist before, and such frames lead nowhere.
    · exact henclosed.fresh _ (Nat.le_refl _)
    · exact hclosure.body

end

/-- At the start, two states that differ in the bindings of one frame are within the discipline. -/
theorem keepingAway_start {s : State} {g : FrameId} (hg : g < s.store.frames.size)
    (bindings : Bindings) :
    (keepingAway s.store g ⟨s.store.outerOf g, s.store.bindingsOf g⟩ bindings).states ⟨⟩ s
      (s.rebind g bindings) := by
  refine ⟨s.store.enclosed_leadsOnlyTo fun e he heq => ?_, Store.getElem?_frames hg, rfl⟩
  exact Nat.not_lt.mpr he (Node.frame.inj heq ▸ hg)

/-- A frame that nothing at hand leads to is neither changed nor noticed. -/
theorem evaluate_unreachable {s : State} {e g : FrameId} {x : Value}
    (hg : g < s.store.frames.size) (hreach : ¬ s.store.Reachable e x (.frame g)) (limit : Nat) :
    (evaluate limit x e s).2.store.frames[g]? = s.store.frames[g]? ∧
      ∀ bindings, evaluate limit x e (s.rebind g bindings) =
        ((evaluate limit x e s).1, (evaluate limit x e s).2.rebind g bindings) := by
  obtain ⟨he, hx⟩ := not_or.mp hreach
  have hcode : s.store.Misses g (.frame e) ∧ s.store.Misses g (.value x) :=
    ⟨Store.misses_iff.mpr he, Store.misses_iff.mpr hx⟩
  have hrun (bindings : Bindings) := ((keepingAway_lawful s.store g _ bindings).evaluate limit
    (w := Discipline.Still.mk) hcode).outcome (keepingAway_start hg bindings)
  refine ⟨?_, fun bindings => ?_⟩
  · obtain ⟨-, -, ⟨-, hafter, -⟩, -, -⟩ := hrun []
    exact hafter.trans (Store.getElem?_frames hg).symm
  · obtain ⟨-, -, ⟨-, -, hstate⟩, houtcome, -⟩ := hrun bindings
    exact Prod.ext houtcome.symm hstate

end LexicalLisp
