import LexicalLisp.Proofs.Eval.Locality
import LexicalLisp.Proofs.Session.Invariants

/-!
# Roots apart from each other

A new root leads to itself only, and no frame that existed before leads to it. Two frames that lead
to no common frame stay so through calls on either of them, as long as no call brings in a closure
that leads to what belongs to the other. Calls on one of them therefore leave every frame that the
other leads to as it is, and go the same way whatever such a frame holds.
-/

namespace LexicalLisp

/-- The two frames or values lead to no common frame. -/
def Store.Apart (s : Store) (y z : Node) : Prop :=
  ∀ g, s.Leads y (.frame g) → ¬ s.Leads z (.frame g)

/-- The call is addressed to one frame, and an expression that it hands over holds closures of
frames that exist and is apart from the other frame. -/
def Call.KeepsTo (call : Call) (s : Store) (mine other : FrameId) : Prop :=
  call.root = mine ∧ (∀ c ∈ call.closures, c.frame < s.frames.size) ∧
    ∀ x, call.task = .expression x → s.Apart (.value x) (.frame other)

/-- Each call of a history keeps to one of two frames at the time it is performed. -/
def KeepApart (a b : FrameId) : List Call → State → Prop
  | [], _ => True
  | call :: rest, s =>
    (call.KeepsTo s.store a b ∨ call.KeepsTo s.store b a) ∧ KeepApart a b rest (call.perform s).2

/-- Calls from where nothing leads to a frame neither change nor notice it, and nothing leads to it
afterwards from what did not lead to it before. -/
theorem performEach_unreachable {s : State} {g : FrameId} (hg : g < s.store.frames.size)
    {calls : List Call} (hcalls : ∀ call ∈ calls, s.store.Misses g (.frame call.root) ∧
      ∀ x, call.task = .expression x → s.store.Misses g (.value x)) :
    (performEach calls s).2.store.Enclosed (s.store.Misses g) ∧
      (performEach calls s).2.store.frames[g]? = s.store.frames[g]? ∧
      ∀ bindings, performEach calls (s.rebind g bindings) =
        ((performEach calls s).1, (performEach calls s).2.rebind g bindings) := by
  have hadmits (kept : Frame) (bindings : Bindings) : ∀ call ∈ calls,
      (keepingAway s.store g kept bindings).Admits ⟨⟩ call := by
    intro call hcall _ _ x hx
    refine ⟨(hcalls call hcall).1, ?_⟩
    rcases hx with hwritten | hhanded
    · exact Store.misses_of_closures_eq_nil (Value.closures_of_isTree x hwritten.isTree)
    · exact (hcalls call hcall).2 x hhanded
  have hrun (bindings : Bindings) := (keepingAway_lawful s.store g _ bindings).performEach
    (hadmits _ bindings) (keepingAway_start hg bindings)
  obtain ⟨-, -, ⟨henclosed, hafter, -⟩, -, -⟩ := hrun []
  refine ⟨henclosed, hafter.trans (Store.getElem?_frames hg).symm, fun bindings => ?_⟩
  obtain ⟨-, -, ⟨-, -, hstate⟩, houtcomes, -⟩ := hrun bindings
  exact Prod.ext houtcomes.symm hstate

namespace Store

/-- Two frames of a well-formed store that lead to no common frame. -/
structure Parted (s : Store) (a b : FrameId) : Prop where
  wellFormed : s.WellFormed
  left_lt : a < s.frames.size
  right_lt : b < s.frames.size
  apart : s.Apart (.frame a) (.frame b)

/-- Parted frames are so from either side. -/
theorem Parted.symm {s : Store} {a b : FrameId} (h : s.Parted a b) : s.Parted b a :=
  ⟨h.wellFormed, h.right_lt, h.left_lt, fun g hb ha => h.apart g ha hb⟩

end Store

section

variable {s : State} {a b : FrameId} {calls : List Call}

/-- Calls that keep to one of two parted frames neither change nor notice what the other leads
to. -/
theorem Store.Parted.performEach_unreachable (h : s.store.Parted a b)
    (hcalls : ∀ call ∈ calls, call.KeepsTo s.store a b) {g : FrameId}
    (hg : s.store.Leads (.frame b) (.frame g)) :
    (performEach calls s).2.store.Enclosed (s.store.Misses g) ∧
      (performEach calls s).2.store.frames[g]? = s.store.frames[g]? ∧
      ∀ bindings, performEach calls (s.rebind g bindings) =
        ((performEach calls s).1, (performEach calls s).2.rebind g bindings) := by
  refine LexicalLisp.performEach_unreachable (h.wellFormed.lt_size_of_leads h.right_lt hg)
    fun call hcall => ?_
  obtain ⟨rfl, -, hhanded⟩ := hcalls call hcall
  exact ⟨Store.misses_iff.mpr fun hreach => h.apart g hreach hg,
    fun x hx => Store.misses_iff.mpr fun hreach => hhanded x hx g hreach hg⟩

/-- Calls that keep to one of two parted frames leave them parted. -/
theorem Store.Parted.performEach (h : s.store.Parted a b)
    (hcalls : ∀ call ∈ calls, call.KeepsTo s.store a b) :
    (performEach calls s).2.store.Parted a b := by
  have hmoves := (performEach_moves h.wellFormed fun call hcall =>
    ⟨(hcalls call hcall).1 ▸ h.left_lt, (hcalls call hcall).2.1⟩).1
  have hsize := hmoves.grows.size_le
  refine ⟨hmoves.wellFormed h.wellFormed, Nat.lt_of_lt_of_le h.left_lt hsize,
    Nat.lt_of_lt_of_le h.right_lt hsize, fun g ha hb => ?_⟩
  -- What the other frame leads to is unchanged, so it leads to the same frames as before.
  have hbefore : s.store.Leads (.frame b) (.frame g) :=
    Store.leads_of_frames_eq (fun k hk => (h.performEach_unreachable hcalls hk).2.1) hb
  have henclosed := (h.performEach_unreachable hcalls hbefore).1
  have hmisses : s.store.Misses g (.frame a) :=
    Store.misses_iff.mpr fun hreach => h.apart g hreach hbefore
  exact Store.misses_iff.mp (henclosed.leads hmisses ha) .refl

/-- A history that keeps two parted frames apart leaves them parted. -/
theorem Store.Parted.history (h : s.store.Parted a b) (hcalls : KeepApart a b calls s) :
    (LexicalLisp.performEach calls s).2.store.Parted a b := by
  induction calls generalizing s with
  | nil => exact h
  | cons call rest ih =>
    obtain ⟨hcall, hrest⟩ := hcalls
    have hstep : (call.perform s).2.store.Parted a b := by
      rcases hcall with hcall | hcall
      · have hone : ∀ one ∈ [call], one.KeepsTo s.store a b := List.forall_mem_singleton.mpr hcall
        exact h.performEach hone
      · have hone : ∀ one ∈ [call], one.KeepsTo s.store b a := List.forall_mem_singleton.mpr hcall
        exact (h.symm.performEach hone).symm
    exact ih hstep hrest

end

/-- A new root is parted from every frame that existed before. -/
theorem Store.WellFormed.parted_withRoot {s : State} (hs : s.store.WellFormed) {e : FrameId}
    (he : e < s.store.frames.size) (tag tag' : Nat) :
    (s.withRoot (standardBindings s.store.frames.size tag) tag').store.Parted e
      s.store.frames.size := by
  have hsize : (s.withRoot (standardBindings s.store.frames.size tag) tag').store.frames.size =
      s.store.frames.size + 1 := s.store.size_push _
  refine ⟨hs.withRoot tag tag', hsize ▸ Nat.lt_succ_of_lt he, hsize ▸ Nat.lt_succ_self _,
    fun g hold hnew => ?_⟩
  have hlt : g < s.store.frames.size := by
    refine hs.lt_size_of_leads he (Store.leads_of_frames_eq (fun k hk => ?_) hold)
    have hk := hs.lt_size_of_leads he hk
    exact Store.getElem?_frames_push_of_ne (Nat.ne_of_lt hk) _
  have hstart : (Node.frame s.store.frames.size).Confined (· = s.store.frames.size)
    (·.frame = s.store.frames.size) := rfl
  have heq : g = s.store.frames.size := by
    refine Store.confined_of_leads ?_ ?_ id hstart hnew
    · rintro _ o rfl houter
      have hnone := (s.store.outerOf_push ⟨none, standardBindings s.store.frames.size tag⟩
        s.store.frames.size).trans (if_pos rfl)
      exact absurd (hnone.symm.trans houter) nofun
    · rintro _ c rfl hc
      rcases Store.mem_closuresIn_push hc with hold | ⟨-, binding, hmem, hheld⟩
      · exact absurd (Store.lt_size_of_mem_closuresIn hold) (Nat.lt_irrefl _)
      · exact frame_of_mem_standardBindings hmem hheld
  exact Nat.ne_of_lt hlt heq

/-- Evaluation is confined to what the frame and the expression lead to, and roots are apart.

A frame that is not reachable keeps its outer link and its bindings, and with other bindings in it
the evaluation ends the same way, records the same events and leaves every other frame with the
same contents. A new root and any frame from before it, such as an earlier root, are apart in this
sense: after any history of calls that keep to one or the other, further calls on one of them
neither change any frame that the other leads to, nor depend on what it holds. -/
theorem evaluation_confined_to_reach :
    (∀ (s : State) (e : FrameId) (x : Value) (g : FrameId) (limit : Nat),
      g < s.store.frames.size → ¬ s.store.Reachable e x (.frame g) →
      (evaluate limit x e s).2.store.frames[g]? = s.store.frames[g]? ∧
        ∀ bindings, evaluate limit x e (s.rebind g bindings) =
          ((evaluate limit x e s).1, (evaluate limit x e s).2.rebind g bindings)) ∧
    ∀ (s : State) (old : FrameId), s.store.WellFormed → old < s.store.frames.size →
      ∃ new t, standardRoot s = (.ok new, t) ∧
        ∀ history, KeepApart old new history t →
          ∀ mine other, (mine = old ∧ other = new) ∨ (mine = new ∧ other = old) →
            ∀ calls, (∀ call ∈ calls,
              call.KeepsTo (performEach history t).2.store mine other) →
              ∀ g, (performEach history t).2.store.Leads (.frame other) (.frame g) →
                (performEach calls (performEach history t).2).2.store.frames[g]? =
                    (performEach history t).2.store.frames[g]? ∧
                  ∀ bindings, performEach calls ((performEach history t).2.rebind g bindings) =
                    ((performEach calls (performEach history t).2).1,
                      (performEach calls (performEach history t).2).2.rebind g bindings) := by
  refine ⟨fun s e x g limit hg hreach => evaluate_unreachable hg hreach limit,
    fun s old hs hold => ⟨_, _, standardRoot_eq s, ?_⟩⟩
  intro history hhistory mine other hsides calls hcalls g hg
  have hparted := (hs.parted_withRoot hold s.store.nextTag (s.store.nextTag + 4)).history hhistory
  rcases hsides with ⟨rfl, rfl⟩ | ⟨rfl, rfl⟩
  · exact (hparted.performEach_unreachable hcalls hg).2
  · exact (hparted.symm.performEach_unreachable hcalls hg).2

/-- Overwriting `true` in the first of two roots, by an expression or by a text, leaves the second
root as it is. -/
theorem evaluation_confined_to_first_root :
    ∃ t : State, standardRoot .newSession = (.ok 1, t) ∧ 1 < t.store.frames.size ∧
      ¬ t.store.Reachable 0 (.list [.symbol "set!", .symbol "true", .boolean false]) (.frame 1) ∧
      (evaluate 2 (.list [.symbol "set!", .symbol "true", .boolean false]) 0 t).2.store.frames[1]? =
        t.store.frames[1]? ∧
      (performEach [⟨0, 2, .text (.evaluate "(set! true false)")⟩] t).2.store.frames[1]? =
        t.store.frames[1]? := by
  have hwf := State.wellFormed_newSession
  have hlt : 0 < State.newSession.store.frames.size := State.size_newSession ▸ Nat.one_pos
  have hparted := hwf.parted_withRoot hlt State.newSession.store.nextTag
    (State.newSession.store.nextTag + 4)
  obtain ⟨new, t, hroot, hcalls⟩ := evaluation_confined_to_reach.2 .newSession 0 hwf hlt
  have hsecond := standardRoot_eq .newSession
  rw [State.size_newSession] at hsecond hparted
  obtain ⟨hnew, ht⟩ := Prod.mk.inj (hroot.symm.trans hsecond)
  obtain rfl := Outcome.ok.inj hnew
  rw [← ht] at hparted
  have hreach :
      ¬ t.store.Reachable 0 (.list [.symbol "set!", .symbol "true", .boolean false])
        (.frame 1) := by
    rintro (hreach | hreach)
    · exact hparted.apart 1 hreach .refl
    · exact Store.misses_iff.mp (Store.misses_of_closures_eq_nil rfl) hreach
  refine ⟨t, hroot, hparted.right_lt, hreach, ?_, ?_⟩
  · exact (evaluation_confined_to_reach.1 t 0 _ 1 2 hparted.right_lt hreach).1
  · have hcall : ∀ call ∈ [Call.mk 0 2 (.text (.evaluate "(set! true false)"))],
        call.KeepsTo t.store 0 1 := List.forall_mem_singleton.mpr ⟨rfl, nofun, nofun⟩
    have hnone := hcalls [] True.intro 0 1 (.inl ⟨rfl, rfl⟩)
    change ∀ calls, (∀ call ∈ calls, call.KeepsTo t.store 0 1) →
      ∀ g, t.store.Leads (.frame 1) (.frame g) →
        (performEach calls t).2.store.frames[g]? = t.store.frames[g]? ∧ _ at hnone
    exact (hnone _ hcall 1 .refl).1

/-- Following outer links, bindings, items of lists and captured frames is not enough. A closure may
stand in the body of another one, which is code as well as data, and assign where it was made. -/
theorem assignment_behind_closure_in_body :
    let inner := Value.closure 0 [] (.list [.symbol "set!", .symbol "z", .boolean true]) 1
    let x := Value.list [.symbol "f"]
    let s : State := { store := ⟨#[⟨none, [("f", .closure 1 [] (.list [inner]) 0)]⟩,
      ⟨none, [("z", .boolean false)]⟩], 2⟩ }
    s.store.WellFormed ∧ 0 < s.store.frames.size ∧ 1 < s.store.frames.size ∧
      ¬ Relation.ReflTransGen s.store.Contains (.frame 0) (.frame 1) ∧
      ¬ Relation.ReflTransGen s.store.Contains (.value x) (.frame 1) ∧
      (evaluate 4 x 0 s).1 = .ok (.boolean true) ∧
      (evaluate 4 x 0 s).2.store.frames[1]? ≠ s.store.frames[1]? := by
  intro inner x s
  have hframe {z : Node} (h : Relation.ReflTransGen s.store.Contains (.frame 0) z) :
      z = .frame 0 ∨ z = .value (.closure 1 [] (.list [inner]) 0) := by
    induction h with
    | refl => exact .inl rfl
    | tail _ hstep ih =>
      rcases ih with rfl | rfl
      · cases hstep with
        | outer houter => cases houter
        | bound hmem => exact .inr (List.mem_singleton.mp hmem ▸ rfl)
      · cases hstep with
        | captured => exact .inl rfl
  have hvalue {z : Node} (h : Relation.ReflTransGen s.store.Contains (.value x) z) :
      z = .value x ∨ z = .value (.symbol "f") := by
    induction h with
    | refl => exact .inl rfl
    | tail _ hstep ih =>
      rcases ih with rfl | rfl
      · change s.store.Contains (.value (.list [.symbol "f"])) _ at hstep
        cases hstep with
        | item hv => exact .inr (List.mem_singleton.mp hv ▸ rfl)
      · cases hstep
  refine ⟨⟨?_, ?_, ?_⟩, Nat.two_pos, Nat.one_lt_two, ?_, ?_, rfl, ?_⟩
  · intro e o houter
    match e with
    | 0 | 1 | _ + 2 => cases houter
  · intro e
    match e with
    | 0 | 1 => exact List.pairwise_singleton _ _
    | _ + 2 => exact List.nodup_nil
  · intro e c hc
    match e with
    | 0 =>
      change c ∈ [Closure.mk 1 [] (.list [inner]) 0,
        ⟨0, [], .list [.symbol "set!", .symbol "z", .boolean true], 1⟩] at hc
      rcases List.mem_pair.mp hc with rfl | rfl <;> decide
    | 1 | _ + 2 => cases hc
  · intro h
    rcases hframe h with heq | heq <;> cases heq
  · intro h
    rcases hvalue h with heq | heq <;> cases heq
  · intro hsame
    have hz : (evaluate 4 x 0 s).2.store.get? 1 "z" = s.store.get? 1 "z" := by
      rw [Store.get?, Store.get?, Store.bindingsOf, Store.bindingsOf, hsame]
    cases hz

end LexicalLisp
