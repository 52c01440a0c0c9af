import LexicalLisp.Proofs.Session.Invariants
import LexicalLisp.Proofs.Store.Coherence

/-!
# Sessions stay coherent

Every closure gets a tag that was never given out before, and closures are only ever copied, never
altered. So throughout a session a tag belongs to one closure, in whichever frames and answers it is
found. The discipline keeps track of the closures that have been made.
-/

namespace LexicalLisp

/-- The closures made so far, each known by its tag. -/
structure Made where
  known : Closure → Prop
  tag_inj : ∀ c d, known c → known d → c.tag = d.tag → c = d

/-- More closures may be made later. -/
instance : Preorder Made :=
  Preorder.lift Made.known

/-- One more closure is made, with a tag above all others. -/
def Made.add (m : Made) (new : Closure) (htag : ∀ c, m.known c → c.tag < new.tag) : Made where
  known c := m.known c ∨ c = new
  tag_inj c d hc hd heq := by
    rcases hc with hc | rfl <;> rcases hd with hd | rfl
    · exact m.tag_inj c d hc hd heq
    · exact absurd heq (Nat.ne_of_lt (htag c hc))
    · exact absurd heq.symm (Nat.ne_of_lt (htag d hd))
    · rfl

/-- Evaluation with closures that have been made, in frames that hold no others. -/
def tellingApart : Discipline where
  World := Made
  states m s s' := s = s' ∧ (∀ c, m.known c → c.tag < s.store.nextTag) ∧
    ∀ e, ∀ c ∈ s.store.closuresIn e, m.known c
  value m v := ∀ c ∈ v.closures, m.known c
  code m _ x := ∀ c ∈ x.closures, m.known c

/-- Frames hold closures that have been made, also after a name is bound to a value with such. -/
theorem known_put {m : Made} {s : Store} (hknown : ∀ e, ∀ c ∈ s.closuresIn e, m.known c)
    {v : Value} (hv : ∀ c ∈ v.closures, m.known c) (g : FrameId) (name : String) :
    ∀ e, ∀ c ∈ (s.put g name v).closuresIn e, m.known c := by
  intro e c hc
  rcases Store.mem_closuresIn_put hc with hold | ⟨-, hnew⟩
  · exact hknown e c hold
  · exact hv c hnew

/-- Evaluation comes by no closures but those that have been made. -/
theorem tellingApart_lawful : tellingApart.Lawful where
  value_mono hle hv c hc := hle c (hv c hc)
  code_mono hle hx c hc := hle c (hx c hc)
  number _ _ := nofun
  boolean _ _ := nofun
  emit _ := fun ⟨heq, htag, hknown⟩ => by
    subst heq
    exact ⟨rfl, htag, hknown⟩
  tag := by
    rintro m s s' ⟨rfl, htag, hknown⟩
    exact ⟨rfl, rfl, fun c hc => Nat.lt_succ_of_lt (htag c hc), hknown⟩
  lookup := by
    rintro m e name s s' - ⟨rfl, -, hknown⟩
    refine ⟨rfl, fun {v} hfound c hc => ?_⟩
    obtain ⟨g, -, hg⟩ := List.exists_of_findSome?_eq_some hfound
    exact hknown g c (Store.mem_closuresIn_of_get? hg hc)
  closure hx := hx
  quote hx c hc := hx c (Value.mem_closures_list (by simp) hc)
  lambda := by
    rintro m e fs b s s' hx ⟨rfl, htag, hknown⟩
    refine ⟨rfl, m.add ⟨s.store.nextTag, fs, b, e⟩ htag, fun c hc => .inl hc,
      ⟨rfl, ?_, fun g c hc => .inl (hknown g c hc)⟩, fun c hc => ?_⟩
    · rintro c (hc | rfl)
      · exact Nat.lt_succ_of_lt (htag c hc)
      · exact Nat.lt_succ_self _
    · rcases Value.mem_closures_made hc with heq | hc
      · exact .inr heq
      · exact .inl (hx c hc)
  define := by
    rintro m e name x hx
    refine ⟨fun c hc => hx c (Value.mem_closures_list (by simp) hc), ?_⟩
    rintro m' v s s' - hv ⟨rfl, htag, hknown⟩
    exact ⟨rfl, htag, known_put hknown hv e name⟩
  assign := by
    rintro m e name x hx
    refine ⟨fun c hc => hx c (Value.mem_closures_list (by simp) hc), ?_⟩
    rintro m' s s' - ⟨rfl, htag, hknown⟩
    exact ⟨rfl, fun {v target} hv _ => ⟨rfl, htag, known_put hknown hv target name⟩⟩
  operands hx _ _ hy c hc := hx c (Value.mem_closures_list (List.mem_cons_of_mem _ hy) hc)
  head hx _ c hc := hx c (Value.mem_closures_list List.mem_cons_self hc)
  enter := by
    rintro m t fs b f us bindings s s' hclosure hargs hbound ⟨rfl, htag, hknown⟩
    refine ⟨rfl, m, le_refl m, ⟨rfl, htag, fun g c hc => ?_⟩, fun c hc => ?_⟩
    · rcases Store.mem_closuresIn_push hc with hold | ⟨-, binding, hmem, hnew⟩
      · exact hknown g c hold
      · exact closures_bindFormals hbound hargs binding hmem c hnew
    · exact hclosure c (List.mem_cons_of_mem _ (List.mem_append_right _ hc))

/-- The closures of a new root, each with a tag of its own. -/
def madeByRoot (root : FrameId) (tag : Nat) : Made where
  known c := c ∈ (standardBindings root tag).flatMap fun binding => binding.2.closures
  tag_inj c d hc hd heq := by
    rw [closures_standardBindings] at hc hd
    simp only [List.mem_cons, List.not_mem_nil, or_false] at hc hd
    rcases hc with rfl | rfl | rfl | rfl <;> rcases hd with rfl | rfl | rfl | rfl <;>
      simp [operatorOf] at heq ⊢

/-- A new session has made the closures of its root. -/
theorem tellingApart_newSession :
    tellingApart.states (madeByRoot 0 0) .newSession .newSession := by
  refine ⟨rfl, fun c hc => ?_, fun e c hc => ?_⟩
  · change c ∈ (standardBindings 0 0).flatMap _ at hc
    rw [closures_standardBindings] at hc
    simp only [List.mem_cons, List.not_mem_nil, or_false] at hc
    rcases hc with rfl | rfl | rfl | rfl <;> decide
  · rcases Store.mem_closuresIn_push hc with hold | ⟨-, binding, hmem, hnew⟩
    · cases hold
    · exact List.mem_flatMap.mpr ⟨binding, hmem, hnew⟩

/-- After any requests of a session, its store is coherent with every expression without closures
and with every value that was answered. -/
theorem session_coherent (requests : List (Nat × TextRequest)) :
    ∃ root start, standardRoot {} = (.ok root, start) ∧
      ∀ x, x.closures = [] ∨ .ok (some x) ∈ (performRequests root requests start).1 →
        (performRequests root requests start).2.store.Coherent x := by
  have hwf := State.wellFormed_newSession
  have hroot : 0 < State.newSession.store.frames.size := State.size_newSession ▸ Nat.one_pos
  have hadmits : ∀ call ∈ callsOn 0 requests, tellingApart.Admits (madeByRoot 0 0) call := by
    intro call hcall m _ x hx c hc
    obtain ⟨_, -, rfl⟩ := List.mem_map.mp hcall
    cases Call.mem_closures hx hc
  obtain ⟨m, -, ⟨-, htag, hknown⟩, -, hvalues⟩ :=
    tellingApart_lawful.performEach hadmits tellingApart_newSession
  obtain ⟨hmoves, hcaptured⟩ := performRequests_moves hwf hroot requests
  refine ⟨0, .newSession, standardRoot_empty, fun x hx => ?_⟩
  have hclosures : ∀ c ∈ x.closures, m.known c ∧
      c.frame < (performRequests 0 requests .newSession).2.store.frames.size := by
    rcases hx with hplain | hanswer
    · rw [hplain]
      exact nofun
    · exact fun c hc => ⟨hvalues x hanswer c hc, hcaptured x hanswer c hc⟩
  have hholds : ∀ c ∈ (performRequests 0 requests .newSession).2.store.holds x, m.known c := by
    intro c hc
    rcases Store.mem_holds.mp hc with ⟨e, hc⟩ | hc
    · exact hknown e c hc
    · exact (hclosures c hc).1
  exact ⟨hmoves.wellFormed hwf, fun c hc => (hclosures c hc).2, fun c hc => htag c (hholds c hc),
    fun c hc d hd => m.tag_inj c d (hholds c hc) (hholds d hd)⟩

end LexicalLisp
