import LexicalLisp.Proofs.Console.Responses

/-!
# Evaluating a text and typing it in

A text may be evaluated at once, or its lines may be fed to a console. The first way reads
everything before it evaluates anything; the second never looks beyond the source at hand. Where
no error occurs the two come to the same: evaluating the sources in order is evaluating the text,
the state in the end is the same to the last event, and the last block shows the value.

Where an error occurs they differ, since the console carries on after it. The statement therefore
says that one of them is free of errors exactly when the other is.
-/

namespace LexicalLisp

/-- Evaluate sources in order and answer the last value. -/
def evaluateSources (limit : Nat) (root : FrameId) (last : Value) : List String → Eval Value
  | [] => Eval.succeed last
  | source :: rest => do
    let value ← evaluateText limit root source
    evaluateSources limit root value rest

/-- Expressions after others are evaluated from where these end. -/
theorem evaluateSequence_append (limit : Nat) (root : FrameId) (last : Value)
    (front back : List Value) :
    evaluateSequence limit root last (front ++ back) =
      evaluateSequence limit root last front >>= fun value =>
        evaluateSequence limit root value back := by
  induction front generalizing last with
  | nil => rfl
  | cons expr rest ih =>
    change (evaluate limit expr root >>= fun value =>
      evaluateSequence limit root value (rest ++ back)) = _
    simp only [ih]
    exact (bind_assoc (evaluate limit expr root) _ _).symm

/-- A source that can be read is evaluated expression by expression. -/
theorem evaluateText_eq_evaluateSequence (limit : Nat) (root : FrameId) {source : String}
    {values : List Value} (hblank : isBlankText source = false)
    (hread : readAll source = .ok values) (last : Value) :
    evaluateText limit root source = evaluateSequence limit root last values := by
  rcases evaluateText_cases limit root source with
    ⟨fault, hfault, -⟩ | ⟨hnil, -⟩ | ⟨expr, others, hok, h⟩
  · rw [hread] at hfault
    cases hfault
  · rw [(readAll_eq_ok_nil_iff source).mp hnil] at hblank
    cases hblank
  · rw [hread] at hok
    rw [Except.ok.inj hok]
    exact h last

/-- Readable sources are evaluated like the expressions of all of them in a row. -/
theorem evaluateSources_eq_evaluateSequence (limit : Nat) (root : FrameId) {sources : List String}
    (hblank : ∀ source ∈ sources, isBlankText source = false)
    (hread : ∀ source ∈ sources, ∃ values, readAll source = .ok values) :
    ∃ ds, sources.flatMap tokenize = Derivation.tokensEach ds ∧
      ∀ last, evaluateSources limit root last sources =
        evaluateSequence limit root last (Derivation.valueEach ds) := by
  induction sources with
  | nil => exact ⟨[], rfl, fun _ => rfl⟩
  | cons source rest ih =>
    obtain ⟨es, hrest, hevalRest⟩ := ih (fun other h => hblank other (List.mem_cons_of_mem _ h))
      (fun other h => hread other (List.mem_cons_of_mem _ h))
    obtain ⟨values, hvalues⟩ := hread source List.mem_cons_self
    obtain ⟨ds, htokens, rfl⟩ := (readAll_eq_ok_iff source values).mp hvalues
    refine ⟨ds ++ es, ?_, fun last => ?_⟩
    · rw [List.flatMap_cons, htokens, hrest, Derivation.tokensEach_append]
    · rw [Derivation.valueEach_append, evaluateSequence_append,
        ← evaluateText_eq_evaluateSequence limit root (hblank source List.mem_cons_self) hvalues]
      change (evaluateText limit root source >>= fun value =>
        evaluateSources limit root value rest) = _
      simp only [hevalRest]

/-- A text is evaluated like its sources if these can be read. -/
theorem evaluateText_eq_evaluateSources (limit : Nat) (root : FrameId) {text : String}
    (hblank : isBlankText text = false)
    (hread : ∀ source ∈ sourcesOf text, ∃ values, readAll source = .ok values) (last : Value) :
    evaluateText limit root text = evaluateSources limit root last (sourcesOf text) := by
  have hsources : ∀ source ∈ sourcesOf text, isBlankText source = false :=
    fun _ h => isBlankText_of_mem_gather h
  obtain ⟨ds, htokens, heval⟩ := evaluateSources_eq_evaluateSequence limit root hsources hread
  have hvalues : readAll text = .ok (Derivation.valueEach ds) :=
    (readAll_eq_ok_iff text _).mpr ⟨ds, by rw [tokenize_sourcesOf, htokens], rfl⟩
  rw [heval last]
  exact evaluateText_eq_evaluateSequence limit root hblank hvalues last

/-- A text that has a value can be read and is not blank. -/
theorem readAll_of_evaluateText {limit : Nat} {root : FrameId} {text : String} {s t : State}
    {v : Value} (h : evaluateText limit root text s = (.ok v, t)) :
    isBlankText text = false ∧ ∃ values, readAll text = .ok values := by
  rcases evaluateText_cases limit root text with ⟨_, -, heq⟩ | ⟨-, heq⟩ | ⟨expr, rest, hread, -⟩
  · rw [heq] at h
    cases h
  · rw [heq] at h
    cases h
  · refine ⟨Bool.eq_false_iff.mpr fun hblank => ?_, _, hread⟩
    rw [(readAll_eq_ok_nil_iff text).mpr hblank] at hread
    cases hread

/-- A text that can be read has sources that can be read. -/
theorem readAll_of_mem_sourcesOf {text : String} (h : ∃ values, readAll text = .ok values) :
    ∀ source ∈ sourcesOf text, ∃ values, readAll source = .ok values := by
  obtain ⟨hgrounded, hzero⟩ := (readAll_succeeds_iff text).mp h
  rw [tokenize_sourcesOf] at hgrounded hzero
  exact readAll_of_mem_sources (pairwise_gather "" (splitLines text)) hgrounded hzero

/-- Sources that all have values are all answered, and the last block shows the last value. -/
theorem respondEach_of_evaluateSources {limit : Nat} {root : FrameId} {sources : List String}
    {last v : Value} {s t : State}
    (h : evaluateSources limit root last sources s = (.ok v, t)) :
    t.errorsShown = s.errorsShown ∧ ∃ responses,
      respondEach limit root sources s = (.ok responses, t) ∧
      (sources ≠ [] → ∃ earlier, String.join (responses.map Response.block) =
        earlier ++ (v.pretty 0 Value.standardWidth ++ "\n")) := by
  induction sources generalizing last s with
  | nil =>
    cases h
    exact ⟨rfl, [], rfl, fun hne => absurd rfl hne⟩
  | cons source rest ih =>
    obtain ⟨w, u, hfirst, hrest⟩ := Eval.bind_eq_ok_iff.mp h
    have hshown := evaluateText_errorsShown limit root source s
    have hrespond := respond_eq limit root source s
    rw [hfirst] at hshown hrespond
    obtain ⟨herrors, responses, heach, hlast⟩ := ih hrest
    refine ⟨herrors.trans hshown, _,
      (Eval.bind_of_ok hrespond _).trans (Eval.bind_of_ok heach _), fun _ => ?_⟩
    cases rest with
    | nil =>
      cases hrest
      cases heach
      exact ⟨"", by simp [String.join]⟩
    | cons second others =>
      obtain ⟨earlier, hearlier⟩ := hlast (List.cons_ne_nil _ _)
      exact ⟨w.pretty 0 Value.standardWidth ++ "\n" ++ earlier, by
        simp only [List.map_cons, String.join_cons, hearlier, String.append_assoc]⟩

/-- An answer is a value and shows no error, or it is an error and shows that one. -/
theorem respond_errorsShown {limit : Nat} {root : FrameId} {source : String}
    {response : Response} {s t : State} (h : respond limit root source s = (.ok response, t)) :
    (t.errorsShown = s.errorsShown ∧ ∃ v, evaluateText limit root source s = (.ok v, t)) ∨
      ∃ e, t.errorsShown = s.errorsShown ++ [.errorShown e] := by
  have hshown := evaluateText_errorsShown limit root source s
  rw [respond_eq] at h
  rcases hresult : evaluateText limit root source s with ⟨v | e | _, u⟩
  · rw [hresult] at h hshown
    cases h
    exact .inl ⟨hshown, v, rfl⟩
  · rw [hresult] at h hshown
    cases h
    refine .inr ⟨e, ?_⟩
    rw [← hshown]
    simp [State.errorsShown, Event.severity]
  · rw [hresult] at h
    cases h

/-- Answering several sources is answering the first and then the others. -/
theorem respondEach_cons {limit : Nat} {root : FrameId} {source : String} {rest : List String}
    {responses : List Response} {s t : State}
    (h : respondEach limit root (source :: rest) s = (.ok responses, t)) :
    ∃ response others u, respond limit root source s = (.ok response, u) ∧
      respondEach limit root rest u = (.ok others, t) := by
  obtain ⟨response, u, hfirst, hmore⟩ := Eval.bind_eq_ok_iff.mp h
  obtain ⟨others, w, heach, hend⟩ := Eval.bind_eq_ok_iff.mp hmore
  cases hend
  exact ⟨response, others, u, hfirst, heach⟩

/-- Answering sources takes back no error that was shown before. -/
theorem respondEach_errorsShown {limit : Nat} {root : FrameId} {sources : List String}
    {responses : List Response} {s t : State}
    (h : respondEach limit root sources s = (.ok responses, t)) :
    s.errorsShown <+: t.errorsShown := by
  induction sources generalizing s responses with
  | nil =>
    cases h
    exact List.prefix_refl _
  | cons source rest ih =>
    obtain ⟨response, others, u, hfirst, heach⟩ := respondEach_cons h
    rcases respond_errorsShown hfirst with ⟨hsame, -⟩ | ⟨e, hgrown⟩
    · exact hsame ▸ ih heach
    · exact (List.prefix_append _ _).trans (hgrown ▸ ih heach)

/-- Sources that are answered without showing an error all have values. -/
theorem evaluateSources_of_respondEach {limit : Nat} {root : FrameId} {sources : List String}
    {responses : List Response} {s t : State}
    (h : respondEach limit root sources s = (.ok responses, t))
    (hsilent : t.errorsShown = s.errorsShown) (last : Value) :
    (∃ v, evaluateSources limit root last sources s = (.ok v, t)) ∧
      ∀ source ∈ sources, ∃ values, readAll source = .ok values := by
  induction sources generalizing s responses last with
  | nil =>
    cases h
    exact ⟨⟨last, rfl⟩, fun source hmem => absurd hmem List.not_mem_nil⟩
  | cons source rest ih =>
    obtain ⟨response, others, u, hfirst, heach⟩ := respondEach_cons h
    rcases respond_errorsShown hfirst with ⟨hsame, v, hv⟩ | ⟨e, hgrown⟩
    · obtain ⟨⟨final, hfinal⟩, hread⟩ := ih heach (hsilent.trans hsame.symm) v
      refine ⟨⟨final, (Eval.bind_of_ok hv _).trans hfinal⟩, fun other hmem => ?_⟩
      rcases List.mem_cons.mp hmem with rfl | hmem
      · exact (readAll_of_evaluateText hv).2
      · exact hread other hmem
    · -- The error stays on record, which the silent end rules out.
      have hlength := (respondEach_errorsShown heach).length_le
      rw [hgrown, hsilent, List.length_append] at hlength
      exact absurd hlength (by simp)

/-- A console that is fed a text with a value ends in the state that the value is reached in, and
shows no error. -/
theorem run_of_evaluateText {limit : Nat} {root : FrameId} {text : String} {s t : State}
    {v : Value} (h : evaluateText limit root text s = (.ok v, t)) (interactive : Bool) :
    t.errorsShown = s.errorsShown ∧ ∃ written,
      Console.run limit interactive ⟨root, "", "", s⟩ (splitLines text) =
        .ended ⟨root, "", written, t⟩ ∧
      (interactive = false → ∃ earlier,
        written = earlier ++ (v.pretty 0 Value.standardWidth ++ "\n")) := by
  obtain ⟨hblank, hread⟩ := readAll_of_evaluateText h
  have hne : sourcesOf text ≠ [] := fun hnil => by
    rw [(sourcesOf_eq_nil_iff text).mp hnil] at hblank
    cases hblank
  rw [evaluateText_eq_evaluateSources limit root hblank (readAll_of_mem_sourcesOf hread) v] at h
  obtain ⟨hsilent, responses, heach, hlast⟩ := respondEach_of_evaluateSources h
  obtain ⟨earlier, hearlier⟩ := hlast hne
  refine ⟨hsilent, ?_⟩
  rcases Console.run_answers limit interactive ⟨root, "", "", s⟩ (splitLines text) fun _ => rfl with
    ⟨others, u, written, hothers, hend, hblocks⟩ | ⟨u, d, hdeep, -⟩
  · obtain ⟨rfl, rfl⟩ : responses = others ∧ t = u := by
      rw [← sourcesOf, heach] at hothers
      cases hothers
      exact ⟨rfl, rfl⟩
    exact ⟨written, hend, fun hfalse => ⟨earlier, by
      rw [hblocks hfalse, hearlier, String.empty_append]⟩⟩
  · rw [← sourcesOf, heach] at hdeep
    cases hdeep

/-- A text that is not blank has a value if a console that is fed it ends without showing an
error. -/
theorem evaluateText_of_run {limit : Nat} {root : FrameId} {text : String} {s : State}
    {interactive : Bool} {c : Console} (hblank : isBlankText text = false)
    (hrun : Console.run limit interactive ⟨root, "", "", s⟩ (splitLines text) = .ended c)
    (hsilent : c.state.errorsShown = s.errorsShown) :
    ∃ v, evaluateText limit root text s = (.ok v, c.state) := by
  rcases Console.run_answers limit interactive ⟨root, "", "", s⟩ (splitLines text) fun _ => rfl with
    ⟨responses, t, written, heach, hend, -⟩ | ⟨t, d, -, hend⟩
  · rw [hrun] at hend
    cases hend
    obtain ⟨⟨v, hv⟩, hread⟩ := evaluateSources_of_respondEach heach hsilent (.list [])
    exact ⟨v, by rw [evaluateText_eq_evaluateSources limit root hblank hread (.list [])]; exact hv⟩
  · rw [hrun] at hend
    cases hend

/-- Evaluating a text and feeding its lines to a console come to the same where no error occurs.

One of them is free of errors exactly when the other is, apart from blank texts, which a console
passes over. Then both end in one and the same state, and what a console without a user to prompt
writes last is the block of the text's value. -/
theorem evaluateText_iff_run (limit : Nat) (root : FrameId) (text : String) (s : State) :
    (∀ interactive, (∃ v t, evaluateText limit root text s = (.ok v, t)) ↔
      isBlankText text = false ∧ ∃ c,
        Console.run limit interactive ⟨root, "", "", s⟩ (splitLines text) = .ended c ∧
        c.state.errorsShown = s.errorsShown) ∧
    (∀ v t, evaluateText limit root text s = (.ok v, t) →
      (∀ interactive, ∃ written,
        Console.run limit interactive ⟨root, "", "", s⟩ (splitLines text) =
          .ended ⟨root, "", written, t⟩) ∧
      ∃ earlier, Console.run limit false ⟨root, "", "", s⟩ (splitLines text) =
        .ended ⟨root, "", earlier ++ (v.pretty 0 Value.standardWidth ++ "\n"), t⟩) := by
  refine ⟨fun interactive => ⟨?_, ?_⟩, fun v t h => ⟨fun interactive => ?_, ?_⟩⟩
  · rintro ⟨v, t, h⟩
    obtain ⟨hsilent, written, hrun, -⟩ := run_of_evaluateText h interactive
    exact ⟨(readAll_of_evaluateText h).1, _, hrun, hsilent⟩
  · rintro ⟨hblank, c, hrun, hsilent⟩
    obtain ⟨v, hv⟩ := evaluateText_of_run hblank hrun hsilent
    exact ⟨v, c.state, hv⟩
  · obtain ⟨-, written, hrun, -⟩ := run_of_evaluateText h interactive
    exact ⟨written, hrun⟩
  · obtain ⟨-, written, hrun, hwritten⟩ := run_of_evaluateText h false
    obtain ⟨earlier, rfl⟩ := hwritten rfl
    exact ⟨earlier, hrun⟩

end LexicalLisp
