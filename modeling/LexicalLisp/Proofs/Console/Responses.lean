import LexicalLisp.Proofs.Console.Sources

/-!
# The console's answers

A console run is the sequence of its sources, each answered in the state that the one before it
left behind. An error is shown and recorded, and the run carries on; only running out of depth
ends it early. Prompts add to what is written and to nothing else.

Evaluation itself records no error for a user. The errors on record are therefore exactly the
sources that failed, and a source is answered with the message of an unexpected end only if it was
cut short by the end of the input.
-/

namespace LexicalLisp

/-- The events that reported an error to a user. -/
def State.errorsShown (s : State) : List Event :=
  s.log.toList.filter fun event => event.severity = .error

/-- An elementary step of evaluation shows no error. -/
theorem State.Step.errorsShown_eq {s t : State} (h : State.Step s t) :
    t.errorsShown = s.errorsShown := by
  cases h with
  | bound => rfl
  | entered => rfl
  | tagged => rfl
  | recorded event quiet => simp [errorsShown, quiet]

/-- Any number of steps of evaluation show no error. -/
theorem State.Steps.errorsShown_eq {s t : State} (h : State.Steps s t) :
    t.errorsShown = s.errorsShown := by
  induction h with
  | refl => rfl
  | tail _ hstep ih => rw [hstep.errorsShown_eq, ih]

/-- A text is read as a whole, and then refused or evaluated expression by expression. -/
theorem evaluateText_cases (limit : Nat) (root : FrameId) (source : String) :
    (∃ fault, readAll source = .error fault ∧
      evaluateText limit root source = Eval.fail (.unreadable fault)) ∨
    (readAll source = .ok [] ∧
      evaluateText limit root source = Eval.fail (.unreadable .unexpectedEnd)) ∨
    ∃ expr rest, readAll source = .ok (expr :: rest) ∧
      ∀ last, evaluateText limit root source = evaluateSequence limit root last (expr :: rest) := by
  unfold evaluateText
  split
  · exact .inl ⟨_, ‹_›, rfl⟩
  · exact .inr (.inl ⟨‹_›, rfl⟩)
  · exact .inr (.inr ⟨_, _, ‹_›, fun _ => rfl⟩)

/-- Only a blank source is read without expressions. -/
theorem readAll_eq_ok_nil_iff (source : String) :
    readAll source = .ok [] ↔ isBlankText source = true := by
  rw [readAll_eq_ok_iff, ← tokenize_eq_nil_iff]
  constructor
  · rintro ⟨ds, htokens, hvalues⟩
    cases ds with
    | nil => exact htokens
    | cons d ds => cases hvalues
  · intro htokens
    exact ⟨[], htokens, rfl⟩

/-- Evaluating a text shows no error. -/
theorem evaluateText_errorsShown (limit : Nat) (root : FrameId) (source : String) (s : State) :
    (evaluateText limit root source s).2.errorsShown = s.errorsShown := by
  rcases evaluateText_cases limit root source with ⟨fault, -, h⟩ | ⟨-, h⟩ | ⟨expr, rest, -, h⟩
  · rw [h]
    rfl
  · rw [h]
    rfl
  · rw [h expr]
    exact ((evaluateSequence_ordinary limit root expr (expr :: rest)).steps s).errorsShown_eq

/-- An error in a text is a fault in reading it, or it arose in evaluation. -/
theorem evaluateText_error {limit : Nat} {root : FrameId} {source : String} {s t : State}
    {e : Error} (herror : evaluateText limit root source s = (.error e, t)) :
    (∃ fault, readAll source = .error fault ∧ e = .unreadable fault) ∨
      readAll source = .ok [] ∨ e.kind ≠ .unreadable := by
  rcases evaluateText_cases limit root source with
    ⟨fault, hread, h⟩ | ⟨hread, -⟩ | ⟨expr, rest, -, h⟩
  · rw [h] at herror
    exact .inl ⟨fault, hread, (Outcome.error.inj (Prod.mk.inj herror).1).symm⟩
  · exact .inr (.inl hread)
  · rw [h expr] at herror
    exact .inr (.inr ((evaluateSequence_ordinary limit root expr (expr :: rest)).kind s e
      (congrArg Prod.fst herror)))

/-- How a source is answered follows from how its evaluation ends. -/
theorem respond_eq (limit : Nat) (root : FrameId) (source : String) (s : State) :
    respond limit root source s =
      match evaluateText limit root source s with
      | (.ok v, t) => (.ok ⟨true, v.pretty 0 Value.standardWidth ++ "\n"⟩, t)
      | (.error e, t) =>
        (.ok ⟨false, "error: " ++ e.message ++ "\n"⟩, { t with log := t.log.push (.errorShown e) })
      | (.tooDeep, t) => (.tooDeep, t) := by
  change Eval.andThen (Eval.attempt (evaluateText limit root source)) _ s = _
  unfold Eval.andThen Eval.attempt
  rcases evaluateText limit root source s with ⟨_ | _ | _, t⟩ <;> rfl

/-- Answer sources in order. -/
def respondEach (limit : Nat) (root : FrameId) : List String → Eval (List Response)
  | [] => Eval.succeed []
  | source :: rest => do
    let response ← respond limit root source
    let responses ← respondEach limit root rest
    return response :: responses

/-- A source is answered, or its evaluation runs out of depth. -/
theorem respond_cases (limit : Nat) (root : FrameId) (source : String) (s : State) :
    (∃ response t, respond limit root source s = (.ok response, t)) ∨
      ∃ t, respond limit root source s = (.tooDeep, t) := by
  rw [respond_eq]
  rcases evaluateText limit root source s with ⟨v | e | _, t⟩
  · exact .inl ⟨_, _, rfl⟩
  · exact .inl ⟨_, _, rfl⟩
  · exact .inr ⟨_, rfl⟩

namespace Console

/-- A prompt changes what is written and nothing else. -/
theorem exists_prompt_eq (interactive : Bool) (c : Console) :
    ∃ written, c.prompt interactive = { c with written := written } ∧
      (interactive = false → written = c.written) := by
  cases interactive with
  | false => exact ⟨c.written, rfl, fun _ => rfl⟩
  | true => exact ⟨_, rfl, fun h => nomatch h⟩

/-- An answered source adds its block and leaves nothing held. -/
theorem answer_of_ok {limit : Nat} {source : String} {c : Console} {response : Response}
    {t : State} (h : respond limit c.root source c.state = (.ok response, t)) :
    c.answer limit source = .running ⟨c.root, "", c.written ++ response.block, t⟩ := by
  unfold answer
  rw [h]
  rfl

/-- Out of depth, the console breaks off. -/
theorem answer_of_tooDeep {limit : Nat} {source : String} {c : Console} {t : State}
    (h : respond limit c.root source c.state = (.tooDeep, t)) :
    c.answer limit source = .tooDeep ⟨c.root, "", c.written, t⟩ := by
  unfold answer
  rw [h]

/-- How a run ends that answers these sources: after all of them, with their blocks written behind
what was there, or out of depth. Prompts may stand between the blocks for an interactive user. -/
def Answers (limit : Nat) (interactive : Bool) (c : Console) (sources : List String)
    (step : ConsoleStep) : Prop :=
  (∃ responses t written, respondEach limit c.root sources c.state = (.ok responses, t) ∧
    step = .ended ⟨c.root, "", written, t⟩ ∧
    (interactive = false → written = c.written ++ String.join (responses.map Response.block))) ∨
  (∃ t d, respondEach limit c.root sources c.state = (.tooDeep, t) ∧ step = .tooDeep d)

/-- Answering nothing ends at once. -/
theorem answers_nil (limit : Nat) (interactive : Bool) (c : Console) {written : String}
    (h : interactive = false → written = c.written) :
    Answers limit interactive c [] (.ended ⟨c.root, "", written, c.state⟩) :=
  .inl ⟨[], c.state, written, rfl, rfl, fun hfalse => by simp [h hfalse, String.join]⟩

/-- Answering one source and then the others answers them all. -/
theorem Answers.cons {limit : Nat} {interactive : Bool} {c : Console} {source : String}
    {rest : List String} {response : Response} {t : State} {written : String}
    {step : ConsoleStep} (hfirst : respond limit c.root source c.state = (.ok response, t))
    (hrest : Answers limit interactive ⟨c.root, "", written ++ response.block, t⟩ rest step)
    (hwritten : interactive = false → written = c.written) :
    Answers limit interactive c (source :: rest) step := by
  rcases hrest with ⟨responses, u, final, heach, hstep, hblocks⟩ | ⟨u, d, heach, hstep⟩
  · refine .inl ⟨response :: responses, u, final, ?_, hstep, fun hfalse => ?_⟩
    · exact (Eval.bind_of_ok hfirst _).trans (Eval.bind_of_ok heach _)
    · rw [hblocks hfalse, hwritten hfalse, List.map_cons, String.join_cons, String.append_assoc]
  · exact .inr ⟨u, d, (Eval.bind_of_ok hfirst _).trans (Eval.bind_of_tooDeep heach _), hstep⟩

/-- A source that runs out of depth is the last one. -/
theorem answers_of_tooDeep {limit : Nat} {interactive : Bool} {c d : Console} {source : String}
    {t : State} (h : respond limit c.root source c.state = (.tooDeep, t)) (rest : List String) :
    Answers limit interactive c (source :: rest) (.tooDeep d) :=
  .inr ⟨t, d, Eval.bind_of_tooDeep h _, rfl⟩

/-- What is held and what a prompt wrote do not matter to the answers. -/
theorem Answers.of_written {limit : Nat} {interactive : Bool} {c : Console} {held shown : String}
    {sources : List String} {step : ConsoleStep}
    (h : Answers limit interactive ⟨c.root, held, shown, c.state⟩ sources step)
    (hshown : interactive = false → shown = c.written) :
    Answers limit interactive c sources step := by
  rcases h with ⟨responses, t, written, heach, hstep, hblocks⟩ | htooDeep
  · exact .inl ⟨responses, t, written, heach, hstep, fun hfalse => by
      rw [hblocks hfalse, hshown hfalse]⟩
  · exact .inr htooDeep

/-- At the end of the input what is held is answered, unless it is blank. -/
theorem finish_answers (limit : Nat) (interactive : Bool) (c : Console) {shown : String}
    (hheld : isBlankText c.held = true → c.held = "")
    (hshown : interactive = false → shown = c.written) :
    Answers limit interactive c (gather c.held [])
      (finish limit interactive { c with written := shown }) := by
  unfold finish gather
  by_cases hblank : isBlankText c.held = true
  · rw [if_pos hblank, if_pos hblank, hheld hblank]
    exact answers_nil limit interactive c hshown
  · rw [if_neg hblank, if_neg hblank]
    rcases respond_cases limit c.root c.held c.state with ⟨response, t, h⟩ | ⟨t, h⟩
    · obtain ⟨more, hmore, hquiet⟩ :=
        exists_prompt_eq interactive ⟨c.root, "", shown ++ response.block, t⟩
      rw [answer_of_ok (c := { c with written := shown }) h]
      refine .cons h ?_ hshown
      simp only [hmore]
      exact answers_nil limit interactive ⟨c.root, "", shown ++ response.block, t⟩ hquiet
    · rw [answer_of_tooDeep (c := { c with written := shown }) h]
      exact answers_of_tooDeep h []

/-- A run answers the sources that its lines make up, one after the other. -/
theorem run_answers (limit : Nat) (interactive : Bool) (c : Console) (lines : List String)
    (hheld : isBlankText c.held = true → c.held = "") :
    Answers limit interactive c (gather c.held lines) (c.run limit interactive lines) := by
  induction lines generalizing c with
  | nil =>
    obtain ⟨shown, hprompt, hshown⟩ := exists_prompt_eq interactive c
    rw [run, hprompt]
    exact finish_answers limit interactive c hheld hshown
  | cons line rest ih =>
    obtain ⟨shown, hprompt, hshown⟩ := exists_prompt_eq interactive c
    rw [run, hprompt, feed, gather]
    rcases takeLine_cases c.held line with ⟨heq, -⟩ | ⟨heq, hopen⟩ | ⟨heq, -, -⟩
    · rw [heq]
      exact (ih ⟨c.root, "", shown, c.state⟩ fun _ => rfl).of_written hshown
    · rw [heq]
      refine (ih ⟨c.root, c.held ++ line, shown, c.state⟩ fun hblank => ?_).of_written hshown
      rw [isBlankText_of_isOpen hopen] at hblank
      cases hblank
    · rw [heq]
      rcases respond_cases limit c.root (c.held ++ line) c.state with ⟨response, t, h⟩ | ⟨t, h⟩
      · simp only [answer_of_ok (c := { c with written := shown }) h]
        exact .cons h (ih ⟨c.root, "", shown ++ response.block, t⟩ fun _ => rfl) hshown
      · simp only [answer_of_tooDeep (c := { c with written := shown }) h]
        exact answers_of_tooDeep h _

end Console

/-- Every requirement of a form has an s in its wording. -/
theorem Form.mem_requirement (form : Form) : 's' ∈ form.requirement.toList := by
  cases form <;> decide

/-- A character of one part of a text is one of the whole text. -/
theorem mem_toList_append {c : Char} {front back : String}
    (h : c ∈ front.toList ∨ c ∈ back.toList) : c ∈ (front ++ back).toList := by
  rw [String.toList_append]
  exact List.mem_append.mpr h

/-- Every error of evaluation has an s in its wording, which tells it from an unexpected end. -/
theorem Error.mem_message {e : Error} (hkind : e.kind ≠ .unreadable) :
    's' ∈ e.message.toList := by
  cases e with
  | unreadable fault => exact absurd rfl hkind
  | unbound name => exact mem_toList_append (.inl (by decide))
  | overwriteUnbound name => exact mem_toList_append (.inl (by decide))
  | assignUnbound name => exact mem_toList_append (.inr (by decide))
  | bindNonSymbol name => exact mem_toList_append (.inr (by decide))
  | operandCount form => exact form.mem_requirement
  | targetNotSymbol form target =>
    exact mem_toList_append (.inl (mem_toList_append (.inr (by decide))))
  | parametersNotList parameters => exact mem_toList_append (.inl (by decide))
  | operandNotNumber form operand =>
    exact mem_toList_append (.inl (mem_toList_append (.inr (by decide))))
  | argumentCount closure expected given =>
    exact mem_toList_append (.inl (mem_toList_append (.inr (by decide))))
  | nameNotFunction name => exact mem_toList_append (.inr (by decide))
  | resultNotFunction result => exact mem_toList_append (.inr (by decide))
  | notApplicable head => exact mem_toList_append (.inr (by decide))
  | emptyList => decide
  | invalidExpression expr => exact mem_toList_append (.inl (by decide))

/-- A source that is neither blank nor open is not answered with an unexpected end. -/
theorem respond_ne_unexpectedEnd (limit : Nat) (root : FrameId) {source : String} (s : State)
    (hblank : isBlankText source = false) (hopen : isOpen source = false) :
    (respond limit root source s).1 ≠ .ok ⟨false, "error: unexpected end of input\n"⟩ := by
  intro hanswer
  rw [respond_eq] at hanswer
  rcases hresult : evaluateText limit root source s with ⟨v | e | _, t⟩
  · rw [hresult] at hanswer
    cases hanswer
  · rw [hresult] at hanswer
    have hblock : "error: " ++ e.message ++ "\n" = "error: " ++ "unexpected end of input" ++ "\n" :=
      (Response.mk.inj (Outcome.ok.inj hanswer)).2
    have hmessage : e.message = "unexpected end of input" :=
      (String.append_right_inj _).mp ((String.append_left_inj _).mp hblock)
    rcases evaluateText_error hresult with ⟨fault, hread, rfl⟩ | hread | hkind
    · cases fault with
      | unexpectedEnd =>
        have hpositive := ((readAll_eq_unexpectedEnd_iff source).mp hread).2
        rw [(isOpen_iff source).mpr hpositive] at hopen
        cases hopen
      | unexpectedClose => exact absurd hmessage (by decide)
    · rw [(readAll_eq_ok_nil_iff source).mp hread] at hblank
      cases hblank
    · exact absurd (hmessage ▸ Error.mem_message hkind) (by decide)
  · rw [hresult] at hanswer
    cases hanswer

/-- Reading everything is decided by counting parens, and so is when the console may wait.

The balance is the number of opening minus the number of closing parens. Over the starts of the
token list the count tells success from either fault. A source with parens open is never read, and
one without is never short of tokens, so a source that a further line completes is not answered with
an unexpected end: only the end of the input brings that about. -/
theorem readAll_outcome_by_balance (source : String) :
    (∀ tokens, balance tokens = tokens.count .opening - tokens.count .closing) ∧
    ((∃ values, readAll source = .ok values) ↔
      (∀ front, front <+: tokenize source → 0 ≤ balance front) ∧
        balance (tokenize source) = 0) ∧
    (readAll source = .error .unexpectedClose ↔
      ∃ front, front <+: tokenize source ∧ balance front < 0) ∧
    (readAll source = .error .unexpectedEnd ↔
      (∀ front, front <+: tokenize source → 0 ≤ balance front) ∧
        0 < balance (tokenize source)) ∧
    (isOpen source = true → ∃ fault, readAll source = .error fault) ∧
    (isOpen source = false → readAll source ≠ .error .unexpectedEnd) ∧
    (∀ limit root s held line, takeLine held line = .source source →
      (respond limit root source s).1 ≠ .ok ⟨false, "error: unexpected end of input\n"⟩) ∧
    ReadFault.unexpectedClose.message = "unexpected close paren" ∧
    ReadFault.unexpectedEnd.message = "unexpected end of input" := by
  have hgrounded : Grounded 0 (tokenize source) ↔
      ∀ front, front <+: tokenize source → 0 ≤ balance front := by
    simp [Grounded]
  refine ⟨balance_eq_count_sub_count, ?_, ?_, ?_, ?_, ?_, ?_, rfl, rfl⟩
  · rw [← hgrounded]
    exact readAll_succeeds_iff source
  · rw [readAll_eq_unexpectedClose_iff, hgrounded]
    simp
  · rw [← hgrounded]
    exact readAll_eq_unexpectedEnd_iff source
  · intro hopen
    have hpositive := (isOpen_iff source).mp hopen
    cases hread : readAll source with
    | error fault => exact ⟨fault, rfl⟩
    | ok values =>
      have hzero := ((readAll_succeeds_iff source).mp ⟨values, hread⟩).2
      omega
  · intro hopen hread
    have hpositive := ((readAll_eq_unexpectedEnd_iff source).mp hread).2
    rw [(isOpen_iff source).mpr hpositive] at hopen
    cases hopen
  · intro limit root s held line htake
    rcases takeLine_cases held line with ⟨heq, -⟩ | ⟨heq, -⟩ | ⟨heq, hblank, hopen⟩
    · rw [htake] at heq
      cases heq
    · rw [htake] at heq
      cases heq
    · rw [htake] at heq
      obtain rfl := Intake.source.inj heq
      exact respond_ne_unexpectedEnd limit root s hblank hopen

end LexicalLisp
