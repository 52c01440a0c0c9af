import LexicalLisp.CommandLine.Run
import LexicalLisp.Proofs.Console.Responses
import LexicalLisp.Proofs.Eval.Depth
import LexicalLisp.Proofs.Session.Calls

/-!
# Hosts and the lack of depth

Hosts turn errors into answers: into a failure that is handed back, into a line for the user, into
an exit code. The lack of depth is no error and they pass it on, as the rules of evaluation do. A
request gives up where the evaluation of one of its expressions does, a console and a run break off,
and nothing is written about it.

A host that does not answer with a lack of depth therefore answers the same under every larger
limit: a request, a console with all of its input, and a whole run of the program.

Depth is that of evaluations. The reading of a source and the printing of its value are not charged
against the limit, so a host lacks depth for nothing else. The one exception is the host that only
reads, which gives up on lists that are nested deeper than the limit.
-/

namespace LexicalLisp

section Requests

variable {eval eval' : Evaluator} (heval : ∀ x e, Eval.Refines (eval x e) (eval' x e))

include heval

/-- Evaluating in order comes to more where the evaluator does. -/
theorem sequenceWith_refines (root : FrameId) (last : Value) (exprs : List Value) :
    Eval.Refines (sequenceWith eval root last exprs) (sequenceWith eval' root last exprs) := by
  induction exprs generalizing last with
  | nil => exact .refl _
  | cons x rest ih => exact .bind (heval x root) fun value => ih value

/-- A request comes to more where the evaluator does. -/
theorem TextRequest.performWith_refines (request : TextRequest) (root : FrameId) :
    Eval.Refines (request.performWith eval root) (request.performWith eval' root) := by
  cases request with
  | evaluate source =>
    simp only [performWith]
    rcases readAll source with fault | _ | ⟨x, rest⟩
    · exact .refl _
    · exact .refl _
    · exact .bind (sequenceWith_refines heval root _ (x :: rest)) fun _ => .refl _
  | first source =>
    simp only [performWith]
    rcases readFirst source with fault | x
    · exact .refl _
    · exact .bind (.refl _) fun _ => .bind (heval x root).attempt fun _ => .refl _
  | load source =>
    simp only [performWith]
    rcases readAll source with fault | exprs
    · exact .refl _
    · exact .bind (sequenceWith_refines heval root _ exprs) fun _ => .refl _

end Requests

/-- Every request passes the lack of depth on. -/
theorem TextRequest.performWith_relays (request : TextRequest) (root : FrameId) :
    Relays fun eval => request.performWith eval root :=
  relays_of_refines fun _ _ h => performWith_refines h request root

section Sessions

variable {limit larger : Nat} (hle : limit ≤ larger)

include hle

/-- A request under a limit comes to the same under a larger one. -/
theorem TextRequest.perform_refines (request : TextRequest) (root : FrameId) :
    Eval.Refines (request.perform limit root) (request.perform larger root) := by
  rw [← request.performWith_evaluate, ← request.performWith_evaluate]
  exact performWith_refines (evaluate_refines hle) request root

/-- So does evaluating expressions in order. -/
theorem evaluateSequence_refines (root : FrameId) (last : Value) (exprs : List Value) :
    Eval.Refines (evaluateSequence limit root last exprs)
      (evaluateSequence larger root last exprs) := by
  rw [← sequenceWith_evaluate, ← sequenceWith_evaluate]
  exact sequenceWith_refines (evaluate_refines hle) root last exprs

/-- So does evaluating a text. -/
theorem evaluateText_refines (root : FrameId) (source : String) :
    Eval.Refines (evaluateText limit root source) (evaluateText larger root source) := by
  unfold evaluateText
  rcases readAll source with fault | _ | ⟨x, rest⟩
  · exact .refl _
  · exact .refl _
  · exact .bind (evaluate_refines hle x root) fun _ => evaluateSequence_refines hle root _ rest

/-- So does evaluating the first expression of a text, with errors answered as values. -/
theorem evaluateFirst_refines (root : FrameId) (source : String) :
    Eval.Refines (evaluateFirst limit root source) (evaluateFirst larger root source) := by
  unfold evaluateFirst
  rcases readFirst source with fault | x
  · exact .refl _
  · exact .bind (.refl _) fun _ => .bind (evaluate_refines hle x root).attempt fun _ => .refl _

/-- So does loading a text. -/
theorem loadText_refines (root : FrameId) (source : String) :
    Eval.Refines (loadText limit root source) (loadText larger root source) := by
  unfold loadText
  rcases readAll source with fault | exprs
  · exact .refl _
  · exact .bind (evaluateSequence_refines hle root _ exprs) fun _ => .refl _

/-- So does starting a session. -/
theorem startSession_refines (prelude : Prelude) :
    Eval.Refines (startSession limit prelude) (startSession larger prelude) := by
  refine .bind (.refl _) fun root => ?_
  cases prelude with
  | none => exact .refl _
  | text source => exact .bind (loadText_refines hle root source) fun _ => .refl _
  | file path source =>
    exact .bind (.refl _) fun _ => .bind (loadText_refines hle root source) fun _ => .refl _

/-- So does answering a source. -/
theorem respond_refines (root : FrameId) (source : String) :
    Eval.Refines (respond limit root source) (respond larger root source) :=
  .bind (evaluateText_refines hle root source).attempt fun _ => .refl _

/-- So does reading with a bound on the nesting of lists. -/
theorem readFirstWithin_refines (source : String) :
    Eval.Refines (readFirstWithin limit source) (readFirstWithin larger source) := by
  unfold readFirstWithin
  split
  · exact .tooDeep _
  · rename_i hwithin
    rw [if_neg fun hdeep => hwithin (Nat.lt_of_le_of_lt hle hdeep)]
    exact .refl _

end Sessions

/-- A source is left unanswered exactly where its evaluation gives up, and the state is then what
the evaluation left. -/
theorem respond_tooDeep_iff {limit : Nat} {root : FrameId} {source : String} {s t : State} :
    respond limit root source s = (.tooDeep, t) ↔
      evaluateText limit root source s = (.tooDeep, t) := by
  rw [respond_eq]
  rcases evaluateText limit root source s with ⟨_ | _ | _, u⟩
  · simp
  · simp
  · simp

/-- Sources are left unanswered exactly where the first one is, or those after it are. -/
theorem respondEach_cons_tooDeep_iff {limit : Nat} {root : FrameId} {first : String}
    {rest : List String} {s u : State} :
    respondEach limit root (first :: rest) s = (.tooDeep, u) ↔
      respond limit root first s = (.tooDeep, u) ∨
        ∃ response t, respond limit root first s = (.ok response, t) ∧
          respondEach limit root rest t = (.tooDeep, u) := by
  rw [respondEach, Eval.bind_eq_tooDeep_iff]
  refine or_congr_right
    (exists_congr fun response => exists_congr fun t => and_congr_right fun _ => ?_)
  rw [Eval.bind_eq_tooDeep_iff]
  constructor
  · rintro (hrest | ⟨responses, v, -, hpure⟩)
    · exact hrest
    · cases hpure
  · exact .inl

/-- Sources are left unanswered exactly where the evaluation of one of them gives up, after those
before it are answered. -/
theorem respondEach_tooDeep_iff {limit : Nat} {root : FrameId} {sources : List String}
    {s u : State} :
    respondEach limit root sources s = (.tooDeep, u) ↔
      ∃ earlier source later responses t, sources = earlier ++ source :: later ∧
        respondEach limit root earlier s = (.ok responses, t) ∧
        evaluateText limit root source t = (.tooDeep, u) := by
  induction sources generalizing s with
  | nil =>
    constructor
    · intro h
      cases h
    · rintro ⟨earlier, source, later, responses, t, hsources, -⟩
      simp at hsources
  | cons first rest ih =>
    rw [respondEach_cons_tooDeep_iff]
    constructor
    · rintro (hfirst | ⟨response, t, hfirst, hrest⟩)
      · exact ⟨[], first, rest, [], s, rfl, rfl, respond_tooDeep_iff.mp hfirst⟩
      · obtain ⟨earlier, source, later, responses, v, rfl, hearlier, hsource⟩ := ih.mp hrest
        refine ⟨first :: earlier, source, later, response :: responses, v, rfl, ?_, hsource⟩
        exact (Eval.bind_of_ok hfirst _).trans (Eval.bind_of_ok hearlier _)
    · rintro ⟨_ | ⟨other, others⟩, source, later, responses, v, hsources, hearlier, hsource⟩
      · cases hsources
        cases hearlier
        exact .inl (respond_tooDeep_iff.mpr hsource)
      · obtain ⟨rfl, hrest⟩ := List.cons.inj hsources
        obtain ⟨response, t, hfirst, hothers⟩ := Eval.bind_eq_ok_iff.mp hearlier
        obtain ⟨responses', v', hothers, hpure⟩ := Eval.bind_eq_ok_iff.mp hothers
        cases hpure
        exact .inr ⟨response, t, hfirst,
          ih.mpr ⟨others, source, later, responses', v, hrest, hothers, hsource⟩⟩

namespace Console

/-- A run breaks off exactly where a source is left unanswered. -/
theorem run_tooDeep_iff (limit : Nat) (interactive : Bool) (c : Console) (lines : List String)
    (hheld : isBlankText c.held = true → c.held = "") :
    (∃ d, c.run limit interactive lines = .tooDeep d) ↔
      ∃ u, respondEach limit c.root (gather c.held lines) c.state = (.tooDeep, u) := by
  rcases run_answers limit interactive c lines hheld with
    ⟨_, _, _, heach, hstep, -⟩ | ⟨u, d, heach, hstep⟩
  · simp [heach, hstep]
  · simp [heach, hstep]

variable {limit larger : Nat} (hle : limit ≤ larger)

include hle

/-- A console that does not give up on a source answers it in the same way under a larger limit. -/
theorem answer_of_le {source : String} {c : Console}
    (hdone : ∀ d, c.answer limit source ≠ .tooDeep d) :
    c.answer larger source = c.answer limit source := by
  rcases respond_cases limit c.root source c.state with ⟨response, t, h⟩ | ⟨t, h⟩
  · have hlarger : respond larger c.root source c.state = (.ok response, t) := by
      rw [respond_refines hle c.root source c.state (by rw [h]; nofun), h]
    rw [answer_of_ok h, answer_of_ok hlarger]
  · exact absurd (answer_of_tooDeep h) (hdone _)

/-- A console that does not give up on a line takes it in the same way under a larger limit. -/
theorem feed_of_le {line : String} {c : Console} (hdone : ∀ d, c.feed limit line ≠ .tooDeep d) :
    c.feed larger line = c.feed limit line := by
  unfold feed at hdone ⊢
  split
  · rfl
  · rfl
  · rename_i text heq
    rw [heq] at hdone
    exact answer_of_le hle hdone

/-- A console that does not give up at the end of the input ends in the same way under a larger
limit. -/
theorem finish_of_le {interactive : Bool} {c : Console}
    (hdone : ∀ d, c.finish limit interactive ≠ .tooDeep d) :
    c.finish larger interactive = c.finish limit interactive := by
  unfold finish at hdone ⊢
  split
  · rfl
  · rename_i hheld
    rw [if_neg hheld] at hdone
    have hanswer : c.answer larger c.held = c.answer limit c.held := by
      refine answer_of_le hle fun d heq => hdone d ?_
      rw [heq]
    rw [hanswer]

/-- A console that does not give up runs in the same way under a larger limit. -/
theorem run_of_le {interactive : Bool} {c : Console} {lines : List String}
    (hdone : ∀ d, c.run limit interactive lines ≠ .tooDeep d) :
    c.run larger interactive lines = c.run limit interactive lines := by
  induction lines generalizing c with
  | nil => exact finish_of_le hle hdone
  | cons line rest ih =>
    rw [run] at hdone ⊢
    rw [run]
    have hfeed : (c.prompt interactive).feed larger line =
        (c.prompt interactive).feed limit line := by
      refine feed_of_le hle fun d heq => hdone d ?_
      rw [heq]
    rw [hfeed]
    generalize (c.prompt interactive).feed limit line = step at hdone
    cases step with
    | running next => exact ih hdone
    | ended next => rfl
    | tooDeep next => rfl

end Console

/-- A computation that does not break a run off for lack of depth is seen in the same way where more
depth is allowed. -/
theorem Eval.Refines.complete_eq {α : Type} {a b : Eval α} (h : Eval.Refines a b) {s : State}
    (hdone : (a.complete s).1 ≠ .error .tooDeep) : b.complete s = a.complete s := by
  have hsame : (a s).1 ≠ .tooDeep := by
    intro hdeep
    apply hdone
    unfold Eval.complete
    generalize a s = result at hdeep
    obtain ⟨outcome, t⟩ := result
    subst hdeep
    rfl
  unfold Eval.complete
  rw [h s hsame]

/-- A run that answers one source breaks off where its evaluation gives up, and writes nothing. -/
theorem answerOnce_of_tooDeep {limit : Nat} {root : FrameId} {source : String} {s t : State}
    (h : evaluateText limit root source s = (.tooDeep, t)) (inv : Invocation) (threshold : Nat) :
    answerOnce limit inv threshold root source s =
      { exit := none
        errors := errorText inv.consoleAlone threshold t.log.toList
        crash := some .tooDeep } := by
  unfold answerOnce Eval.complete
  rw [respond_tooDeep_iff.mpr h]

section Runs

variable {limit larger : Nat} (hle : limit ≤ larger) (inv : Invocation)

include hle

/-- A run that answers one source and does not give up does the same under a larger limit. -/
theorem answerOnce_of_le {threshold : Nat} {root : FrameId} {source : String} {s : State}
    (hdone : (answerOnce limit inv threshold root source s).crash ≠ some .tooDeep) :
    answerOnce larger inv threshold root source s =
      answerOnce limit inv threshold root source s := by
  have hcomplete : (respond larger root source).complete s =
      (respond limit root source).complete s := by
    refine (respond_refines hle root source).complete_eq fun hdeep => hdone ?_
    unfold answerOnce
    generalize (respond limit root source).complete s = result at hdeep
    obtain ⟨outcome, t⟩ := result
    subst hdeep
    rfl
  unfold answerOnce
  rw [hcomplete]

end Runs

/-- The launch has come to a lack of depth. -/
def Launch.GaveUp : Launch → Prop
  | .finished report => report.crash = some .tooDeep
  | .waiting _ _ => False

/-- Opening a session is starting it with a prelude, or fails because of the surroundings, whatever
the limit. -/
theorem openFor_cases (inv : Invocation) (options : Options) :
    (∃ prelude, ∀ limit, openFor limit inv options = (startSession limit prelude).complete {}) ∨
      ∃ fault s, ∀ limit, openFor limit inv options = (.error (.host fault), s) := by
  unfold openFor Settings.openSession
  split
  · exact .inl ⟨.none, fun _ => rfl⟩
  · rcases inv.settings.preludeSource inv.disk with _ | ⟨path, fault | source⟩
    · exact .inl ⟨.none, fun _ => rfl⟩
    · exact .inr ⟨fault, _, fun _ => rfl⟩
    · exact .inl ⟨.file path source, fun _ => rfl⟩

/-- An open session is used for one source, or for what does not depend on the limit. -/
theorem serve_cases (inv : Invocation) (options : Options) (threshold : Nat) (root : FrameId)
    (s : State) :
    (∃ started, ∀ limit, serve limit inv options threshold root s = started) ∨
      ∃ source, ∀ limit, serve limit inv options threshold root s =
        .finished (answerOnce limit inv threshold root source s) := by
  simp only [serve]
  rcases options.command with _ | (source | _)
  · rcases options.file with _ | path
    · exact .inl ⟨_, fun _ => rfl⟩
    · dsimp only
      rcases readFile inv.disk path with fault | source
      · exact .inl ⟨_, fun _ => rfl⟩
      · exact .inr ⟨source, fun _ => rfl⟩
  · exact .inr ⟨source, fun _ => rfl⟩
  · exact .inl ⟨_, fun _ => rfl⟩

/-- A run is launched with options, or comes to what does not depend on the limit. -/
theorem launch_cases (inv : Invocation) :
    (∃ started, ∀ limit, launch limit inv = started) ∨
      ∃ options, ∀ limit, launch limit inv = launchWith limit inv options := by
  simp only [launch]
  cases Request.ofArguments inv.arguments with
  | run options => exact .inr ⟨options, fun _ => rfl⟩
  | help => exact .inl ⟨_, fun _ => rfl⟩
  | usage e => exact .inl ⟨_, fun _ => rfl⟩

section Runs

variable {limit larger : Nat} (hle : limit ≤ larger) (inv : Invocation)

include hle

/-- A session that opens without giving up opens in the same way under a larger limit. -/
theorem openFor_of_le {options : Options}
    (hdone : (openFor limit inv options).1 ≠ .error .tooDeep) :
    openFor larger inv options = openFor limit inv options := by
  rcases openFor_cases inv options with ⟨prelude, hopen⟩ | ⟨fault, s, hopen⟩
  · rw [hopen] at hdone ⊢
    rw [hopen]
    exact (startSession_refines hle prelude).complete_eq hdone
  · rw [hopen, hopen]

/-- An open session that is used without giving up is used in the same way under a larger limit. -/
theorem serve_of_le {options : Options} {threshold : Nat} {root : FrameId} {s : State}
    (hdone : ¬ (serve limit inv options threshold root s).GaveUp) :
    serve larger inv options threshold root s = serve limit inv options threshold root s := by
  rcases serve_cases inv options threshold root s with ⟨started, hserve⟩ | ⟨source, hserve⟩
  · rw [hserve, hserve]
  · rw [hserve] at hdone
    rw [hserve, hserve, answerOnce_of_le hle inv hdone]

/-- A run with these options is launched in the same way under a larger limit, unless it gives
up. -/
theorem launchWith_of_le {options : Options} (hdone : ¬ (launchWith limit inv options).GaveUp) :
    launchWith larger inv options = launchWith limit inv options := by
  revert hdone
  unfold launchWith
  rcases inv.settings.threshold with fault | threshold
  · simp
  · have hopen : (openFor limit inv options).1 ≠ .error .tooDeep → _ := openFor_of_le hle inv
    generalize openFor limit inv options = opened at hopen ⊢
    rcases opened with ⟨crash | root, t⟩
    · intro hdone
      have hcrash : crash ≠ .tooDeep := fun heq => hdone (congrArg some heq)
      rw [hopen fun heq => hcrash (Except.error.inj heq)]
    · intro hdone
      rw [hopen nofun]
      exact serve_of_le hle inv hdone

/-- A run is launched in the same way under a larger limit, unless it gives up. -/
theorem launch_of_le (hdone : ¬ (launch limit inv).GaveUp) :
    launch larger inv = launch limit inv := by
  rcases launch_cases inv with ⟨started, hlaunch⟩ | ⟨options, hlaunch⟩
  · rw [hlaunch, hlaunch]
  · rw [hlaunch] at hdone
    rw [hlaunch, hlaunch, launchWith_of_le hle inv hdone]

/-- A whole run that does not give up is the same under a larger limit. -/
theorem runProgram_of_le {interactive : Bool} {input : String}
    (hdone : (runProgram limit inv interactive input).crash ≠ some .tooDeep) :
    runProgram larger inv interactive input = runProgram limit inv interactive input := by
  revert hdone
  unfold runProgram
  have hlaunch := launch_of_le hle inv
  generalize launch limit inv = started at hlaunch ⊢
  intro hdone
  cases started with
  | finished report =>
    rw [hlaunch hdone]
    rfl
  | waiting console threshold =>
    rw [hlaunch id]
    unfold Launch.finish at hdone ⊢
    have hrun : console.run larger interactive (splitLines input) =
        console.run limit interactive (splitLines input) := by
      refine Console.run_of_le hle fun d heq => hdone ?_
      simp only [heq]
    simp only [hrun]

end Runs

/-- The limit on depth decides how far an evaluation gets, and nothing else.

An evaluation that stays within a limit comes to the same under every larger one, frames and events
included. Forms, calls, expressions and requests give up where the evaluator gives up on one of
their questions. A text that is given up is not answered: a run that answers one text breaks off and
writes nothing, a console writes nothing about it, and breaks off exactly where one of its sources
is given up in the state that the sources before it left. So a request, a console or a run of the
program that does not answer with a lack of depth answers the same under every larger limit. -/
theorem larger_limit_answers_the_same {limit larger : Nat} (hle : limit ≤ larger) :
    (∀ x e s, (evaluate limit x e s).1 ≠ .tooDeep →
      evaluate larger x e s = evaluate limit x e s) ∧
    (∀ (form : Form) operands e, Relays fun eval => form.run eval operands e) ∧
    (∀ head arguments, Relays fun eval => applyValue eval head arguments) ∧
    (∀ x e, Relays fun eval => evaluateWith eval x e) ∧
    (∀ (request : TextRequest) root, Relays fun eval => request.performWith eval root) ∧
    (∀ (request : TextRequest) root,
      request.performWith (evaluate limit) root = request.perform limit root) ∧
    (∀ (request : TextRequest) root s, (request.perform limit root s).1 ≠ .tooDeep →
      request.perform larger root s = request.perform limit root s) ∧
    (∀ root source s, (evaluateFirst limit root source s).1 ≠ .tooDeep →
      evaluateFirst larger root source s = evaluateFirst limit root source s) ∧
    (∀ source s, (readFirstWithin limit source s).1 ≠ .tooDeep →
      readFirstWithin larger source s = readFirstWithin limit source s) ∧
    (∀ root source s t, evaluateText limit root source s = (.tooDeep, t) →
      (∀ inv threshold, answerOnce limit inv threshold root source s =
        { exit := none
          errors := errorText inv.consoleAlone threshold t.log.toList
          crash := some .tooDeep }) ∧
      ∀ held written, Console.answer limit source ⟨root, held, written, s⟩ =
        .tooDeep ⟨root, "", written, t⟩) ∧
    (∀ interactive root written s text,
      (∃ d, Console.run limit interactive ⟨root, "", written, s⟩ (splitLines text) = .tooDeep d) ↔
        ∃ earlier source later responses t, sourcesOf text = earlier ++ source :: later ∧
          respondEach limit root earlier s = (.ok responses, t) ∧
          ∃ u, evaluateText limit root source t = (.tooDeep, u)) ∧
    (∀ inv threshold root source s,
      (answerOnce limit inv threshold root source s).crash ≠ some .tooDeep →
      answerOnce larger inv threshold root source s =
        answerOnce limit inv threshold root source s) ∧
    (∀ interactive c lines, (∀ d, Console.run limit interactive c lines ≠ .tooDeep d) →
      Console.run larger interactive c lines = Console.run limit interactive c lines) ∧
    ∀ inv interactive input, (runProgram limit inv interactive input).crash ≠ some .tooDeep →
      runProgram larger inv interactive input = runProgram limit inv interactive input := by
  refine ⟨fun x e s => evaluate_refines hle x e s, run_relays, applyValue_relays,
    evaluateWith_relays, TextRequest.performWith_relays,
    fun request root => request.performWith_evaluate limit root,
    fun request root s => request.perform_refines hle root s,
    fun root source s => evaluateFirst_refines hle root source s,
    fun source s => readFirstWithin_refines hle source s, ?_, ?_,
    fun inv _ _ _ _ => answerOnce_of_le hle inv, fun _ _ _ => Console.run_of_le hle,
    fun inv _ _ => runProgram_of_le hle inv⟩
  · intro root source s t h
    exact ⟨answerOnce_of_tooDeep h,
      fun _ _ => Console.answer_of_tooDeep (respond_tooDeep_iff.mpr h)⟩
  · intro interactive root written s text
    rw [Console.run_tooDeep_iff limit interactive _ _ fun _ => rfl]
    constructor
    · rintro ⟨u, h⟩
      obtain ⟨earlier, source, later, responses, t, hsources, hearlier, hsource⟩ :=
        respondEach_tooDeep_iff.mp h
      exact ⟨earlier, source, later, responses, t, hsources, hearlier, u, hsource⟩
    · rintro ⟨earlier, source, later, responses, t, hsources, hearlier, u, hsource⟩
      exact ⟨u, respondEach_tooDeep_iff.mpr
        ⟨earlier, source, later, responses, t, hsources, hearlier, hsource⟩⟩

/-- A choice that needs two levels runs out of depth with one, and comes to the same with two and
with three. -/
theorem larger_limit_answers_the_same_choice :
    let x := Value.list [.symbol "if", .boolean true, .boolean false, .boolean true]
    (evaluate 1 x 0 {}).1 = .tooDeep ∧ evaluate 3 x 0 {} = evaluate 2 x 0 {} := by
  intro x
  refine ⟨rfl, (larger_limit_answers_the_same (Nat.le_succ 2)).1 x 0 {} ?_⟩
  intro hdeep
  cases hdeep

end LexicalLisp
