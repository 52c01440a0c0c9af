import LexicalLisp.CommandLine.Run
import LexicalLisp.Proofs.Console.Responses
import LexicalLisp.Proofs.Session.Roots
import LexicalLisp.Proofs.Text.Utf8
import LexicalLisp.Proofs.Token.Concatenation

/-!
# Line ends

A program can be given on the command line or in a file. A file is decoded and its line ends are
unified on the way, a command is taken as it is, so the two do not hand on the same characters. They
hand on the same tokens, because a line ends with blanks before and after, and blanks are no part of
a token.

Nothing behind the reader sees the text itself. So a command and a file with the same text are
answered alike, and the status tells whether the text has a value.
-/

namespace LexicalLisp

/-- Unifying line ends leaves the tokens alone, also those of a word that begins before. -/
theorem tokensOf_append_unifyNewlines (front chars : List Char) :
    tokensOf (front ++ unifyNewlines chars) = tokensOf (front ++ chars) := by
  have hreturn : isBlank '\r' = true := by decide
  induction chars using unifyNewlines.induct generalizing front with
  | case1 => rfl
  | case2 rest ih =>
    rw [unifyNewlines, tokensOf_append_blank _ _ isBlank_newline, tokensOf_append_blank _ _ hreturn,
      tokensOf_cons_blank _ isBlank_newline]
    exact congrArg _ (ih [])
  | case3 rest hrest ih =>
    rw [unifyNewlines, tokensOf_append_blank _ _ isBlank_newline, tokensOf_append_blank _ _ hreturn]
    · exact congrArg _ (ih [])
    · exact hrest
  | case4 c rest hpair hsingle ih =>
    rw [unifyNewlines]
    -- The character may be inside a word, so it joins the text in front.
    · rw [List.append_cons, List.append_cons front c rest]
      exact ih (front ++ [c])
    · exact hpair
    · exact hsingle

/-- Turn each carriage return and the new line after it into one new line. -/
def joinReturns : List Char → List Char
  | [] => []
  | '\r' :: '\n' :: rest => '\n' :: joinReturns rest
  | c :: rest => c :: joinReturns rest

/-- The text with its line ends unified: first those of a carriage return and a new line, then each
carriage return that is left. -/
def unifiedText (code : String) : String :=
  String.ofList ((joinReturns code.toList).map fun c => if c = '\r' then '\n' else c)

/-- Line ends are unified in one pass as they are in two. -/
theorem ofList_unifyNewlines (code : String) :
    String.ofList (unifyNewlines code.toList) = unifiedText code := by
  apply congrArg String.ofList
  generalize code.toList = chars
  induction chars using unifyNewlines.induct with
  | case1 => rfl
  | case2 rest ih =>
    rw [unifyNewlines, joinReturns, ih]
    rfl
  | case3 rest hrest ih =>
    rw [unifyNewlines, joinReturns, ih]
    · rfl
    · exact fun rest' _ => hrest rest'
    · exact hrest
  | case4 c rest hpair hsingle ih =>
    rw [unifyNewlines, joinReturns, ih]
    · rw [List.map_cons, if_neg hsingle]
    · exact hpair
    · exact hpair
    · exact hsingle

/-- Unifying line ends leaves the tokens of a text alone. -/
theorem tokenize_unifiedText (code : String) : tokenize (unifiedText code) = tokenize code := by
  rw [← ofList_unifyNewlines, tokenize_eq_tokensOf, String.toList_ofList]
  exact tokensOf_append_unifyNewlines [] code.toList

/-- A text is evaluated by its tokens. -/
theorem evaluateText_of_tokenize {source other : String} (h : tokenize source = tokenize other)
    (limit : Nat) (root : FrameId) :
    evaluateText limit root source = evaluateText limit root other := by
  unfold evaluateText readAll
  rw [h]

/-- A text is answered by its tokens. -/
theorem respond_of_tokenize {source other : String} (h : tokenize source = tokenize other)
    (limit : Nat) (root : FrameId) : respond limit root source = respond limit root other := by
  unfold respond
  rw [evaluateText_of_tokenize h]

/-- A run answers a text in the same way after its line ends are unified. -/
theorem answerOnce_unifiedText (limit : Nat) (inv : Invocation) (threshold : Nat) (root : FrameId)
    (code : String) (s : State) :
    answerOnce limit inv threshold root (unifiedText code) s =
      answerOnce limit inv threshold root code s := by
  unfold answerOnce
  rw [respond_of_tokenize (tokenize_unifiedText code)]

/-- A run that answers one text exits with zero if the text has a value. -/
theorem exit_answerOnce_eq_zero_iff {limit : Nat} {inv : Invocation} {threshold : Nat}
    {root : FrameId} {source : String} {s : State} :
    (answerOnce limit inv threshold root source s).exit = some 0 ↔
      ∃ v t, evaluateText limit root source s = (.ok v, t) := by
  unfold answerOnce Eval.complete
  rw [respond_eq]
  rcases evaluateText limit root source s with ⟨v | e | _, t⟩ <;> simp

/-- It exits with one if the evaluation of the text fails. -/
theorem exit_answerOnce_eq_one_iff {limit : Nat} {inv : Invocation} {threshold : Nat}
    {root : FrameId} {source : String} {s : State} :
    (answerOnce limit inv threshold root source s).exit = some 1 ↔
      ∃ e t, evaluateText limit root source s = (.error e, t) := by
  unfold answerOnce Eval.complete
  rw [respond_eq]
  rcases evaluateText limit root source s with ⟨v | e | _, t⟩ <;> simp

/-- A file with the bytes of a text is read as the text with its line ends unified. -/
theorem readFile_toUTF8 {disk : Disk} {path code : String} (hpath : '\x00' ∉ path.toList)
    (hfile : disk path = .file code.toUTF8.data.toList) :
    readFile disk path = .ok (unifiedText code) := by
  have hname : path.toList.contains '\x00' = false := by
    simpa using hpath
  rw [readFile, hname, hfile]
  simp only [decodeFile, decodeUtf8_toUTF8, ofList_unifyNewlines]
  rfl

section Launches

variable (limit : Nat) (inv : Invocation) (noPrelude : Bool) (code : String)

/-- How evaluating a text ends in the session that a run opens, if it comes to open one. -/
def Invocation.EvaluatesTo (outcome : Outcome Value) : Prop :=
  ∃ threshold root s t, inv.settings.threshold = .ok threshold ∧
    openFor limit inv { noPrelude := noPrelude } = (.ok root, s) ∧
    evaluateText limit root code s = (outcome, t)

/-- Arguments are of no importance to an answer. -/
theorem answerOnce_arguments (arguments : List String) (threshold : Nat) (root : FrameId)
    (s : State) :
    answerOnce limit { inv with arguments := arguments } threshold root code s =
      answerOnce limit inv threshold root code s := by
  unfold answerOnce
  generalize (respond limit root code).complete s = result
  obtain ⟨crash | response, t⟩ := result <;> rfl

/-- Arguments are of no importance to a run beyond what they ask for. -/
theorem launch_of_request {arguments : List String} {options : Options}
    (h : Request.ofArguments arguments = .run options) :
    launch limit { inv with arguments := arguments } = launchWith limit inv options := by
  have hopened : openFor limit { inv with arguments := arguments } options =
      openFor limit inv options := rfl
  have hserve (threshold : Nat) (root : FrameId) (s : State) :
      serve limit { inv with arguments := arguments } options threshold root s =
        serve limit inv options threshold root s := by
    unfold serve
    simp only [answerOnce_arguments]
    rfl
  have hlaunch : launch limit { inv with arguments := arguments } =
      launchWith limit { inv with arguments := arguments } options := by
    rw [launch, h]
  rw [hlaunch]
  unfold launchWith
  simp only [hopened, hserve]

/-- A run with a command ends, and its status tells how the evaluation ended. -/
theorem launchWith_command (file : Option String) :
    ∃ report, launchWith limit inv ⟨some (.source code), file, noPrelude⟩ = .finished report ∧
      (report.exit = some 0 ↔ ∃ v, inv.EvaluatesTo limit noPrelude code (.ok v)) ∧
      (report.exit = some 1 ↔ ∃ e, inv.EvaluatesTo limit noPrelude code (.error e)) := by
  have hopened : openFor limit inv ⟨some (.source code), file, noPrelude⟩ =
      openFor limit inv { noPrelude := noPrelude } := rfl
  have hserve (threshold : Nat) (root : FrameId) (s : State) :
      serve limit inv ⟨some (.source code), file, noPrelude⟩ threshold root s =
        .finished (answerOnce limit inv threshold root code s) := rfl
  unfold launchWith Invocation.EvaluatesTo
  simp only [hopened, hserve]
  cases inv.settings.threshold with
  | error fault => exact ⟨_, rfl, by simp⟩
  | ok threshold =>
    generalize openFor limit inv { noPrelude := noPrelude } = opened
    obtain ⟨crash | root, s⟩ := opened
    · exact ⟨_, rfl, by simp⟩
    · refine ⟨answerOnce limit inv threshold root code s, rfl, ?_⟩
      rw [exit_answerOnce_eq_zero_iff, exit_answerOnce_eq_one_iff]
      simp [and_assoc]

/-- What a run does with a file is what it does with the text of the file as a command. -/
theorem launchWith_file {path : String} (hpath : '\x00' ∉ path.toList)
    (hfile : inv.disk path = .file code.toUTF8.data.toList) (file : Option String) :
    launchWith limit inv ⟨none, some path, noPrelude⟩ =
      launchWith limit inv ⟨some (.source code), file, noPrelude⟩ := by
  have hserve (threshold : Nat) (root : FrameId) (s : State) :
      serve limit inv ⟨none, some path, noPrelude⟩ threshold root s =
        serve limit inv ⟨some (.source code), file, noPrelude⟩ threshold root s := by
    simp only [serve, readFile_toUTF8 hpath hfile, answerOnce_unifiedText]
  have hopened : openFor limit inv ⟨none, some path, noPrelude⟩ =
      openFor limit inv ⟨some (.source code), file, noPrelude⟩ := rfl
  unfold launchWith
  simp only [hserve, hopened]

end Launches

/-- Line ends do not matter, and neither does where a program comes from.

A text is answered as the text with its line ends unified is: with the same block and the same
status, leaving the same frames and the same events, and so the same lines on the error output. The
status is zero if the text has a value and one if its evaluation fails. A run that is given the text
as a command therefore comes to the same report as one that is given a file with the bytes of the
text, and it exits with zero or one as the text has a value or fails in the session that is opened
for it. -/
theorem line_ends_do_not_matter (code : String) :
    (∀ (limit : Nat) (inv : Invocation) (threshold : Nat) (root : FrameId) (s : State),
      let answered := answerOnce limit inv threshold root code s
      respond limit root (unifiedText code) s = respond limit root code s ∧
      answerOnce limit inv threshold root (unifiedText code) s = answered ∧
      (answered.exit = some 0 ↔ ∃ v t, evaluateText limit root code s = (.ok v, t)) ∧
      (answered.exit = some 1 ↔ ∃ d t, evaluateText limit root code s = (.error d, t))) ∧
    ∀ (limit : Nat) (inv : Invocation) (noPrelude : Bool) (file : Option String) (path : String)
        (given named : List String), '\x00' ∉ path.toList →
      inv.disk path = .file code.toUTF8.data.toList →
      Request.ofArguments given = .run ⟨some (.source code), file, noPrelude⟩ →
      Request.ofArguments named = .run ⟨none, some path, noPrelude⟩ →
      ∃ report, launch limit { inv with arguments := given } = .finished report ∧
        launch limit { inv with arguments := named } = .finished report ∧
        (report.exit = some 0 ↔ ∃ v, inv.EvaluatesTo limit noPrelude code (.ok v)) ∧
        (report.exit = some 1 ↔ ∃ d, inv.EvaluatesTo limit noPrelude code (.error d)) := by
  constructor
  · intro limit inv threshold root s answered
    refine ⟨?_, answerOnce_unifiedText limit inv threshold root code s,
      exit_answerOnce_eq_zero_iff, exit_answerOnce_eq_one_iff⟩
    rw [respond_of_tokenize (tokenize_unifiedText code)]
  · intro limit inv noPrelude file path given named hpath hfile hgiven hnamed
    obtain ⟨report, hreport, hexit⟩ := launchWith_command limit inv noPrelude code file
    refine ⟨report, ?_, ?_, hexit⟩
    · rw [launch_of_request limit inv hgiven, hreport]
    · rw [launch_of_request limit inv hnamed,
        launchWith_file limit inv noPrelude code hpath hfile file, hreport]

/-- A definition over two lines with a carriage return between them, as a command and as a file. -/
theorem line_ends_do_not_matter_definition :
    let code := "(define x\r\ntrue)"
    let inv : Invocation := { arguments := [], disk := fun _ => .file code.toUTF8.data.toList }
    ∃ report, launch 3 { inv with arguments := ["--no-prelude", "-c", code] } = .finished report ∧
      launch 3 { inv with arguments := ["--no-prelude", "f"] } = .finished report ∧
      report.exit = some 0 := by
  intro code inv
  obtain ⟨report, hgiven, hnamed, hexit, -⟩ := (line_ends_do_not_matter code).2 3 inv true none "f"
    ["--no-prelude", "-c", code] ["--no-prelude", "f"] (by decide) rfl (by decide) (by decide)
  have hrank : levelRank? (upperCase (trimBlanks (Option.getD none "WARNING"))) = some 30 := by
    decide
  have hthreshold : inv.settings.threshold = .ok 30 := by
    simp only [inv, Settings.threshold, hrank]
  have hstart : startSession 3 .none {} = (.ok 0, State.newSession) :=
    Eval.bind_of_ok standardRoot_empty _
  have hopened : openFor 3 inv { noPrelude := true } = (.ok 0, State.newSession) := by
    change (startSession 3 .none).complete {} = _
    rw [Eval.complete, hstart]
  have hread : readAll "(define x\r\ntrue)" =
      .ok [.list [.symbol "define", .symbol "x", .symbol "true"]] := rfl
  have hvalue : (evaluateText 3 0 code State.newSession).1 = .ok (.boolean true) := by
    rw [evaluateText, hread]
    rfl
  refine ⟨report, hgiven, hnamed, hexit.mpr ?_⟩
  exact ⟨_, 30, 0, State.newSession, _, hthreshold, hopened, Prod.ext hvalue rfl⟩

end LexicalLisp
