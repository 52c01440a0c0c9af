import LexicalLisp.Proofs.Console.Responses

/-!
# The console in two phases

A console reads, holds lines back, skips, prompts and evaluates all at once. Here the same is said
in two phases. First the lines are grouped into pieces, without evaluating anything: a blank line by
itself, or the lines of a source. Then the sources are answered in order, without looking at lines,
and without knowing whether a user is asked for them.

The groups are cut by counting parens. Every start of a source has parens open, and the whole source
has none left over, unless the end of the input has cut it short. Such a source is the last piece.

What is written is put together from the two: before each line that is waited for a prompt, if the
user is interactive, and behind each source its block.
-/

namespace LexicalLisp

/-- A part of the input: a blank line between sources, or the lines of a source. -/
inductive Piece where
  | blank (line : String)
  | source (lines : List String)

namespace Piece

/-- The lines of a piece. -/
def lines : Piece → List String
  | .blank line => [line]
  | .source lines => lines

/-- The text to be evaluated, if there is one. -/
def source? : Piece → Option String
  | .blank _ => none
  | .source lines => some (String.join lines)

/-- How many lines are waited for up to the end of a piece. A source that has parens open is only
complete when no other line comes. -/
def reads : Piece → Nat
  | .blank _ => 1
  | .source lines => if isOpen (String.join lines) then lines.length + 1 else lines.length

end Piece

/-- Group lines behind some that are held. A blank line is a piece of its own if none are held. -/
def group (held : List String) : List String → List Piece
  | [] => if held = [] then [] else [.source held]
  | line :: rest =>
    if held = [] ∧ isBlankText line = true then .blank line :: group [] rest
    else if isOpen (String.join (held ++ [line])) = true then group (held ++ [line]) rest
    else .source (held ++ [line]) :: group [] rest

/-- The pieces of a text. -/
def piecesOf (text : String) : List Piece :=
  group [] (splitLines text)

/-- What a line does to the lines held before it: it is skipped, held with them, or completes a
source. -/
theorem group_cons_cases (held : List String) (line : String) (rest : List String) :
    (held = [] ∧ isBlankText line = true ∧
      group held (line :: rest) = .blank line :: group [] rest) ∨
    (¬ (held = [] ∧ isBlankText line = true) ∧ isOpen (String.join (held ++ [line])) = true ∧
      group held (line :: rest) = group (held ++ [line]) rest) ∨
    (¬ (held = [] ∧ isBlankText line = true) ∧ isOpen (String.join (held ++ [line])) = false ∧
      group held (line :: rest) = .source (held ++ [line]) :: group [] rest) := by
  rw [group]
  by_cases hskip : held = [] ∧ isBlankText line = true
  · rw [if_pos hskip]
    exact .inl ⟨hskip.1, hskip.2, rfl⟩
  · rw [if_neg hskip]
    by_cases hopen : isOpen (String.join (held ++ [line])) = true
    · rw [if_pos hopen]
      exact .inr (.inl ⟨hskip, hopen, rfl⟩)
    · rw [if_neg hopen]
      exact .inr (.inr ⟨hskip, Bool.eq_false_iff.mpr hopen, rfl⟩)

/-- Every line is in one piece, in its place. -/
theorem flatMap_lines_group (held lines : List String) :
    (group held lines).flatMap Piece.lines = held ++ lines := by
  induction lines generalizing held with
  | nil => by_cases h : held = [] <;> simp [group, h, Piece.lines]
  | cons line rest ih =>
    rcases group_cons_cases held line rest with ⟨hnone, -, heq⟩ | ⟨-, -, heq⟩ | ⟨-, -, heq⟩
    · rw [heq]
      simp [ih, hnone, Piece.lines]
    · rw [heq]
      simp [ih]
    · rw [heq]
      simp [ih, Piece.lines]

/-- A blank line within a source belongs to it, and one between sources stands alone. -/
example : (piecesOf "(f\n\nx)\n\ny").map Piece.lines =
    [["(f\n", "\n", "x)\n"], ["\n"], ["y"]] := by
  decide

/-- Lines that are held back: the first is not blank, and after each of them parens are open. -/
structure Holdable (held : List String) : Prop where
  first : ∀ line ∈ held.head?, isBlankText line = false
  opened : ∀ front, front <+: held → front ≠ [] → isOpen (String.join front) = true

/-- At the start nothing is held back. -/
theorem holdable_nil : Holdable [] :=
  ⟨nofun, fun _ hfront hne => absurd (List.prefix_nil.mp hfront) hne⟩

/-- A piece as it should be: a blank line, or a source that begins with a line that is not blank and
has parens open after each line but the last. -/
def Piece.WellCut : Piece → Prop
  | .blank line => isBlankText line = true
  | .source lines => (∃ first ∈ lines.head?, isBlankText first = false) ∧
      ∀ front, front <+: lines → front ≠ [] → front ≠ lines → isOpen (String.join front) = true

section

variable {held : List String} (hheld : Holdable held)

include hheld

/-- The first line of a source is not blank. -/
theorem Holdable.first_append {line : String} (hskip : ¬ (held = [] ∧ isBlankText line = true)) :
    ∃ first ∈ (held ++ [line]).head?, isBlankText first = false := by
  cases held with
  | nil => simpa using hskip
  | cons first more => exact ⟨first, rfl, hheld.first first rfl⟩

/-- Another line may be held back if parens are open after it. -/
theorem Holdable.append {line : String} (hskip : ¬ (held = [] ∧ isBlankText line = true))
    (hopen : isOpen (String.join (held ++ [line])) = true) : Holdable (held ++ [line]) where
  first := by
    obtain ⟨first, hfirst, hblank⟩ := hheld.first_append hskip
    intro other hother
    rwa [Option.mem_unique hother hfirst]
  opened front hfront hne := by
    rcases List.prefix_concat_iff.mp hfront with rfl | hfront
    · exact hopen
    · exact hheld.opened front hfront hne

/-- Grouping cuts well. -/
theorem wellCut_of_mem_group {lines : List String} : ∀ piece ∈ group held lines, piece.WellCut := by
  induction lines generalizing held with
  | nil =>
    cases held with
    | nil => simp [group]
    | cons first more =>
      simp only [group, reduceCtorEq, if_false, List.forall_mem_singleton]
      exact ⟨⟨first, rfl, hheld.first first rfl⟩,
        fun front hfront hne _ => hheld.opened front hfront hne⟩
  | cons line rest ih =>
    rcases group_cons_cases held line rest with
      ⟨-, hblank, heq⟩ | ⟨hskip, hopen, heq⟩ | ⟨hskip, -, heq⟩
    · rw [heq, List.forall_mem_cons]
      exact ⟨hblank, ih holdable_nil⟩
    · rw [heq]
      exact ih (hheld.append hskip hopen)
    · rw [heq, List.forall_mem_cons]
      refine ⟨⟨hheld.first_append hskip, fun front hfront hne hwhole => ?_⟩, ih holdable_nil⟩
      rcases List.prefix_concat_iff.mp hfront with rfl | hfront
      · exact absurd rfl hwhole
      · exact hheld.opened front hfront hne

end

/-- A source that another piece follows has no parens left over. -/
theorem pairwise_group (held lines : List String) :
    (group held lines).Pairwise fun piece _ =>
      ∀ source ∈ piece.source?, isOpen source = false := by
  induction lines generalizing held with
  | nil => by_cases h : held = [] <;> simp [group, h]
  | cons line rest ih =>
    rcases group_cons_cases held line rest with ⟨-, -, heq⟩ | ⟨-, -, heq⟩ | ⟨-, hopen, heq⟩
    · rw [heq]
      exact List.pairwise_cons.mpr ⟨fun _ _ => nofun, ih []⟩
    · rw [heq]
      exact ih (held ++ [line])
    · rw [heq]
      exact List.pairwise_cons.mpr ⟨fun _ _ _ h => Option.some.inj h ▸ hopen, ih []⟩

/-- The answers to sources: a block for each that was answered, whether that was all of them, and
the state they leave. -/
structure Replies where
  blocks : List String
  finished : Bool
  state : State

/-- One more block in front. -/
def Replies.prepend (block : String) (replies : Replies) : Replies :=
  { replies with blocks := block :: replies.blocks }

/-- Evaluate sources in order. A value is shown, an error is shown and recorded, and the lack of
depth ends everything. -/
def repliesTo (limit : Nat) (root : FrameId) : List String → State → Replies
  | [], s => ⟨[], true, s⟩
  | source :: rest, s =>
    match evaluateText limit root source s with
    | (.ok value, t) =>
      (repliesTo limit root rest t).prepend (value.pretty 0 Value.standardWidth ++ "\n")
    | (.error e, t) =>
      (repliesTo limit root rest { t with log := t.log.push (.errorShown e) }).prepend
        ("error: " ++ e.message ++ "\n")
    | (.tooDeep, t) => ⟨[], false, t⟩

/-- Sources are answered one by one, up to the one that runs out of depth. -/
theorem repliesTo_cons (limit : Nat) (root : FrameId) (source : String) (rest : List String)
    (s : State) :
    repliesTo limit root (source :: rest) s =
      match respond limit root source s with
      | (.ok response, t) => (repliesTo limit root rest t).prepend response.block
      | (_, t) => ⟨[], false, t⟩ := by
  rw [repliesTo, respond_eq]
  rcases evaluateText limit root source s with ⟨value | e | _, t⟩ <;> rfl

/-- Each source has one block if all were answered, and otherwise some source has none. -/
theorem length_repliesTo (limit : Nat) (root : FrameId) (sources : List String) (s : State) :
    ((repliesTo limit root sources s).finished = true →
      (repliesTo limit root sources s).blocks.length = sources.length) ∧
    ((repliesTo limit root sources s).finished = false →
      (repliesTo limit root sources s).blocks.length < sources.length) := by
  induction sources generalizing s with
  | nil => exact ⟨fun _ => rfl, nofun⟩
  | cons source rest ih =>
    rcases respond_cases limit root source s with ⟨response, t, h⟩ | ⟨t, h⟩
    · simpa [repliesTo_cons, h, Replies.prepend] using ih t
    · simp [repliesTo_cons, h]

/-- The prompts for the lines of a piece: one for a new source, then those for further lines. -/
def promptsFor (interactive : Bool) : Nat → String
  | 0 => ""
  | n + 1 =>
    promptsFor interactive n ++
      if interactive then (if n = 0 then primaryPrompt else continuationPrompt) else ""

/-- What is written: prompts for the lines of every piece and for the end of the input, and behind
each source its block, as long as there is one. -/
def transcript (interactive : Bool) : List Piece → List String → String
  | [], _ => promptsFor interactive 1
  | .blank line :: rest, blocks =>
    promptsFor interactive (Piece.blank line).reads ++ transcript interactive rest blocks
  | .source lines :: rest, block :: blocks =>
    promptsFor interactive (Piece.source lines).reads ++ block ++
      transcript interactive rest blocks
  | .source lines :: _, [] => promptsFor interactive (Piece.source lines).reads

/-- How a console ends, in two phases: the sources among the pieces are answered, and what is
written is put together from the pieces and the blocks. -/
def Console.script (limit : Nat) (interactive : Bool) (root : FrameId) (pieces : List Piece)
    (written : String) (s : State) : ConsoleStep :=
  let replies := repliesTo limit root (pieces.filterMap Piece.source?) s
  let final : Console :=
    ⟨root, "", written ++ transcript interactive pieces replies.blocks, replies.state⟩
  if replies.finished then .ended final else .tooDeep final

section Script

variable {limit : Nat} {interactive : Bool} {root : FrameId} {pieces : List Piece}
  {lines : List String} {written : String} {s t : State}

/-- A blank line costs a prompt. -/
theorem Console.script_blank (line : String) :
    Console.script limit interactive root (.blank line :: pieces) written s =
      Console.script limit interactive root pieces (written ++ promptsFor interactive 1) s := by
  have hsources : (Piece.blank line :: pieces).filterMap Piece.source? =
      pieces.filterMap Piece.source? := rfl
  simp only [Console.script, hsources, transcript, Piece.reads, String.append_assoc]

/-- A source costs its prompts and is answered by its block. -/
theorem Console.script_source_of_ok {response : Response}
    (h : respond limit root (String.join lines) s = (.ok response, t)) :
    Console.script limit interactive root (.source lines :: pieces) written s =
      Console.script limit interactive root pieces
        (written ++ promptsFor interactive (Piece.source lines).reads ++ response.block) t := by
  simp [Console.script, transcript, Piece.source?, repliesTo_cons, h, Replies.prepend,
    String.append_assoc]

/-- A source that runs out of depth is the last one. -/
theorem Console.script_source_of_tooDeep
    (h : respond limit root (String.join lines) s = (.tooDeep, t)) :
    Console.script limit interactive root (.source lines :: pieces) written s =
      .tooDeep ⟨root, "", written ++ promptsFor interactive (Piece.source lines).reads, t⟩ := by
  simp [Console.script, transcript, Piece.source?, repliesTo_cons, h]

end Script

/-- The prompt for a new source. -/
theorem Console.prompt_fresh (interactive : Bool) (root : FrameId) (written : String) (s : State) :
    Console.prompt interactive ⟨root, "", written, s⟩ =
      ⟨root, "", written ++ promptsFor interactive 1, s⟩ := by
  cases interactive <;> simp [Console.prompt, Console.write, promptsFor]

section

variable {held : List String} (hheld : held ≠ [] → isOpen (String.join held) = true)

include hheld

/-- Held lines with another one are blank only if none are held. -/
theorem isBlankText_held_append (line : String) :
    isBlankText (String.join held ++ line) = true ↔ held = [] ∧ isBlankText line = true := by
  by_cases hnone : held = []
  · simp [hnone, String.join]
  · have hblank := isBlankText_of_isOpen (hheld hnone)
    have happend : isBlankText (String.join held ++ line) = false := by
      rw [isBlankText, String.toList_append, List.all_append]
      rw [isBlankText] at hblank
      rw [hblank, Bool.false_and]
    simp [hnone, happend]

/-- The prompt is the one for the next line of what is held. -/
theorem Console.prompt_held (interactive : Bool) (root : FrameId) (written : String) (s : State) :
    Console.prompt interactive
        ⟨root, String.join held, written ++ promptsFor interactive held.length, s⟩ =
      ⟨root, String.join held, written ++ promptsFor interactive (held.length + 1), s⟩ := by
  cases interactive with
  | false => simp [Console.prompt, promptsFor]
  | true =>
    by_cases hnone : held = []
    · simp [hnone, Console.prompt, Console.write, promptsFor, String.join]
    · have hblank := isBlankText_of_isOpen (hheld hnone)
      have hne : (String.join held).isEmpty = false := by
        rw [Bool.eq_false_iff]
        intro hempty
        rw [String.isEmpty_iff.mp hempty] at hblank
        cases hblank
      simp [hne, hnone, Console.prompt, Console.write, promptsFor, String.append_assoc]

/-- A console that holds lines runs as the script of the pieces to come. The prompts for the held
lines are written already, and count as those of the first piece. -/
theorem Console.run_group (limit : Nat) (interactive : Bool) (root : FrameId) (lines : List String)
    (written : String) (s : State) :
    Console.run limit interactive
        ⟨root, String.join held, written ++ promptsFor interactive held.length, s⟩ lines =
      Console.script limit interactive root (group held lines) written s := by
  -- The induction is on the lines to come. What is held grows on the way, so it is generalized.
  induction lines generalizing held written s with
  | nil =>
    rw [Console.run, Console.prompt_held hheld, Console.finish]
    by_cases hnone : held = []
    · subst hnone
      rfl
    · have hopen := hheld hnone
      have hreads : (Piece.source held).reads = held.length + 1 := by simp [Piece.reads, hopen]
      simp only [isBlankText_of_isOpen hopen, Bool.false_eq_true, if_false, group, hnone]
      rcases respond_cases limit root (String.join held) s with ⟨response, t, h⟩ | ⟨t, h⟩
      · rw [Console.answer_of_ok (c := ⟨root, _, _, s⟩) h, Console.script_source_of_ok h, hreads]
        exact congrArg ConsoleStep.ended (Console.prompt_fresh interactive root _ t)
      · rw [Console.answer_of_tooDeep (c := ⟨root, _, _, s⟩) h, Console.script_source_of_tooDeep h,
          hreads]
  | cons line rest ih =>
    have hjoin : String.join held ++ line = String.join (held ++ [line]) := by simp
    have hfresh (written : String) (s : State) :
        Console.run limit interactive ⟨root, "", written, s⟩ rest =
          Console.script limit interactive root (group [] rest) written s := by
      have hrest := @ih [] (absurd rfl) written s
      change Console.run limit interactive ⟨root, "", written ++ "", s⟩ rest = _ at hrest
      rwa [String.append_empty] at hrest
    rw [Console.run, Console.prompt_held hheld, Console.feed, takeLine]
    simp only [isBlankText_held_append hheld]
    rcases group_cons_cases held line rest with
      ⟨hnone, hblank, heq⟩ | ⟨hskip, hopen, heq⟩ | ⟨hskip, hopen, heq⟩
    · rw [heq, if_pos ⟨hnone, hblank⟩, Console.script_blank, hnone]
      exact hfresh _ s
    · rw [heq, if_neg hskip, hjoin, if_pos hopen]
      have hrest := @ih (held ++ [line]) (fun _ => hopen) written s
      rwa [List.length_append, List.length_singleton] at hrest
    · have hreads : (Piece.source (held ++ [line])).reads = held.length + 1 := by
        rw [Piece.reads, hopen, if_neg Bool.false_ne_true, List.length_append,
          List.length_singleton]
      rw [heq, if_neg hskip, hjoin, if_neg (Bool.eq_false_iff.mp hopen)]
      dsimp only
      rcases respond_cases limit root (String.join (held ++ [line])) s with
        ⟨response, t, h⟩ | ⟨t, h⟩
      · rw [Console.answer_of_ok (c := ⟨root, _, _, s⟩) h, Console.script_source_of_ok h, hreads]
        exact hfresh _ t
      · rw [Console.answer_of_tooDeep (c := ⟨root, _, _, s⟩) h, Console.script_source_of_tooDeep h,
          hreads]

/-- The sources among the pieces are those that the lines make up. -/
theorem filterMap_source?_group (lines : List String) :
    (group held lines).filterMap Piece.source? = gather (String.join held) lines := by
  induction lines generalizing held with
  | nil =>
    by_cases hnone : held = []
    · subst hnone
      rfl
    · have hblank := isBlankText_of_isOpen (hheld hnone)
      simp [group, gather, hnone, hblank, Piece.source?]
  | cons line rest ih =>
    have hjoin : String.join held ++ line = String.join (held ++ [line]) := by simp
    rw [gather, takeLine]
    simp only [isBlankText_held_append hheld]
    rcases group_cons_cases held line rest with
      ⟨hnone, hblank, heq⟩ | ⟨hskip, hopen, heq⟩ | ⟨hskip, hopen, heq⟩
    · rw [heq, if_pos ⟨hnone, hblank⟩]
      exact @ih [] (absurd rfl)
    · rw [heq, if_neg hskip, hjoin, if_pos hopen]
      exact @ih (held ++ [line]) fun _ => hopen
    · rw [heq, if_neg hskip, hjoin, if_neg (Bool.eq_false_iff.mp hopen)]
      exact congrArg (String.join (held ++ [line]) :: ·) (@ih [] (absurd rfl))

end

/-- Without a user to ask, no prompt is written. -/
theorem promptsFor_false (n : Nat) : promptsFor false n = "" := by
  induction n with
  | zero => rfl
  | succ n ih => simp [promptsFor, ih]

/-- Without a user to ask, the blocks are all that is written. -/
theorem transcript_false {pieces : List Piece} {blocks : List String}
    (h : blocks.length ≤ (pieces.filterMap Piece.source?).length) :
    transcript false pieces blocks = String.join blocks := by
  induction pieces generalizing blocks with
  | nil =>
    rw [List.eq_nil_of_length_eq_zero (Nat.le_zero.mp h)]
    simp [transcript, promptsFor_false, String.join]
  | cons piece rest ih =>
    cases piece with
    | blank line => simpa [transcript, promptsFor_false] using ih h
    | source lines =>
      cases blocks with
      | nil => simp [transcript, promptsFor_false, String.join]
      | cons block blocks =>
        have hrest : blocks.length ≤ (rest.filterMap Piece.source?).length := by
          simpa [List.filterMap_cons, Piece.source?] using h
        simp [transcript, promptsFor_false, ih hrest]

/-- A line has a line break as its last character or none at all. -/
theorem exists_last_of_mem_splitLines {text line : String} (h : line ∈ splitLines text) :
    ∃ front last, line.toList = front ++ [last] ∧ '\n' ∉ front := by
  obtain ⟨chars, hmem, rfl⟩ := List.mem_map.mp h
  rw [String.toList_ofList]
  clear h
  generalize text.toList = all at hmem
  induction all generalizing chars with
  | nil => cases hmem
  | cons c rest ih =>
    rw [List.foldr_cons] at hmem
    cases hlines : rest.foldr consLine [] with
    | nil =>
      rw [hlines] at hmem
      exact ⟨[], c, List.mem_singleton.mp hmem, List.not_mem_nil⟩
    | cons line others =>
      rw [hlines] at hmem ih
      by_cases hbreak : c = '\n'
      · have hcons : consLine c (line :: others) = [c] :: line :: others := by
          simp [consLine, hbreak]
        rw [hcons] at hmem
        rcases List.mem_cons.mp hmem with rfl | hold
        · exact ⟨[], c, rfl, List.not_mem_nil⟩
        · exact ih chars hold
      · have hcons : consLine c (line :: others) = (c :: line) :: others := by
          simp [consLine, hbreak]
        rw [hcons] at hmem
        rcases List.mem_cons.mp hmem with rfl | hold
        · obtain ⟨front, last, rfl, hfront⟩ := ih line List.mem_cons_self
          refine ⟨c :: front, last, rfl, ?_⟩
          simp [hfront, Ne.symm hbreak]
        · exact ih chars (List.mem_cons_of_mem _ hold)

/-- Parens are open where more of them are opened than closed. -/
theorem isOpen_iff_count (source : String) :
    isOpen source = true ↔ (tokenize source).count .closing < (tokenize source).count .opening := by
  rw [isOpen_iff, balance_eq_count_sub_count]
  omega

/-- A console groups its input and answers the sources, in two phases.

The text is cut after each line break, and the lines are grouped by counting parens, whatever the
state. The pieces are all lines in order: blank lines, and sources that begin with a line that is
not blank, have parens open after each line but the last, and have none left over unless they are
cut short by the end of the input. The sources are then evaluated in order, each with one block, and
the run ends behind the last of them, or at the first that runs out of depth. An interactive user
makes no difference but for the prompts. -/
theorem console_groups_then_answers (limit : Nat) (root : FrameId) (written : String) (s : State)
    (text : String) :
    let sources := (piecesOf text).filterMap Piece.source?
    let replies := repliesTo limit root sources s
    (∀ interactive,
      let final : Console :=
        ⟨root, "", written ++ transcript interactive (piecesOf text) replies.blocks, replies.state⟩
      Console.run limit interactive ⟨root, "", written, s⟩ (splitLines text) =
        if replies.finished then .ended final else .tooDeep final) ∧
    transcript false (piecesOf text) replies.blocks = String.join replies.blocks ∧
    (replies.finished = true → replies.blocks.length = sources.length) ∧
    (replies.finished = false → replies.blocks.length < sources.length) ∧
    sources = sourcesOf text ∧
    (piecesOf text).flatMap Piece.lines = splitLines text ∧
    String.join (splitLines text) = text ∧
    EndedLines (splitLines text) ∧
    (∀ line ∈ splitLines text, ∃ front last, line.toList = front ++ [last] ∧ '\n' ∉ front) ∧
    (∀ piece ∈ piecesOf text, piece.WellCut) ∧
    ((piecesOf text).Pairwise fun piece _ => ∀ source ∈ piece.source?, isOpen source = false) ∧
    ∀ source, isOpen source = true ↔
      (tokenize source).count .closing < (tokenize source).count .opening := by
  intro sources replies
  obtain ⟨hall, hsome⟩ := length_repliesTo limit root sources s
  refine ⟨fun interactive => ?_, transcript_false ?_, hall, hsome, filterMap_source?_group nofun _,
    flatMap_lines_group [] _, join_splitLines text, endedLines_splitLines text,
    fun _ => exists_last_of_mem_splitLines, wellCut_of_mem_group holdable_nil,
    pairwise_group [] _, isOpen_iff_count⟩
  · have hrun := @Console.run_group [] nofun limit interactive root (splitLines text)
      written s
    change Console.run limit interactive ⟨root, "", written ++ "", s⟩ (splitLines text) = _ at hrun
    rwa [String.append_empty] at hrun
  · cases hfinished : replies.finished with
    | true => exact Nat.le_of_eq (hall hfinished)
    | false => exact Nat.le_of_lt (hsome hfinished)

end LexicalLisp
