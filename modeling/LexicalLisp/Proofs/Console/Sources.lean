import LexicalLisp.Console
import LexicalLisp.Proofs.Eval.Steps
import LexicalLisp.Proofs.Reader.Balance
import LexicalLisp.Proofs.Token.Concatenation

/-!
# Lines gathered into sources

Which lines make up a source depends on the text alone: a source starts with a line that is not
blank and goes on while parens are open. Only the last source can end with parens open, because
only the end of the input cuts a source short.

A line break is blank, so no token reaches from one line into the next and the tokens of a text
are those of its sources. A text can therefore be read as a whole exactly when each of its sources
can be read alone, although the sources are cut by counting and the text is read in order.
-/

namespace LexicalLisp

/-- The sources that lines make up behind what is held; what the end leaves held is the last. -/
def gather (held : String) : List String → List String
  | [] => if isBlankText held then [] else [held]
  | line :: rest =>
    match takeLine held line with
    | .skip => gather "" rest
    | .hold lines => gather lines rest
    | .source text => text :: gather "" rest

/-- The sources of a text. -/
def sourcesOf (text : String) : List String :=
  gather "" (splitLines text)

/-- What a line does to the lines held before it. -/
theorem takeLine_cases (held line : String) :
    (takeLine held line = .skip ∧ isBlankText (held ++ line) = true) ∨
      (takeLine held line = .hold (held ++ line) ∧ isOpen (held ++ line) = true) ∨
      (takeLine held line = .source (held ++ line) ∧ isBlankText (held ++ line) = false ∧
        isOpen (held ++ line) = false) := by
  unfold takeLine
  by_cases hblank : isBlankText (held ++ line) = true
  · exact .inl ⟨by rw [if_pos hblank], hblank⟩
  · by_cases hopen : isOpen (held ++ line) = true
    · exact .inr (.inl ⟨by rw [if_neg hblank, if_pos hopen], hopen⟩)
    · exact .inr (.inr ⟨by rw [if_neg hblank, if_neg hopen], Bool.eq_false_iff.mpr hblank,
        Bool.eq_false_iff.mpr hopen⟩)

/-- What has parens open is not blank. -/
theorem isBlankText_of_isOpen {text : String} (h : isOpen text = true) :
    isBlankText text = false := by
  rw [Bool.eq_false_iff]
  intro hblank
  rw [isOpen_iff, (tokenize_eq_nil_iff text).mpr hblank] at h
  exact absurd h (by decide)

/-- No source is blank. -/
theorem isBlankText_of_mem_gather {held source : String} {lines : List String}
    (h : source ∈ gather held lines) : isBlankText source = false := by
  induction lines generalizing held with
  | nil =>
    unfold gather at h
    split at h
    · exact absurd h List.not_mem_nil
    · rw [List.mem_singleton.mp h]
      exact Bool.eq_false_iff.mpr ‹_›
  | cons line rest ih =>
    rcases takeLine_cases held line with ⟨heq, -⟩ | ⟨heq, -⟩ | ⟨heq, hblank, -⟩
    · rw [gather, heq] at h
      exact ih h
    · rw [gather, heq] at h
      exact ih h
    · rw [gather, heq] at h
      rcases List.mem_cons.mp h with rfl | hrest
      · exact hblank
      · exact ih hrest

/-- A source that another one follows has no open paren left over. -/
theorem pairwise_gather (held : String) (lines : List String) :
    (gather held lines).Pairwise fun source _ => isOpen source = false := by
  induction lines generalizing held with
  | nil =>
    unfold gather
    split
    · exact List.Pairwise.nil
    · exact List.pairwise_singleton _ _
  | cons line rest ih =>
    rcases takeLine_cases held line with ⟨heq, -⟩ | ⟨heq, -⟩ | ⟨heq, -, hopen⟩
    · rw [gather, heq]
      exact ih ""
    · rw [gather, heq]
      exact ih (held ++ line)
    · rw [gather, heq]
      exact List.pairwise_cons.mpr ⟨fun _ _ => hopen, ih ""⟩

/-- Every line that another one follows ends with a line break. -/
def EndedLines (lines : List String) : Prop :=
  lines.Pairwise fun line _ => line.toList.getLast? = some '\n'

/-- Cutting a text into lines ends all of them but the last. -/
theorem endedLines_splitLines (text : String) : EndedLines (splitLines text) := by
  unfold EndedLines splitLines
  rw [List.pairwise_map]
  induction text.toList with
  | nil => exact List.Pairwise.nil
  | cons c rest ih =>
    rw [List.foldr_cons]
    cases hlines : rest.foldr consLine [] with
    | nil => exact List.pairwise_singleton _ _
    | cons line others =>
      rw [hlines, List.pairwise_cons] at ih
      by_cases hbreak : c = '\n'
      · subst hbreak
        exact List.pairwise_cons.mpr ⟨fun _ _ => by simp, List.pairwise_cons.mpr ih⟩
      · have hcons : consLine c (line :: others) = (c :: line) :: others := by
          simp [consLine, hbreak]
        rw [hcons]
        refine List.pairwise_cons.mpr ⟨fun next hnext => ?_, ih.2⟩
        have hlast := ih.1 next hnext
        rw [String.toList_ofList] at hlast ⊢
        rw [List.getLast?_cons, hlast]
        rfl

/-- The lines of a text make up the text. -/
theorem join_splitLines (text : String) : String.join (splitLines text) = text := by
  apply String.toList_injective
  simp [splitLines, String.toList_join, List.flatMap_map, flatten_foldr_consLine]

/-- Text before a line break, or before nothing, keeps its tokens. -/
theorem tokenize_append_lines (held line : String) (rest : List String)
    (hended : EndedLines (line :: rest)) :
    tokenize (held ++ line ++ String.join rest) =
      tokenize (held ++ line) ++ tokenize (String.join rest) := by
  cases rest with
  | nil => simp [String.join, tokenize_eq_tokensOf]
  | cons next others =>
    have hlast : line.toList.getLast? = some '\n' :=
      (List.pairwise_cons.mp hended).1 next List.mem_cons_self
    have hdelimiter : isDelimiter '\n' = true := by decide
    simp only [tokenize_eq_tokensOf, String.toList_append]
    exact tokensOf_append_of_getLast? hdelimiter (by rw [List.getLast?_append, hlast]; rfl) _

/-- Gathering lines into sources loses and moves no token. -/
theorem tokenize_gather (held : String) (lines : List String) (hended : EndedLines lines) :
    tokenize (held ++ String.join lines) = (gather held lines).flatMap tokenize := by
  induction lines generalizing held with
  | nil =>
    unfold gather
    split
    · rename_i hblank
      simp [String.join, (tokenize_eq_nil_iff held).mpr hblank]
    · simp [String.join]
  | cons line rest ih =>
    have hrest : EndedLines rest := (List.pairwise_cons.mp hended).2
    have hempty := ih "" hrest
    rw [String.empty_append] at hempty
    rw [String.join_cons, ← String.append_assoc]
    rcases takeLine_cases held line with ⟨heq, hblank⟩ | ⟨heq, -⟩ | ⟨heq, -, -⟩
    · rw [gather, heq, tokenize_append_lines held line rest hended,
        (tokenize_eq_nil_iff _).mpr hblank, List.nil_append, hempty]
    · rw [gather, heq, ih (held ++ line) hrest]
    · rw [gather, heq, tokenize_append_lines held line rest hended, hempty, List.flatMap_cons]

/-- The tokens of a text are those of its sources. -/
theorem tokenize_sourcesOf (text : String) : tokenize text = (sourcesOf text).flatMap tokenize := by
  have h := tokenize_gather "" (splitLines text) (endedLines_splitLines text)
  rwa [String.empty_append, join_splitLines] at h

/-- A text has sources exactly when it is not blank. -/
theorem sourcesOf_eq_nil_iff (text : String) : sourcesOf text = [] ↔ isBlankText text = true := by
  rw [← tokenize_eq_nil_iff, tokenize_sourcesOf]
  constructor
  · intro h
    rw [h, List.flatMap_nil]
  · intro h
    cases hsources : sourcesOf text with
    | nil => rfl
    | cons source rest =>
      have hmem : source ∈ sourcesOf text := by simp [hsources]
      have htokens : tokenize source = [] := List.flatMap_eq_nil_iff.mp h source hmem
      have hblank := isBlankText_of_mem_gather hmem
      rw [(tokenize_eq_nil_iff source).mp htokens] at hblank
      cases hblank

/-- If all tokens together can be read, then so can those of each source. -/
theorem readAll_of_mem_sources {sources : List String}
    (hclosed : sources.Pairwise fun source _ => isOpen source = false)
    (hgrounded : Grounded 0 (sources.flatMap tokenize))
    (hzero : balance (sources.flatMap tokenize) = 0) :
    ∀ source ∈ sources, ∃ values, readAll source = .ok values := by
  induction sources with
  | nil => exact fun source h => absurd h List.not_mem_nil
  | cons first rest ih =>
    rw [List.flatMap_cons, grounded_append_iff] at hgrounded
    rw [List.flatMap_cons, balance_append] at hzero
    obtain ⟨hfollowed, hrest⟩ := List.pairwise_cons.mp hclosed
    have hlow : 0 ≤ balance (tokenize first) := by
      simpa using hgrounded.1 (tokenize first) (List.prefix_refl _)
    -- A source that is followed by another is cut where nothing is open; the last one has to make
    -- up for the others, which come to zero.
    have hfirst : balance (tokenize first) = 0 := by
      cases rest with
      | nil => simpa [balance] using hzero
      | cons second others =>
        have hhigh := (isOpen_eq_false_iff first).mp (hfollowed second List.mem_cons_self)
        omega
    rw [hfirst, Int.zero_add] at hgrounded hzero
    intro source hmem
    rcases List.mem_cons.mp hmem with rfl | hmem
    · exact (readAll_succeeds_iff source).mpr ⟨hgrounded.1, hfirst⟩
    · exact ih hrest hgrounded.2 hzero source hmem

end LexicalLisp
