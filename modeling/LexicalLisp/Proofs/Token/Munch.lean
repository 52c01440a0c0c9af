import LexicalLisp.Proofs.Token.Concatenation

/-!
# Tokens in a single scan

Text is cut into tokens as a whole: blanks are put around all parens, and what lies between blanks
is taken out. A scan from left to right that takes the longest word at every place, and never looks
back, gives the same tokens.

From the scan it can be read off what tokens are made of: all characters of the text except its
blanks, in their order. Where a blank or a paren stands at the seam of two texts, on either side of
it, each text can be scanned on its own.
-/

namespace LexicalLisp

/-- A character that words are made of. -/
def isWordChar (c : Char) : Bool :=
  !isDelimiter c

/-- Scan from left to right: pass over a blank, take a paren, or take the longest word. -/
def munch : List Char → List Token
  | [] => []
  | c :: rest =>
    if isBlank c then munch rest
    else if c = '(' then .opening :: munch rest
    else if c = ')' then .closing :: munch rest
    else .atom (String.ofList (c :: rest.takeWhile isWordChar)) :: munch (rest.dropWhile isWordChar)
termination_by chars => chars.length
decreasing_by
  · exact Nat.lt_succ_self _
  · exact Nat.lt_succ_self _
  · exact Nat.lt_succ_self _
  · exact Nat.lt_succ_of_le (List.dropWhile_suffix _).length_le

/-- The seam of two texts is an end of one of them or has a blank or a paren beside it. -/
def Separable (front back : List Char) : Prop :=
  (∀ c ∈ front.getLast?, isDelimiter c = true) ∨ ∀ c ∈ back.head?, isDelimiter c = true

/-- Texts with such a seam keep their tokens. -/
theorem Separable.tokensOf_append {front back : List Char} (h : Separable front back) :
    tokensOf (front ++ back) = tokensOf front ++ tokensOf back := by
  rcases h with hfront | hback
  · cases hlast : front.getLast? with
    | none =>
      rw [List.getLast?_eq_none_iff.mp hlast]
      rfl
    | some c => exact tokensOf_append_of_getLast? (hfront c hlast) hlast back
  · cases hhead : back.head? with
    | none =>
      rw [List.head?_eq_none_iff.mp hhead, tokensOf_nil, List.append_nil, List.append_nil]
    | some c => exact tokensOf_append_of_head? (hback c hhead) hhead front

/-- A longest run of word characters is one token between those in front of it and those behind
it. -/
theorem tokensOf_run {front run back : List Char}
    (hfront : ∀ c ∈ front.getLast?, isDelimiter c = true) (hne : run ≠ [])
    (hrun : ∀ c ∈ run, isDelimiter c = false) (hback : ∀ c ∈ back.head?, isDelimiter c = true) :
    tokensOf (front ++ (run ++ back)) =
      tokensOf front ++ .atom (String.ofList run) :: tokensOf back := by
  have hseam : Separable front (run ++ back) := .inl hfront
  have hnext : Separable run back := .inr hback
  rw [hseam.tokensOf_append, hnext.tokensOf_append, tokensOf_word hne hrun]
  rfl

/-- What is left behind the longest word starts with a blank or a paren, if there is anything. -/
theorem head?_dropWhile_isWordChar (chars : List Char) :
    ∀ c ∈ (chars.dropWhile isWordChar).head?, isDelimiter c = true := by
  intro c hc
  have hstop := List.head?_dropWhile_not isWordChar chars
  rw [hc] at hstop
  simpa [isWordChar] using hstop

/-- The characters of the longest word are word characters. -/
theorem takeWhile_isWordChar (chars : List Char) :
    ∀ c ∈ chars.takeWhile isWordChar, isDelimiter c = false := by
  intro c hc
  have hword := List.all_eq_true.mp List.all_takeWhile c hc
  simpa [isWordChar] using hword

/-- A character that is neither a blank nor one of the parens is one that words are made of. -/
theorem isDelimiter_eq_false {c : Char} (hblank : ¬ isBlank c = true) (hopening : c ≠ '(')
    (hclosing : c ≠ ')') : isDelimiter c = false := by
  simp [isDelimiter, isParen, hblank, hopening, hclosing]

/-- The scan finds the tokens of the text. -/
theorem munch_eq_tokensOf (chars : List Char) : munch chars = tokensOf chars := by
  fun_induction munch chars with
  | case1 => rfl
  | case2 c rest hblank ih => rw [ih, tokensOf_cons_blank rest hblank]
  | case3 rest _ ih =>
    rw [ih, tokensOf_cons_delimiter rfl rest, tokensOf_openingParen]
    rfl
  | case4 rest _ _ ih =>
    rw [ih, tokensOf_cons_delimiter rfl rest, tokensOf_closingParen]
    rfl
  | case5 c rest hblank hopening hclosing ih =>
    have hrun : ∀ d ∈ c :: rest.takeWhile isWordChar, isDelimiter d = false :=
      List.forall_mem_cons.mpr
        ⟨isDelimiter_eq_false hblank hopening hclosing, takeWhile_isWordChar rest⟩
    have htokens := @tokensOf_run [] _ _ nofun (List.cons_ne_nil _ _) hrun
      (head?_dropWhile_isWordChar rest)
    rw [List.nil_append, List.cons_append, List.takeWhile_append_dropWhile] at htokens
    rw [ih, htokens]
    rfl

/-- What the scan takes is all of the text but its blanks. -/
theorem flatMap_text_munch (chars : List Char) :
    (munch chars).flatMap (fun token => token.text.toList) = chars.filter fun c => !isBlank c := by
  fun_induction munch chars with
  | case1 => rfl
  | case2 c rest hblank ih => rw [ih, List.filter_cons_of_neg (by simp [hblank])]
  | case3 rest _ ih | case4 rest _ _ ih =>
    rw [List.flatMap_cons, ih, List.filter_cons_of_pos (by decide)]
    rfl
  | case5 c rest hblank hopening hclosing ih =>
    have hword : (rest.takeWhile isWordChar).filter (fun d => !isBlank d) =
        rest.takeWhile isWordChar := by
      refine List.filter_eq_self.mpr fun d hd => ?_
      rw [(Bool.or_eq_false_iff.mp (takeWhile_isWordChar rest d hd)).1]
      rfl
    have hrest : rest.filter (fun d => !isBlank d) =
        rest.takeWhile isWordChar ++ (rest.dropWhile isWordChar).filter fun d => !isBlank d := by
      rw [← hword, ← List.filter_append, List.takeWhile_append_dropWhile]
    rw [List.flatMap_cons, ih, List.filter_cons_of_pos (by simp [hblank]), hrest, Token.text,
      String.toList_ofList, List.cons_append]

/-- Cutting text into tokens is scanning it from left to right for parens and longest words.

Each token is a paren or a word, which has at least one character and neither blanks nor parens in
it, and the tokens one after the other are the text without its blanks. Every longest run of other
characters is one of the tokens, between those of the text in front of it and behind it. Two texts
keep their tokens when they are joined, unless a word goes on across the seam: if one of them is
empty, or the first ends or the second starts with a blank or a paren. -/
theorem tokenize_by_longest_words :
    (∀ source : String,
      tokenize source = munch source.toList ∧
      (∀ token ∈ tokenize source, token = .opening ∨ token = .closing ∨
        ∃ text, token = .atom text ∧ text ≠ "" ∧
          ∀ c ∈ text.toList, isBlank c = false ∧ isParen c = false) ∧
      String.join ((tokenize source).map Token.text) =
        String.ofList (source.toList.filter fun c => !isBlank c)) ∧
    (∀ front run back : String, (∀ c ∈ front.toList.getLast?, isDelimiter c = true) → run ≠ "" →
      (∀ c ∈ run.toList, isDelimiter c = false) → (∀ c ∈ back.toList.head?, isDelimiter c = true) →
      tokenize (front ++ (run ++ back)) = tokenize front ++ .atom run :: tokenize back) ∧
    ∀ front back : String, Separable front.toList back.toList →
      tokenize (front ++ back) = tokenize front ++ tokenize back := by
  refine ⟨fun source => ⟨?_, ?_, ?_⟩, ?_, ?_⟩
  · rw [munch_eq_tokensOf, tokenize_eq_tokensOf]
  · intro token htoken
    cases token with
    | opening => exact .inl rfl
    | closing => exact .inr (.inl rfl)
    | atom text =>
      obtain ⟨hne, hchars⟩ := undelimited_of_mem_tokenize htoken
      refine .inr (.inr ⟨text, rfl, fun hempty => hne (String.toList_eq_nil_iff.mpr hempty), ?_⟩)
      exact fun c hc => Bool.or_eq_false_iff.mp (hchars c hc)
  · rw [← String.toList_inj, String.toList_join, String.toList_ofList, List.flatMap_map,
      tokenize_eq_tokensOf, ← munch_eq_tokensOf]
    exact flatMap_text_munch source.toList
  · intro front run back hfront hne hrun hback
    have hchars := tokensOf_run hfront (fun h => hne (String.toList_eq_nil_iff.mp h)) hrun hback
    rw [String.ofList_toList] at hchars
    rw [tokenize_eq_tokensOf, String.toList_append, String.toList_append, hchars]
    rfl
  · intro front back hseam
    rw [tokenize_eq_tokensOf, String.toList_append, hseam.tokensOf_append]
    rfl

/-- A no-break space and a paren end the word between them, and a paren at a seam ends the word in
front of it. -/
theorem tokenize_by_longest_words_seam :
    tokenize ("(f\u00a0" ++ ("x-1" ++ ")")) =
        tokenize "(f\u00a0" ++ .atom "x-1" :: tokenize ")" ∧
      tokenize ("(f x" ++ ")y") = tokenize "(f x" ++ tokenize ")y" ∧
      tokenize "(f x" = [.opening, .atom "f", .atom "x"] := by
  obtain ⟨-, hrun, hseam⟩ := tokenize_by_longest_words
  refine ⟨hrun _ _ _ ?_ ?_ ?_ ?_, hseam _ _ (.inr ?_), ?_⟩
  · simp [isDelimiter, isBlank]
  · decide
  · simp [isDelimiter, isBlank, isParen]
  · simp [isDelimiter, isParen]
  · simp [isDelimiter, isParen]
  · decide

end LexicalLisp
