import LexicalLisp.Token

/-!
# Tokens of joined texts

No token reaches across a blank or a paren. Where such a character stands between two texts, the
tokens of the whole are those of the first text, of the character and of the second text, in this
order. A text without blanks and parens is one word, and a text of blanks has no tokens at all.

Nothing is assumed of the texts on either side, so the laws also hold inside broken or unbalanced
source.
-/

namespace LexicalLisp

/-- A blank or a paren: a character that ends the word before it. -/
def isDelimiter (c : Char) : Bool :=
  isBlank c || isParen c

/-- The tokens of a text given by its characters. -/
def tokensOf (chars : List Char) : List Token :=
  (wordsOf (padParens chars)).map fun word => Token.ofText (String.ofList word)

/-- Cutting a text looks at its characters only. -/
theorem tokenize_eq_tokensOf (source : String) : tokenize source = tokensOf source.toList := rfl

/-- One character decides whether the leading word grows or ends. -/
theorem splitWords_cons (c : Char) (chars : List Char) :
    splitWords (c :: chars) =
      if isBlank c then ([], consWord (splitWords chars).1 (splitWords chars).2)
      else (c :: (splitWords chars).1, (splitWords chars).2) := by
  unfold splitWords
  rw [List.foldr_cons]

/-- Finishing a word leaves the words far behind it alone. -/
theorem consWord_append (word : List Char) (words others : List (List Char)) :
    consWord word (words ++ others) = consWord word words ++ others := by
  unfold consWord
  split <;> rfl

/-- A text that does not start with a word adds its words behind those of the text before it. -/
theorem splitWords_append (front back : List Char) (hback : (splitWords back).1 = []) :
    splitWords (front ++ back) =
      ((splitWords front).1, (splitWords front).2 ++ (splitWords back).2) := by
  induction front with
  | nil => exact Prod.ext hback rfl
  | cons c rest ih =>
    rw [List.cons_append, splitWords_cons, splitWords_cons, ih]
    split
    · rw [consWord_append]
    · rfl

/-- A blank separates the words on its two sides. -/
theorem wordsOf_append_blank (front back : List Char) {c : Char} (hc : isBlank c = true) :
    wordsOf (front ++ c :: back) = wordsOf front ++ wordsOf back := by
  have hback : splitWords (c :: back) = ([], wordsOf back) := by
    rw [splitWords_cons, if_pos hc]
    rfl
  unfold wordsOf
  rw [splitWords_append front (c :: back) (by rw [hback]), hback, consWord_append]
  rfl

/-- A leading blank adds no word. -/
theorem wordsOf_cons_blank (chars : List Char) {c : Char} (hc : isBlank c = true) :
    wordsOf (c :: chars) = wordsOf chars :=
  wordsOf_append_blank [] chars hc

/-- Padding works character by character. -/
theorem padParens_append (front back : List Char) :
    padParens (front ++ back) = padParens front ++ padParens back :=
  List.flatMap_append

/-- Padding one character in front of others. -/
theorem padParens_cons (c : Char) (chars : List Char) :
    padParens (c :: chars) = (if isParen c then [' ', c, ' '] else [c]) ++ padParens chars := rfl

/-- A blank or a paren separates the tokens on its two sides. -/
theorem tokensOf_append_delimiter (front back : List Char) {c : Char} (hc : isDelimiter c = true) :
    tokensOf (front ++ c :: back) = tokensOf front ++ (tokensOf [c] ++ tokensOf back) := by
  have hspace : isBlank ' ' = true := by decide
  unfold tokensOf
  rw [padParens_append, padParens_cons, padParens_cons c []]
  by_cases hparen : isParen c = true
  · simp only [if_pos hparen, List.cons_append, List.nil_append]
    rw [wordsOf_append_blank _ _ hspace, wordsOf_cons_blank _ hspace,
      show c :: ' ' :: padParens back = [c] ++ ' ' :: padParens back from rfl,
      show c :: ' ' :: padParens [] = [c] ++ ' ' :: padParens [] from rfl,
      wordsOf_append_blank _ _ hspace, wordsOf_append_blank _ _ hspace]
    simp [padParens, wordsOf, splitWords, consWord]
  · have hblank : isBlank c = true := by
      simpa [isDelimiter, hparen] using hc
    simp only [if_neg hparen, List.cons_append, List.nil_append]
    rw [wordsOf_append_blank _ _ hblank, wordsOf_cons_blank _ hblank]
    simp [padParens, wordsOf, splitWords, consWord]

/-- The tokens behind a leading blank or paren are those of the rest. -/
theorem tokensOf_cons_delimiter {c : Char} (hc : isDelimiter c = true) (rest : List Char) :
    tokensOf (c :: rest) = tokensOf [c] ++ tokensOf rest :=
  tokensOf_append_delimiter [] rest hc

/-- An empty text has no tokens. -/
@[simp] theorem tokensOf_nil : tokensOf [] = [] := rfl

/-- An opening paren is a token of its own. -/
@[simp] theorem tokensOf_openingParen : tokensOf ['('] = [.opening] := by decide

/-- A closing paren is a token of its own. -/
@[simp] theorem tokensOf_closingParen : tokensOf [')'] = [.closing] := by decide

/-- There are two parens. -/
theorem isParen_iff (c : Char) : isParen c = true ↔ c = '(' ∨ c = ')' := by
  simp [isParen]

/-- No blank is a paren. -/
theorem isParen_of_isBlank {c : Char} (hc : isBlank c = true) : isParen c = false := by
  rw [Bool.eq_false_iff]
  intro hparen
  rcases (isParen_iff c).mp hparen with rfl | rfl
  · exact absurd hc (by decide)
  · exact absurd hc (by decide)

/-- A blank is no token. -/
theorem tokensOf_blank {c : Char} (hc : isBlank c = true) : tokensOf [c] = [] := by
  simp [tokensOf, padParens, isParen_of_isBlank hc, wordsOf, splitWords, hc, consWord]

/-- A blank separates the tokens on its two sides and adds none. -/
theorem tokensOf_append_blank (front back : List Char) {c : Char} (hc : isBlank c = true) :
    tokensOf (front ++ c :: back) = tokensOf front ++ tokensOf back := by
  have hdelimiter : isDelimiter c = true := by simp [isDelimiter, hc]
  rw [tokensOf_append_delimiter front back hdelimiter, tokensOf_blank hc, List.nil_append]

/-- A leading blank adds no token. -/
theorem tokensOf_cons_blank (chars : List Char) {c : Char} (hc : isBlank c = true) :
    tokensOf (c :: chars) = tokensOf chars :=
  tokensOf_append_blank [] chars hc

/-- A text between parens keeps its tokens between the two paren tokens. -/
theorem tokensOf_parenthesized (chars : List Char) :
    tokensOf ('(' :: (chars ++ [')'])) = .opening :: (tokensOf chars ++ [.closing]) := by
  have hclose := tokensOf_append_delimiter chars [] (c := ')') (by decide)
  rw [tokensOf_cons_delimiter (by decide), hclose, tokensOf_nil, List.append_nil]
  simp

/-- The parens put around a text are tokens of their own. -/
theorem tokenize_parenthesized (text : String) :
    tokenize ("(" ++ text ++ ")") = .opening :: (tokenize text ++ [.closing]) := by
  rw [tokenize_eq_tokensOf, tokenize_eq_tokensOf, ← tokensOf_parenthesized]
  simp

/-- A text that ends with a blank or a paren keeps its tokens in front of any other text. -/
theorem tokensOf_append_of_getLast? {front : List Char} {c : Char} (hc : isDelimiter c = true)
    (hlast : front.getLast? = some c) (back : List Char) :
    tokensOf (front ++ back) = tokensOf front ++ tokensOf back := by
  obtain ⟨start, rfl⟩ := List.getLast?_eq_some_iff.mp hlast
  have hwhole := tokensOf_append_delimiter start back hc
  have hfront := tokensOf_append_delimiter start [] hc
  rw [List.append_assoc, List.singleton_append, hwhole, hfront, tokensOf_nil, List.append_nil,
    List.append_assoc]

/-- A text that starts with a blank or a paren keeps its tokens behind any other text. -/
theorem tokensOf_append_of_head? {back : List Char} {c : Char} (hc : isDelimiter c = true)
    (hhead : back.head? = some c) (front : List Char) :
    tokensOf (front ++ back) = tokensOf front ++ tokensOf back := by
  obtain ⟨rest, rfl⟩ := List.head?_eq_some_iff.mp hhead
  rw [tokensOf_append_delimiter front rest hc, tokensOf_cons_delimiter hc rest]

/-- Padding changes nothing where no paren stands. -/
theorem padParens_of_not_paren (chars : List Char) (h : ∀ c ∈ chars, isParen c = false) :
    padParens chars = chars := by
  induction chars with
  | nil => rfl
  | cons c rest ih =>
    rw [padParens_cons, h c List.mem_cons_self, ih fun d hd => h d (List.mem_cons_of_mem c hd)]
    rfl

/-- Without blanks the whole text is the leading word. -/
theorem splitWords_of_not_blank (chars : List Char) (h : ∀ c ∈ chars, isBlank c = false) :
    splitWords chars = (chars, []) := by
  induction chars with
  | nil => rfl
  | cons c rest ih =>
    rw [splitWords_cons, h c List.mem_cons_self, ih fun d hd => h d (List.mem_cons_of_mem c hd)]
    rfl

/-- A text without blanks and parens is a single word. -/
theorem tokensOf_word {chars : List Char} (hne : chars ≠ [])
    (h : ∀ c ∈ chars, isDelimiter c = false) : tokensOf chars = [.atom (String.ofList chars)] := by
  have hblank (c : Char) (hc : c ∈ chars) : isBlank c = false :=
    (Bool.or_eq_false_iff.mp (h c hc)).1
  have hparen (c : Char) (hc : c ∈ chars) : isParen c = false :=
    (Bool.or_eq_false_iff.mp (h c hc)).2
  have hspelled (paren : Char) (hp : isParen paren = true) :
      String.ofList chars ≠ String.ofList [paren] := by
    intro heq
    have hchars : chars = [paren] := String.ofList_injective heq
    rw [hparen paren (hchars ▸ List.mem_singleton_self paren)] at hp
    exact Bool.false_ne_true hp
  unfold tokensOf wordsOf
  rw [padParens_of_not_paren chars hparen, splitWords_of_not_blank chars hblank]
  simp only [consWord, List.isEmpty_iff, hne, if_false, List.map_cons, List.map_nil]
  unfold Token.ofText
  rw [if_neg (hspelled '(' rfl), if_neg (hspelled ')' rfl)]

/-- A blank or a paren is no word. -/
theorem atom_not_mem_tokensOf_delimiter {c : Char} (hc : isDelimiter c = true) (text : String) :
    .atom text ∉ tokensOf [c] := by
  rcases Bool.or_eq_true_iff.mp hc with hblank | hparen
  · simp [tokensOf_blank hblank]
  · rcases (isParen_iff c).mp hparen with rfl | rfl
    · simp
    · simp

/-- Every word behind a run of other characters is made of characters other than blanks and parens,
and of at least one. -/
theorem undelimited_of_mem_tokensOf (chars : List Char) {front : List Char}
    (hfront : ∀ c ∈ front, isDelimiter c = false) {text : String}
    (h : .atom text ∈ tokensOf (front ++ chars)) :
    text.toList ≠ [] ∧ ∀ c ∈ text.toList, isDelimiter c = false := by
  have hword {front : List Char} (hfront : ∀ c ∈ front, isDelimiter c = false)
      (h : .atom text ∈ tokensOf front) :
      text.toList ≠ [] ∧ ∀ c ∈ text.toList, isDelimiter c = false := by
    have hne : front ≠ [] := by
      rintro rfl
      exact absurd h List.not_mem_nil
    rw [tokensOf_word hne hfront, List.mem_singleton, Token.atom.injEq] at h
    rw [h, String.toList_ofList]
    exact ⟨hne, hfront⟩
  -- The run grows up to the next blank or paren, and starts anew behind it.
  induction chars generalizing front with
  | nil => exact hword hfront (List.append_nil front ▸ h)
  | cons c rest ih =>
    by_cases hc : isDelimiter c = true
    · rw [tokensOf_append_delimiter front rest hc, List.mem_append, List.mem_append] at h
      rcases h with h | h | h
      · exact hword hfront h
      · exact absurd h (atom_not_mem_tokensOf_delimiter hc text)
      · exact ih (fun d hd => absurd hd List.not_mem_nil) h
    · have hgrown : ∀ d ∈ front ++ [c], isDelimiter d = false := by
        intro d hd
        rcases List.mem_append.mp hd with hd | hd
        · exact hfront d hd
        · rw [List.mem_singleton.mp hd]
          exact Bool.eq_false_iff.mpr hc
      apply ih hgrown
      rwa [List.append_assoc, List.singleton_append]

/-- Every word of a source is made of characters other than blanks and parens, and of at least
one. -/
theorem undelimited_of_mem_tokenize {source text : String} (h : .atom text ∈ tokenize source) :
    text.toList ≠ [] ∧ ∀ c ∈ text.toList, isDelimiter c = false :=
  undelimited_of_mem_tokensOf source.toList (fun _ hc => absurd hc List.not_mem_nil) h

/-- Only blanks have no tokens. -/
theorem tokensOf_eq_nil_iff (chars : List Char) :
    tokensOf chars = [] ↔ chars.all isBlank = true := by
  induction chars with
  | nil => exact iff_of_true tokensOf_nil rfl
  | cons c rest ih =>
    by_cases hblank : isBlank c = true
    · rw [tokensOf_cons_blank rest hblank, ih, List.all_cons, hblank, Bool.true_and]
    · rw [List.all_cons, Bool.eq_false_iff.mpr hblank, Bool.false_and]
      refine iff_of_false ?_ Bool.false_ne_true
      by_cases hparen : isParen c = true
      · rw [tokensOf_cons_delimiter (show isDelimiter c = true by simp [isDelimiter, hparen])]
        rcases (isParen_iff c).mp hparen with rfl | rfl
        · simp
        · simp
      · simp [tokensOf, padParens_cons, hparen, wordsOf, splitWords_cons, hblank, consWord]

/-- A source has no tokens exactly when it is blank. -/
theorem tokenize_eq_nil_iff (source : String) : tokenize source = [] ↔ isBlankText source = true :=
  tokensOf_eq_nil_iff source.toList

/-- Leading blanks add no token. -/
theorem tokensOf_blanks_append {blanks : List Char} (h : blanks.all isBlank = true)
    (chars : List Char) : tokensOf (blanks ++ chars) = tokensOf chars := by
  induction blanks with
  | nil => rfl
  | cons c rest ih =>
    obtain ⟨hc, hrest⟩ := Bool.and_eq_true_iff.mp (List.all_cons ▸ h)
    rw [List.cons_append, tokensOf_cons_blank _ hc, ih hrest]

/-- Blanks between two texts keep their tokens apart. -/
theorem tokenize_append_blanks_append (front back : String) {blanks : String} (hne : blanks ≠ "")
    (hblank : isBlankText blanks = true) :
    tokenize (front ++ blanks ++ back) = tokenize front ++ tokenize back := by
  cases hchars : blanks.toList with
  | nil => exact absurd (String.toList_eq_nil_iff.mp hchars) hne
  | cons c rest =>
    rw [isBlankText, hchars, List.all_cons, Bool.and_eq_true] at hblank
    simp only [tokenize_eq_tokensOf, String.toList_append, hchars, List.append_assoc,
      List.cons_append]
    rw [tokensOf_append_blank _ _ hblank.1, tokensOf_blanks_append hblank.2]

/-- Joined by blanks, texts keep their tokens. -/
theorem tokenize_intercalate {separator : String} (hne : separator ≠ "")
    (hblank : isBlankText separator = true) (parts : List String) :
    tokenize (separator.intercalate parts) = parts.flatMap tokenize := by
  induction parts with
  | nil => rw [String.intercalate_nil]; rfl
  | cons part rest ih =>
    cases rest with
    | nil => simp
    | cons next others =>
      rw [String.intercalate_cons_cons, tokenize_append_blanks_append _ _ hne hblank, ih]
      rfl

end LexicalLisp
