import LexicalLisp.Session
import LexicalLisp.Value.Shape
import LexicalLisp.Proofs.Eval.Steps
import LexicalLisp.Proofs.Number.ReadBack
import LexicalLisp.Proofs.Reader.Outcome
import LexicalLisp.Proofs.Token.Concatenation

/-!
# Values read back

A value printed on one line is source text for an equal value, provided it is built from finite
numbers, lists, and symbols that could have been read in the first place. Printing puts a blank
between neighbours and parens around lists, so the tokens of the text follow the tree.

Behind the reserved name `quote` the text evaluates to that value in any frame: what the frame
binds the name to is not looked at, and nothing is stored.
-/

namespace LexicalLisp

/-- Digits are neither blanks nor parens. -/
theorem isDelimiter_of_isDigit {c : Char} (h : c.isDigit = true) : isDelimiter c = false := by
  have hparen : isParen c = false := by
    rw [Bool.eq_false_iff]
    intro hparen
    rcases (isParen_iff c).mp hparen with rfl | rfl
    · exact absurd h (by decide)
    · exact absurd h (by decide)
  rw [Char.isDigit, Bool.and_eq_true, decide_eq_true_eq, decide_eq_true_eq] at h
  have hlow : 48 ≤ c.toNat := UInt32.le_iff_toNat_le.mp h.1
  have hhigh : c.toNat ≤ 57 := UInt32.le_iff_toNat_le.mp h.2
  have hblank : isBlank c = false := by
    simp only [isBlank, Bool.or_eq_false_iff, Bool.and_eq_false_iff, decide_eq_false_iff_not,
      beq_eq_false_iff_ne]
    omega
  rw [isDelimiter, hblank, hparen]
  rfl

/-- No character ends a word. -/
def Undelimited (chars : List Char) : Prop :=
  ∀ c ∈ chars, isDelimiter c = false

/-- A sign does not end a word. -/
theorem undelimited_of_takeSign {chars : List Char} (h : Undelimited (takeSign chars).2) :
    Undelimited chars := by
  unfold takeSign at h
  split at h
  · exact List.forall_mem_cons.mpr ⟨by decide, h⟩
  · exact List.forall_mem_cons.mpr ⟨by decide, h⟩
  · exact h

/-- Digits do not end a word. -/
theorem undelimited_of_takeDigits {chars : List Char} (h : Undelimited (takeDigits chars).2) :
    Undelimited chars := by
  intro c hc
  rw [← List.takeWhile_append_dropWhile (p := Char.isDigit) (l := chars)] at hc
  rcases List.mem_append.mp hc with hc | hc
  · exact isDelimiter_of_isDigit (List.all_eq_true.mp List.all_takeWhile c hc)
  · exact h c hc

/-- A point and the digits after it do not end a word. -/
theorem undelimited_of_takeFraction {chars : List Char} (h : Undelimited (takeFraction chars).2) :
    Undelimited chars := by
  unfold takeFraction at h
  split at h
  · exact List.forall_mem_cons.mpr ⟨by decide, undelimited_of_takeDigits h⟩
  · exact h

/-- An exponent does not end a word. -/
theorem undelimited_of_readExponent {chars : List Char} {exponent : Int}
    (h : readExponent chars = some exponent) : Undelimited chars := by
  have hnil : Undelimited [] := fun c hc => absurd hc List.not_mem_nil
  cases chars with
  | nil => exact hnil
  | cons mark rest =>
    obtain ⟨hmark, hend⟩ := readExponent_cons h
    have hrest : Undelimited rest :=
      undelimited_of_takeSign (undelimited_of_takeDigits (hend ▸ hnil))
    rcases hmark with rfl | rfl
    · exact List.forall_mem_cons.mpr ⟨by decide, hrest⟩
    · exact List.forall_mem_cons.mpr ⟨by decide, hrest⟩

/-- A number literal is a single word. -/
theorem undelimited_of_read? {chars : List Char} {numeral : Numeral}
    (h : Numeral.read? chars = some numeral) : chars ≠ [] ∧ Undelimited chars := by
  refine ⟨fun hnil => ?_, ?_⟩
  · rw [hnil] at h
    cases h
  · unfold Numeral.read? at h
    simp only at h
    split at h
    · cases h
    · obtain ⟨exponent, hexponent, -⟩ := Option.map_eq_some_iff.mp h
      exact undelimited_of_takeSign (undelimited_of_takeDigits
        (undelimited_of_takeFraction (undelimited_of_readExponent hexponent)))

/-- A name that is read as the symbol it names: one word, and not a number literal. -/
def isReadableName (name : String) : Bool :=
  !name.isEmpty && name.toList.all (fun c => !isBlank c && !isParen c) &&
    (Numeral.read? name.toList).isNone

namespace Value

mutual

/-- The value is built from finite numbers, symbols with readable names, and lists. -/
def readable : Value → Bool
  | .number n => n.isFinite
  | .symbol name => isReadableName name
  | .list items => readableEach items
  | _ => false

/-- Every item of a list is readable. -/
def readableEach : List Value → Bool
  | [] => true
  | v :: rest => readable v && readableEach rest

end

end Value

/-- A text that is one word is written and read as that word. -/
theorem tokenize_of_undelimited {text : String} (hne : text.toList ≠ [])
    (h : Undelimited text.toList) : tokenize text = (Derivation.word text).tokens := by
  rw [tokenize_eq_tokensOf, tokensOf_word hne h, String.ofList_toList]
  rfl

/-- A finite number is printed as a word for an equal number. -/
theorem Number.tokenize_plainText {n : Number} (hfinite : n.isFinite = true) :
    tokenize n.plainText = (Derivation.word n.plainText).tokens ∧
      (readAtom n.plainText).same (.number n) = true := by
  obtain ⟨numeral, hread, hsame⟩ := Number.exists_read?_plainText hfinite
  obtain ⟨hne, hundelimited⟩ := undelimited_of_read? hread
  refine ⟨tokenize_of_undelimited hne hundelimited, ?_⟩
  rw [readAtom, hread]
  simp only [Value.same]
  exact hsame

/-- A readable name is a single word. -/
theorem undelimited_of_isReadableName {name : String} (h : isReadableName name = true) :
    name.toList ≠ [] ∧ Undelimited name.toList := by
  rw [isReadableName, Bool.and_eq_true, Bool.and_eq_true, List.all_eq_true] at h
  obtain ⟨⟨hne, hchars⟩, -⟩ := h
  refine ⟨by simpa using hne, fun c hc => ?_⟩
  have hboth := hchars c hc
  rw [Bool.and_eq_true, Bool.not_eq_true', Bool.not_eq_true'] at hboth
  rw [isDelimiter, hboth.1, hboth.2]
  rfl

/-- A readable name is printed as a word for its symbol. -/
theorem tokenize_of_isReadableName {name : String} (h : isReadableName name = true) :
    tokenize name = (Derivation.word name).tokens ∧ readAtom name = .symbol name := by
  obtain ⟨hne, hundelimited⟩ := undelimited_of_isReadableName h
  refine ⟨tokenize_of_undelimited hne hundelimited, ?_⟩
  rw [isReadableName, Bool.and_eq_true] at h
  rw [readAtom, Option.isNone_iff_eq_none.mp h.2]

/-- A group on one line has the tokens of its members between parens. -/
theorem Shape.tokenize_flat_group (members : List Shape) :
    tokenize (Shape.group members).flat =
      .opening :: ((Shape.flatEach members).flatMap tokenize ++ [.closing]) := by
  rw [Shape.flat, tokenize_parenthesized, tokenize_intercalate (by decide) (by decide)]

namespace Value

mutual

/-- The text of a readable value is an expression for an equal value. -/
theorem exists_derivation_render (v : Value) (h : v.readable = true) :
    ∃ d : Derivation, tokenize v.render = d.tokens ∧ d.value.same v = true := by
  match v with
  | .number n =>
    rw [readable] at h
    obtain ⟨htokens, hsame⟩ := Number.tokenize_plainText h
    exact ⟨.word n.plainText, htokens, hsame⟩
  | .symbol name =>
    rw [readable] at h
    obtain ⟨htokens, hread⟩ := tokenize_of_isReadableName h
    refine ⟨.word name, htokens, ?_⟩
    simp [Derivation.value, hread, same]
  | .list items =>
    rw [readable] at h
    obtain ⟨ds, htokens, hsame⟩ := exists_derivations_render items h
    refine ⟨.group ds, ?_, ?_⟩
    · rw [render, shape, Shape.tokenize_flat_group, htokens, Derivation.tokens]
    · rw [Derivation.value, same]
      exact hsame
  | .boolean _ => simp [readable] at h
  | .closure _ _ _ _ => simp [readable] at h
  | .foreign _ => simp [readable] at h

/-- The texts of readable items are expressions for equal items. -/
theorem exists_derivations_render (items : List Value) (h : readableEach items = true) :
    ∃ ds : List Derivation,
      (Shape.flatEach (shapeEach items)).flatMap tokenize = Derivation.tokensEach ds ∧
        sameItems (Derivation.valueEach ds) items = true := by
  match items with
  | [] => exact ⟨[], rfl, by simp [Derivation.valueEach, sameItems]⟩
  | v :: rest =>
    rw [readableEach, Bool.and_eq_true] at h
    obtain ⟨d, htokens, hsame⟩ := exists_derivation_render v h.1
    obtain ⟨ds, htokensRest, hsameRest⟩ := exists_derivations_render rest h.2
    refine ⟨d :: ds, ?_, ?_⟩
    · rw [shapeEach, Shape.flatEach, List.flatMap_cons, htokensRest, Derivation.tokensEach]
      rw [render] at htokens
      rw [htokens]
    · rw [Derivation.valueEach, sameItems, hsame, hsameRest]
      rfl

end

end Value

/-- A text that is written like an expression is read as its value. -/
theorem readFirst_of_tokens {source : String} {d : Derivation}
    (h : tokenize source = d.tokens) : readFirst source = .ok d.value := by
  have hread := readOne_tokens_append d []
  rw [List.append_nil, ← h] at hread
  rw [readFirst, hread]

/-- Behind the reserved name `quote` and between parens a text keeps its tokens. -/
theorem tokenize_quote (text : String) :
    tokenize ("(quote " ++ text ++ ")") =
      .opening :: .atom "quote" :: (tokenize text ++ [.closing]) := by
  have hname : tokenize "quote" = [.atom "quote"] := by decide
  have hspace : tokenize ("quote" ++ " " ++ text) = tokenize "quote" ++ tokenize text :=
    tokenize_append_blanks_append "quote" text (by decide) (by decide)
  rw [hname, List.singleton_append] at hspace
  rw [← List.cons_append, ← hspace, tokenize_eq_tokensOf, tokenize_eq_tokensOf,
    ← tokensOf_parenthesized]
  simp

/-- The reserved name `quote` yields its operand and touches nothing, whatever is bound. -/
theorem evaluate_quote (limit : Nat) (root : FrameId) (v : Value) :
    evaluate (limit + 1) (.list [.symbol "quote", v]) root = Eval.succeed v := by
  have hform : Form.ofName? "quote" = some .quote := Form.ofName?_name .quote
  change evaluateList (evaluate limit) (.symbol "quote") [v] root = _
  rw [evaluateList, hform]
  rfl

/-- A text that is read as a quoted value evaluates to it, and only the reading is recorded. -/
theorem evaluateFirst_quote (limit : Nat) (root : FrameId) (s : State) {source : String}
    {v : Value} (h : readFirst source = .ok (.list [.symbol "quote", v])) :
    evaluateFirst (limit + 1) root source s =
      (.ok (.ok v), { s with log := s.log.push (.sourceRead source) }) := by
  rw [evaluateFirst, h]
  simp only [evaluate_quote]
  rfl

/-- A readable value is read back from its printed text, and evaluated back where it is quoted.

The text is printed on one line and read by cutting it into words and parens. Equality is that of
the language, which sees no sign on a zero. Evaluation may use any limit that allows it to start,
any frame and any state, and every binding is left as it was. -/
theorem Value.read_and_quote_render (v : Value) (h : v.readable = true) :
    (∃ w, readFirst v.render = .ok w ∧ w.same v = true) ∧
      ∀ limit root s, ∃ w t,
        evaluateFirst (limit + 1) root ("(quote " ++ v.render ++ ")") s = (.ok (.ok w), t) ∧
          w.same v = true ∧ t.store = s.store := by
  obtain ⟨d, htokens, hsame⟩ := v.exists_derivation_render h
  have hquoted : tokenize ("(quote " ++ v.render ++ ")") =
      (Derivation.group [.word "quote", d]).tokens := by
    rw [tokenize_quote, htokens]
    simp [Derivation.tokens, Derivation.tokensEach]
  have hread : readFirst ("(quote " ++ v.render ++ ")") = .ok (.list [.symbol "quote", d.value]) :=
    readFirst_of_tokens hquoted
  refine ⟨⟨d.value, readFirst_of_tokens htokens, hsame⟩, fun limit root s => ?_⟩
  exact ⟨d.value, _, evaluateFirst_quote limit root s hread, hsame, rfl⟩

/-- A list of a negative zero, an operator and an empty list is read back where `quote` is bound. -/
theorem Value.read_and_quote_render_zero :
    Value.readable (.list [.number (.real true 0), .symbol "+", .list []]) = true ∧
    ∃ w t, evaluateFirst 1 0
        ("(quote " ++ Value.render (.list [.number (.real true 0), .symbol "+", .list []]) ++ ")")
        ⟨⟨#[⟨none, [("quote", .boolean false)]⟩], 0⟩, #[]⟩ = (.ok (.ok w), t) ∧
      w.same (.list [.number (.real true 0), .symbol "+", .list []]) = true ∧
      t.store = ⟨#[⟨none, [("quote", .boolean false)]⟩], 0⟩ :=
  ⟨by decide, (Value.read_and_quote_render _ (by decide)).2 0 0 _⟩

end LexicalLisp
