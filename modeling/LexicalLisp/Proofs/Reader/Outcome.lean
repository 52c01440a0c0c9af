import LexicalLisp.Cursor
import LexicalLisp.Error
import LexicalLisp.Proofs.Reader.Grammar

/-!
# What reading tokens comes to

The reader keeps a stack of open lists and never looks ahead. Its answer on a token list is
settled by how the list divides into expressions: the first expression is read and everything
after it is left, a closing paren where an expression should start is refused on the spot, and an
opening paren that is never closed is noticed only when the tokens run out.

The same holds at a cursor, whatever tokens lie behind it. The position it is left at is part of
the answer: behind the expression, behind the closing paren, or at the end.
-/

namespace LexicalLisp

/-- Hand over a finished expression, or go on reading. -/
def Reader.settle (r : Reader) (rest : List Token) : Reading :=
  match r.finished with
  | v :: _ => .value v rest
  | [] => r.next rest

/-- A token is taken before it is known whether it finishes an expression. -/
theorem Reader.next_cons (r : Reader) (token : Token) (rest : List Token) :
    r.next (token :: rest) =
      match r.feed token with
      | .error fault => .failed fault rest
      | .ok r' => r'.settle rest := rfl

mutual

/-- The tokens of an expression put its value where the reader stands. -/
theorem Reader.next_tokens_append (d : Derivation) (opened : List (List Value))
    (rest : List Token) :
    Reader.next ⟨[], opened⟩ (d.tokens ++ rest) =
      (Reader.put d.value ⟨[], opened⟩).settle rest := by
  match d with
  | .word text => rfl
  | .group members =>
    have hinner := Reader.next_tokensEach_append members [] opened (.closing :: rest)
    rw [List.append_nil] at hinner
    rw [Derivation.tokens, Derivation.value, List.cons_append, List.append_assoc,
      List.singleton_append, Reader.next_cons]
    change Reader.next ⟨[], [] :: opened⟩ _ = _
    rw [hinner, Reader.next_cons]
    simp only [Reader.feed, List.reverse_reverse]

/-- The tokens of expressions add their values to the innermost open list. -/
theorem Reader.next_tokensEach_append (ds : List Derivation) (items : List Value)
    (outer : List (List Value)) (rest : List Token) :
    Reader.next ⟨[], items :: outer⟩ (Derivation.tokensEach ds ++ rest) =
      Reader.next ⟨[], ((Derivation.valueEach ds).reverse ++ items) :: outer⟩ rest := by
  match ds with
  | [] => rfl
  | d :: ds =>
    have htail := Reader.next_tokensEach_append ds (d.value :: items) outer rest
    rw [Derivation.tokensEach, List.append_assoc, Reader.next_tokens_append d]
    change Reader.next ⟨[], (d.value :: items) :: outer⟩ _ = _
    rw [htail, Derivation.valueEach, List.reverse_cons, List.append_assoc, List.singleton_append]

end

/-- The first expression is read and the tokens behind it are left. -/
theorem readOne_tokens_append (d : Derivation) (rest : List Token) :
    readOne (d.tokens ++ rest) = .value d.value rest :=
  Reader.next_tokens_append d [] rest

/-- With a list open that nothing closes, the reader gets to the end of the tokens. -/
theorem Reader.next_of_grounded (opened : List (List Value)) (tokens : List Token) (level : Int)
    (hlevel : level < opened.length) (hgrounded : Grounded level tokens) :
    Reader.next ⟨[], opened⟩ tokens = .failed .unexpectedEnd [] := by
  induction tokens generalizing opened level with
  | nil => rfl
  | cons token rest ih =>
    obtain ⟨hzero, hrest⟩ := (grounded_cons_iff level token rest).mp hgrounded
    cases opened with
    | nil =>
      simp only [List.length_nil] at hlevel
      omega
    | cons items outer =>
      rw [List.length_cons] at hlevel
      cases token with
      | atom text =>
        exact ih ((readAtom text :: items) :: outer) level
          (by rw [List.length_cons]; exact hlevel) (by simpa [Token.weight] using hrest)
      | opening =>
        exact ih ([] :: items :: outer) (level + 1)
          (by rw [List.length_cons, List.length_cons]; omega) hrest
      | closing =>
        have hdeep : 0 ≤ level + Token.weight .closing := by
          simpa [balance] using hrest [] List.nil_prefix
        rw [Token.weight] at hdeep
        cases outer with
        | nil =>
          simp only [List.length_nil] at hlevel
          omega
        | cons more others =>
          rw [List.length_cons] at hlevel
          exact ih ((.list items.reverse :: more) :: others) (level + -1)
            (by rw [List.length_cons]; omega) hrest

/-- An opening paren that is never closed is noticed at the end of the tokens. -/
theorem readOne_of_leftOpen {tokens : List Token} (h : LeftOpen tokens) :
    readOne tokens = .failed .unexpectedEnd [] := by
  obtain ⟨rest, rfl, hrest⟩ := h
  have hgrounded : Grounded 0 rest := (leftOpen_opening_iff rest).mp ⟨rest, rfl, hrest⟩
  exact Reader.next_of_grounded [[]] rest 0 (by decide) hgrounded

/-- Either an expression starts the tokens or none does. -/
theorem exists_expression_or_stuck (tokens : List Token) :
    (∃ d rest, tokens = Derivation.tokens d ++ rest) ∨ Stuck tokens := by
  obtain ⟨ds, rest, hsplit, hstuck⟩ := exists_expressions_then_stuck tokens
  cases ds with
  | nil => exact .inr (by rwa [hsplit])
  | cons d ds => exact .inl ⟨d, _, by rw [hsplit, Derivation.tokensEach, List.append_assoc]⟩

/-- Moving to the tokens behind a start of the remaining ones passes that start. -/
theorem Cursor.seek_of_remaining (c : Cursor) (front rest : List Token)
    (h : c.remaining = front ++ rest) (hne : front ++ rest ≠ []) :
    c.seek rest = { c with position := c.position + front.length } := by
  have hlength := congrArg List.length h
  rw [Cursor.remaining, List.length_drop, List.length_append] at hlength
  have hpos : 0 < (front ++ rest).length := List.length_pos_iff.mpr hne
  rw [List.length_append] at hpos
  simp only [Cursor.seek, Cursor.mk.injEq, true_and]
  omega

namespace Cursor

/-- Where an expression starts the remaining tokens, it is read and passed. -/
theorem readOne_of_expression (c : Cursor) {d : Derivation} {rest : List Token}
    (h : c.remaining = d.tokens ++ rest) :
    c.readOne = (.ok d.value, { c with position := c.position + d.tokens.length }) := by
  have hne : d.tokens ++ rest ≠ [] := by cases d <;> simp [Derivation.tokens]
  unfold readOne
  rw [h, readOne_tokens_append]
  exact congrArg (Prod.mk _) (c.seek_of_remaining d.tokens rest h hne)

/-- A closing paren in place of an expression is passed and refused. -/
theorem readOne_of_closing (c : Cursor) {after : List Token}
    (h : c.remaining = .closing :: after) :
    c.readOne = (.error .unexpectedClose, { c with position := c.position + 1 }) := by
  unfold readOne
  rw [h]
  exact congrArg (Prod.mk _) (c.seek_of_remaining [.closing] after h (List.cons_ne_nil _ _))

/-- Where nothing is left, or a paren stays open, reading gets to the end and fails. -/
theorem readOne_of_exhausted (c : Cursor) (h : c.remaining = [] ∨ LeftOpen c.remaining) :
    c.readOne = (.error .unexpectedEnd, { c with position := c.tokens.length }) := by
  have hfailed : LexicalLisp.readOne c.remaining = .failed .unexpectedEnd [] := by
    rcases h with hnil | hopen
    · rw [hnil]
      rfl
    · exact readOne_of_leftOpen hopen
  unfold readOne
  rw [hfailed]
  rfl

/-- The next token is a closing paren exactly where one heads the remaining tokens. -/
theorem getElem?_eq_closing_iff (c : Cursor) :
    c.tokens[c.position]? = some .closing ↔ ∃ after, c.remaining = .closing :: after := by
  rw [← List.head?_drop, ← remaining]
  exact List.head?_eq_some_iff

/-- The answer at a cursor tells what stands there. -/
theorem remaining_of_readOne (c : Cursor) :
    match c.readOne.1 with
    | .ok _ => ∃ d rest, c.remaining = Derivation.tokens d ++ rest
    | .error .unexpectedClose => ∃ after, c.remaining = .closing :: after
    | .error .unexpectedEnd => c.remaining = [] ∨ LeftOpen c.remaining := by
  rcases exists_expression_or_stuck c.remaining with ⟨d, rest, h⟩ | hnil | ⟨after, h⟩ | hopen
  · rw [c.readOne_of_expression h]
    exact ⟨d, rest, h⟩
  · rw [c.readOne_of_exhausted (.inl hnil)]
    exact .inl hnil
  · rw [c.readOne_of_closing h]
    exact ⟨after, h⟩
  · rw [c.readOne_of_exhausted (.inr hopen)]
    exact .inr hopen

/-- Reading one expression at a cursor follows the grammar of expressions.

It succeeds exactly where an expression starts the remaining tokens; that expression is then the
only one, the value is its value, and the cursor stands behind its tokens. It fails on a closing
paren, which it passes, and otherwise at the end of the tokens, where nothing is left or an
opening paren is never closed. -/
theorem readOne_outcome (c : Cursor) :
    ((∃ v, c.readOne.1 = .ok v) ↔ ∃ d rest, c.remaining = Derivation.tokens d ++ rest) ∧
    (∀ d rest, c.remaining = Derivation.tokens d ++ rest →
      c.readOne = (.ok d.value, { c with position := c.position + d.tokens.length }) ∧
      ∀ e after, c.remaining = Derivation.tokens e ++ after → e = d ∧ after = rest) ∧
    (c.readOne.1 = .error .unexpectedClose ↔ c.tokens[c.position]? = some .closing) ∧
    (c.readOne.1 = .error .unexpectedClose →
      c.readOne.2 = { c with position := c.position + 1 }) ∧
    (c.readOne.1 = .error .unexpectedEnd ↔ c.remaining = [] ∨ LeftOpen c.remaining) ∧
    (c.readOne.1 = .error .unexpectedEnd →
      c.readOne.2 = { c with position := c.tokens.length }) ∧
    (Error.unreadable .unexpectedClose).report = "EtoileSyntaxError: unexpected close paren" ∧
    (Error.unreadable .unexpectedEnd).report = "EtoileSyntaxError: unexpected end of input" := by
  have hanswer := c.remaining_of_readOne
  have hclose (h : c.readOne.1 = .error .unexpectedClose) :
      ∃ after, c.remaining = .closing :: after := by
    rwa [h] at hanswer
  have hend (h : c.readOne.1 = .error .unexpectedEnd) :
      c.remaining = [] ∨ LeftOpen c.remaining := by
    rwa [h] at hanswer
  refine ⟨⟨?_, ?_⟩, ?_, ⟨?_, ?_⟩, ?_, ⟨hend, ?_⟩, ?_, rfl, rfl⟩
  · rintro ⟨v, h⟩
    rwa [h] at hanswer
  · rintro ⟨d, rest, h⟩
    exact ⟨d.value, by rw [c.readOne_of_expression h]⟩
  · intro d rest h
    refine ⟨c.readOne_of_expression h, fun e after hother => ?_⟩
    exact Derivation.tokens_append_inj e d after rest (hother.symm.trans h)
  · exact fun h => (c.getElem?_eq_closing_iff).mpr (hclose h)
  · intro h
    obtain ⟨after, hclosing⟩ := (c.getElem?_eq_closing_iff).mp h
    rw [c.readOne_of_closing hclosing]
  · intro h
    obtain ⟨after, hclosing⟩ := hclose h
    rw [c.readOne_of_closing hclosing]
  · exact fun h => by rw [c.readOne_of_exhausted h]
  · exact fun h => by rw [c.readOne_of_exhausted (hend h)]

end Cursor

end LexicalLisp
