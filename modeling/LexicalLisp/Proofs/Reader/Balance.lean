import LexicalLisp.Proofs.Reader.Outcome

/-!
# Reading everything, and counting parens

Reading all tokens repeats reading one expression until none is left or one cannot be read. What
has been read before a fault is kept, whatever the fault.

Whether all tokens can be read is a matter of counting alone: no start of the list may close more
than it opens, and in the end everything must be closed. The count also tells the two faults
apart. The words between the parens play no part in it.
-/

namespace LexicalLisp

/-- Reading all tokens is reading one expression and then reading all that is left. -/
theorem Reader.drain_eq_next (finished : List Value) (opened : List (List Value))
    (tokens : List Token) (h : tokens ≠ [] ∨ opened ≠ []) :
    Reader.drain ⟨finished, opened⟩ tokens =
      match Reader.next ⟨[], opened⟩ tokens with
      | .value v rest => Reader.drain ⟨v :: finished, []⟩ rest
      | .failed fault rest => ⟨finished.reverse, some fault, rest⟩ := by
  induction tokens generalizing opened with
  | nil =>
    cases opened with
    | nil => simp at h
    | cons items outer => rfl
  | cons token rest ih =>
    cases token with
    | atom text =>
      cases opened with
      | nil => rfl
      | cons items outer => exact ih _ (.inr (List.cons_ne_nil _ _))
    | opening => exact ih _ (.inr (List.cons_ne_nil _ _))
    | closing =>
      match opened with
      | [] => rfl
      | [items] => rfl
      | items :: more :: outer => exact ih _ (.inr (List.cons_ne_nil _ _))

/-- Between two expressions the reader goes on as it would at the start. -/
theorem Reader.drain_eq_readOne (finished : List Value) {tokens : List Token} (h : tokens ≠ []) :
    Reader.drain ⟨finished, []⟩ tokens =
      match readOne tokens with
      | .value v rest => Reader.drain ⟨v :: finished, []⟩ rest
      | .failed fault rest => ⟨finished.reverse, some fault, rest⟩ :=
  Reader.drain_eq_next finished [] tokens (.inl h)

/-- Expressions at the front are read in order. -/
theorem Reader.drain_tokensEach_append (ds : List Derivation) (finished : List Value)
    (rest : List Token) :
    Reader.drain ⟨finished, []⟩ (Derivation.tokensEach ds ++ rest) =
      Reader.drain ⟨(Derivation.valueEach ds).reverse ++ finished, []⟩ rest := by
  induction ds generalizing finished with
  | nil => rfl
  | cons d ds ih =>
    have hne : d.tokens ++ (Derivation.tokensEach ds ++ rest) ≠ [] := by
      cases d <;> simp [Derivation.tokens]
    rw [Derivation.tokensEach, List.append_assoc, Reader.drain_eq_readOne finished hne,
      readOne_tokens_append]
    simp only [ih, Derivation.valueEach, List.reverse_cons, List.append_assoc,
      List.singleton_append]

/-- What reading everything comes to: expressions up to a point, and how it stops there. -/
theorem drainTokens_cases (tokens : List Token) :
    ∃ ds rest, tokens = Derivation.tokensEach ds ++ rest ∧
      ((rest = [] ∧ drainTokens tokens = ⟨Derivation.valueEach ds, none, []⟩) ∨
        (∃ after, rest = .closing :: after ∧
          drainTokens tokens = ⟨Derivation.valueEach ds, some .unexpectedClose, after⟩) ∨
        (LeftOpen rest ∧
          drainTokens tokens = ⟨Derivation.valueEach ds, some .unexpectedEnd, []⟩)) := by
  obtain ⟨ds, rest, hsplit, hstuck⟩ := exists_expressions_then_stuck tokens
  have hdrain : drainTokens tokens =
      Reader.drain ⟨(Derivation.valueEach ds).reverse, []⟩ rest := by
    have happend := Reader.drain_tokensEach_append ds [] rest
    rw [List.append_nil] at happend
    rw [hsplit]
    exact happend
  refine ⟨ds, rest, hsplit, ?_⟩
  rcases hstuck with rfl | ⟨after, rfl⟩ | hopen
  · exact .inl ⟨rfl, by simp [hdrain, Reader.drain]⟩
  · exact .inr (.inl ⟨after, rfl, by simp [hdrain, Reader.drain, Reader.feed]⟩)
  · have hne : rest ≠ [] := by
      obtain ⟨tail, rfl, _⟩ := hopen
      exact List.cons_ne_nil _ _
    rw [hdrain, Reader.drain_eq_readOne _ hne, readOne_of_leftOpen hopen, List.reverse_reverse]
    exact .inr (.inr ⟨hopen, rfl⟩)

/-- A source can be read exactly when its tokens are those of expressions. -/
theorem readAll_eq_ok_iff (source : String) (values : List Value) :
    readAll source = .ok values ↔
      ∃ ds, tokenize source = Derivation.tokensEach ds ∧ values = Derivation.valueEach ds := by
  constructor
  · intro h
    unfold readAll at h
    obtain ⟨ds, rest, hsplit, ⟨rfl, hdrain⟩ | ⟨after, -, hdrain⟩ | ⟨-, hdrain⟩⟩ :=
      drainTokens_cases (tokenize source)
    · rw [hdrain] at h
      exact ⟨ds, by rw [hsplit, List.append_nil], (Except.ok.inj h).symm⟩
    · rw [hdrain] at h
      cases h
    · rw [hdrain] at h
      cases h
  · rintro ⟨ds, hsource, rfl⟩
    have hdrain := Reader.drain_tokensEach_append ds [] []
    unfold readAll drainTokens
    rw [List.append_nil, List.append_nil] at hdrain
    rw [hsource, hdrain]
    simp [Reader.drain]

/-- The answer to a source tells how its parens count. -/
theorem grounded_of_readAll (source : String) :
    match readAll source with
    | .ok _ => Grounded 0 (tokenize source) ∧ balance (tokenize source) = 0
    | .error .unexpectedClose => ¬ Grounded 0 (tokenize source)
    | .error .unexpectedEnd =>
      Grounded 0 (tokenize source) ∧ 0 < balance (tokenize source) := by
  obtain ⟨ds, rest, hsplit, hrest⟩ := drainTokens_cases (tokenize source)
  obtain ⟨hgrounded, hzero⟩ := Derivation.grounded_tokensEach ds (Int.le_refl 0)
  unfold readAll
  rcases hrest with ⟨rfl, hdrain⟩ | ⟨after, rfl, hdrain⟩ | ⟨hopen, hdrain⟩
  · rw [hdrain, hsplit, List.append_nil]
    exact ⟨hgrounded, hzero⟩
  · rw [hdrain, hsplit, grounded_append_iff, hzero, grounded_cons_iff, Token.weight]
    rintro ⟨-, -, hafter⟩
    have hfirst := hafter [] List.nil_prefix
    exact absurd hfirst (by decide)
  · have hpositive : 0 < balance rest := by
      obtain ⟨tail, rfl, htail⟩ := hopen
      have hwhole := htail tail (List.prefix_refl tail)
      rw [balance_cons, Token.weight]
      omega
    rw [hdrain, hsplit, grounded_append_iff, balance_append, hzero]
    exact ⟨⟨hgrounded, hopen.grounded⟩, by omega⟩

/-- A source can be read exactly when nothing closes too early and all is closed in the end. -/
theorem readAll_succeeds_iff (source : String) :
    (∃ values, readAll source = .ok values) ↔
      Grounded 0 (tokenize source) ∧ balance (tokenize source) = 0 := by
  have h := grounded_of_readAll source
  constructor
  · rintro ⟨values, hread⟩
    rwa [hread] at h
  · rintro ⟨hgrounded, hzero⟩
    split at h
    · exact ⟨_, ‹_›⟩
    · exact absurd hgrounded h
    · omega

/-- A closing paren is refused exactly when some start closes more than it opens. -/
theorem readAll_eq_unexpectedClose_iff (source : String) :
    readAll source = .error .unexpectedClose ↔ ¬ Grounded 0 (tokenize source) := by
  have h := grounded_of_readAll source
  constructor
  · intro hread
    rwa [hread] at h
  · intro hnot
    split at h
    · exact absurd h.1 hnot
    · assumption
    · exact absurd h.1 hnot

/-- The end comes too soon exactly when parens are left open and none closes too early. -/
theorem readAll_eq_unexpectedEnd_iff (source : String) :
    readAll source = .error .unexpectedEnd ↔
      Grounded 0 (tokenize source) ∧ 0 < balance (tokenize source) := by
  have h := grounded_of_readAll source
  constructor
  · intro hread
    rwa [hread] at h
  · rintro ⟨hgrounded, hpositive⟩
    split at h
    · omega
    · exact absurd hgrounded h
    · assumption

/-- A source is open exactly when its count of parens is positive. -/
theorem isOpen_iff (source : String) : isOpen source = true ↔ 0 < balance (tokenize source) := by
  simp [isOpen]

/-- A source is not open exactly when it closes at least as much as it opens. -/
theorem isOpen_eq_false_iff (source : String) :
    isOpen source = false ↔ balance (tokenize source) ≤ 0 := by
  simp [isOpen]

end LexicalLisp
