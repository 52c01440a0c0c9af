import LexicalLisp.Reader

/-!
# The grammar of expressions

An expression is a word, or expressions between an opening and a closing paren. Its derivation
determines both the tokens it is written with and the value it is read as; no two derivations
start the same token list, so the grammar is unambiguous even where further tokens follow.

Every token list is a sequence of expressions up to a point where no expression starts: the end,
a closing paren, or an opening paren that is never closed. The last two are told by counting
parens, without reference to derivations or to a reader.
-/

namespace LexicalLisp

/-- How an expression is built from words and parens. -/
inductive Derivation where
  | word (text : String)
  | group (members : List Derivation)

namespace Derivation

mutual

/-- The tokens an expression is written with. -/
def tokens : Derivation → List Token
  | .word text => [.atom text]
  | .group members => .opening :: (tokensEach members ++ [.closing])

/-- The tokens of expressions one after another. -/
def tokensEach : List Derivation → List Token
  | [] => []
  | d :: rest => tokens d ++ tokensEach rest

end

mutual

/-- The value an expression is read as: each word as an atom, each group as a list. -/
def value : Derivation → Value
  | .word text => readAtom text
  | .group members => .list (valueEach members)

/-- The values of expressions one after another. -/
def valueEach : List Derivation → List Value
  | [] => []
  | d :: rest => value d :: valueEach rest

end

/-- The tokens of two sequences of expressions follow one another. -/
theorem tokensEach_append (ds es : List Derivation) :
    tokensEach (ds ++ es) = tokensEach ds ++ tokensEach es := by
  induction ds with
  | nil => rfl
  | cons d rest ih => rw [List.cons_append, tokensEach, ih, tokensEach, List.append_assoc]

/-- The values of two sequences of expressions follow one another. -/
theorem valueEach_append (ds es : List Derivation) :
    valueEach (ds ++ es) = valueEach ds ++ valueEach es := by
  induction ds with
  | nil => rfl
  | cons d rest ih => rw [List.cons_append, valueEach, ih, valueEach, List.cons_append]

/-- No expression starts with a closing paren. -/
theorem tokens_append_ne_closing (d : Derivation) (rest after : List Token) :
    d.tokens ++ rest ≠ .closing :: after := by
  cases d <;> simp [tokens]

mutual

/-- At most one expression starts a token list. -/
theorem tokens_append_inj (d e : Derivation) (rest after : List Token)
    (h : d.tokens ++ rest = e.tokens ++ after) : d = e ∧ rest = after := by
  match d, e with
  | .word text, .word other =>
    simp only [tokens, List.cons_append, List.nil_append, List.cons.injEq, Token.atom.injEq] at h
    exact ⟨congrArg word h.1, h.2⟩
  | .word _, .group _ => simp [tokens] at h
  | .group _, .word _ => simp [tokens] at h
  | .group members, .group others =>
    simp only [tokens, List.cons_append, List.append_assoc, List.nil_append,
      List.cons.injEq, true_and] at h
    obtain ⟨hmembers, hrest⟩ := tokensEach_append_inj members others rest after h
    exact ⟨congrArg group hmembers, hrest⟩

/-- At most one sequence of expressions leads up to a closing paren. -/
theorem tokensEach_append_inj (ds es : List Derivation) (rest after : List Token)
    (h : tokensEach ds ++ .closing :: rest = tokensEach es ++ .closing :: after) :
    ds = es ∧ rest = after := by
  match ds, es with
  | [], [] => exact ⟨rfl, (List.cons.inj h).2⟩
  | [], e :: es =>
    rw [tokensEach, tokensEach, List.append_assoc] at h
    exact absurd h.symm (tokens_append_ne_closing e _ _)
  | d :: ds, [] =>
    rw [tokensEach, tokensEach, List.append_assoc] at h
    exact absurd h (tokens_append_ne_closing d _ _)
  | d :: ds, e :: es =>
    rw [tokensEach, tokensEach, List.append_assoc, List.append_assoc] at h
    obtain ⟨hhead, htail⟩ := tokens_append_inj d e _ _ h
    obtain ⟨hmembers, hrest⟩ := tokensEach_append_inj ds es rest after htail
    exact ⟨by rw [hhead, hmembers], hrest⟩

end

end Derivation

/-- The balance of tokens with one more in front. -/
theorem balance_cons (token : Token) (tokens : List Token) :
    balance (token :: tokens) = token.weight + balance tokens := rfl

/-- Balances of consecutive token lists add up. -/
theorem balance_append (front back : List Token) :
    balance (front ++ back) = balance front + balance back := by
  induction front with
  | nil => simp [balance]
  | cons token rest ih => rw [List.cons_append, balance_cons, ih, balance_cons, Int.add_assoc]

/-- The balance is the number of opening minus the number of closing parens. -/
theorem balance_eq_count_sub_count (tokens : List Token) :
    balance tokens = tokens.count .opening - tokens.count .closing := by
  induction tokens with
  | nil => rfl
  | cons token rest ih =>
    rw [balance_cons, ih]
    cases token <;> simp [Token.weight] <;> omega

/-- Where so many parens are open beforehand, no closing paren comes too early. -/
def Grounded (level : Int) (tokens : List Token) : Prop :=
  ∀ front, front <+: tokens → 0 ≤ level + balance front

/-- Nothing is closed too early by no tokens. -/
theorem grounded_nil_iff (level : Int) : Grounded level [] ↔ 0 ≤ level := by
  simp [Grounded, balance]

/-- One token raises or lowers the level for the tokens behind it. -/
theorem grounded_cons_iff (level : Int) (token : Token) (tokens : List Token) :
    Grounded level (token :: tokens) ↔ 0 ≤ level ∧ Grounded (level + token.weight) tokens := by
  constructor
  · intro h
    refine ⟨by simpa [balance] using h [] (List.nil_prefix), fun front hfront => ?_⟩
    have hnext := h (token :: front) (List.cons_prefix_cons.mpr ⟨rfl, hfront⟩)
    rw [balance_cons] at hnext
    omega
  · rintro ⟨hlevel, htokens⟩ front hfront
    rcases List.prefix_cons_iff.mp hfront with rfl | ⟨rest, rfl, hrest⟩
    · simpa [balance] using hlevel
    · have hnext := htokens rest hrest
      rw [balance_cons]
      omega

/-- Token lists one after the other close nothing too early if neither does at its own level. -/
theorem grounded_append_iff (level : Int) (front back : List Token) :
    Grounded level (front ++ back) ↔
      Grounded level front ∧ Grounded (level + balance front) back := by
  induction front generalizing level with
  | nil =>
    rw [List.nil_append, grounded_nil_iff]
    simp only [balance, List.foldr_nil, Int.add_zero]
    exact ⟨fun h => ⟨by simpa [balance] using h [] List.nil_prefix, h⟩, And.right⟩
  | cons token rest ih =>
    rw [List.cons_append, grounded_cons_iff, grounded_cons_iff, ih, balance_cons, and_assoc,
      Int.add_assoc]

/-- More open parens do no harm. -/
theorem Grounded.mono {low high : Int} {tokens : List Token} (h : Grounded low tokens)
    (hle : low ≤ high) : Grounded high tokens := by
  intro front hfront
  have := h front hfront
  omega

namespace Derivation

mutual

/-- An expression closes every paren it opens, and none before it is opened. -/
theorem grounded_tokens (d : Derivation) {level : Int} (hlevel : 0 ≤ level) :
    Grounded level d.tokens ∧ balance d.tokens = 0 := by
  match d with
  | .word text =>
    refine ⟨?_, rfl⟩
    rw [tokens, grounded_cons_iff, grounded_nil_iff, Token.weight]
    omega
  | .group members =>
    obtain ⟨hinner, hbalance⟩ := grounded_tokensEach members (show 0 ≤ level + 1 by omega)
    rw [tokens, grounded_cons_iff, grounded_append_iff, grounded_cons_iff, grounded_nil_iff,
      balance_cons, balance_append, hbalance]
    simp only [Token.weight, balance, List.foldr_cons, List.foldr_nil]
    exact ⟨⟨hlevel, hinner, by omega⟩, by omega⟩

/-- So do expressions one after another. -/
theorem grounded_tokensEach (ds : List Derivation) {level : Int} (hlevel : 0 ≤ level) :
    Grounded level (tokensEach ds) ∧ balance (tokensEach ds) = 0 := by
  match ds with
  | [] => exact ⟨(grounded_nil_iff level).mpr hlevel, rfl⟩
  | d :: rest =>
    obtain ⟨hfirst, hzero⟩ := grounded_tokens d hlevel
    obtain ⟨hrest, hbalance⟩ := grounded_tokensEach rest hlevel
    rw [tokensEach, grounded_append_iff, balance_append, hzero, hbalance, Int.add_zero]
    exact ⟨⟨hfirst, hrest⟩, rfl⟩

end

end Derivation

/-- An opening paren that none of the tokens behind it closes. -/
def LeftOpen (tokens : List Token) : Prop :=
  ∃ rest, tokens = .opening :: rest ∧ ∀ front, front <+: rest → 0 ≤ balance front

/-- An opening paren is left open exactly where nothing behind it is closed too early. -/
theorem leftOpen_opening_iff (rest : List Token) :
    LeftOpen (.opening :: rest) ↔ Grounded 0 rest := by
  simp [LeftOpen, Grounded]

/-- What is left open is not closed too early. -/
theorem LeftOpen.grounded {tokens : List Token} (h : LeftOpen tokens) : Grounded 0 tokens := by
  obtain ⟨rest, rfl, hrest⟩ := h
  rw [grounded_cons_iff]
  exact ⟨Int.le_refl 0, ((leftOpen_opening_iff rest).mp ⟨rest, rfl, hrest⟩).mono (by decide)⟩

/-- No expression starts these tokens: they end, close too early, or open for good. -/
def Stuck (tokens : List Token) : Prop :=
  tokens = [] ∨ (∃ after, tokens = .closing :: after) ∨ LeftOpen tokens

/-- Any token list is a sequence of expressions up to where no expression starts. -/
theorem exists_expressions_then_stuck (tokens : List Token) :
    ∃ ds rest, tokens = Derivation.tokensEach ds ++ rest ∧ Stuck rest := by
  -- Both what follows an opening paren and what follows its group are shorter than the whole.
  induction hn : tokens.length using Nat.strongRecOn generalizing tokens with
  | ind n ih =>
    cases tokens with
    | nil => exact ⟨[], [], rfl, .inl rfl⟩
    | cons token rest =>
      rw [List.length_cons] at hn
      obtain ⟨ds, after, hrest, hafter⟩ := ih rest.length (by omega) rest rfl
      cases token with
      | atom text =>
        exact ⟨.word text :: ds, after, by rw [hrest]; rfl, hafter⟩
      | closing => exact ⟨[], .closing :: rest, rfl, .inr (.inl ⟨rest, rfl⟩)⟩
      | opening =>
        have hopen (h : Grounded 0 after) : LeftOpen (.opening :: rest) := by
          obtain ⟨hinner, hzero⟩ := Derivation.grounded_tokensEach ds (Int.le_refl 0)
          rw [leftOpen_opening_iff, hrest, grounded_append_iff, hzero]
          exact ⟨hinner, h⟩
        rcases hafter with rfl | ⟨more, rfl⟩ | hleft
        · exact ⟨[], .opening :: rest, rfl,
            .inr (.inr (hopen ((grounded_nil_iff 0).mpr (Int.le_refl 0))))⟩
        · have hlength := congrArg List.length hrest
          rw [List.length_append, List.length_cons] at hlength
          obtain ⟨es, final, hmore, hfinal⟩ := ih more.length (by omega) more rfl
          refine ⟨.group ds :: es, final, ?_, hfinal⟩
          rw [hrest, hmore]
          simp [Derivation.tokensEach, Derivation.tokens]
        · exact ⟨[], .opening :: rest, rfl, .inr (.inr (hopen hleft.grounded))⟩

end LexicalLisp
