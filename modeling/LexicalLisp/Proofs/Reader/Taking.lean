import LexicalLisp.Proofs.Reader.Balance

/-!
# Taking expressions off a list, and moving a cursor over it

There are two ways to read tokens one expression at a time. One takes each expression off the front
of a list that gets shorter, and starts anew on what is left. The other leaves the list as it is and
moves a cursor. Reading looks at the remaining tokens only, so both come by the same expressions,
and stop for the same reason after the same number of them. Reading everything in one go agrees
with both.

A fault removes nothing from the list, whereas the cursor is left where the fault was found.
-/

namespace LexicalLisp

/-- An expression that is read has at least one token, and the tokens behind it are left. -/
theorem exists_front_of_readOne {tokens rest : List Token} {v : Value}
    (h : readOne tokens = .value v rest) : ∃ front, front ≠ [] ∧ tokens = front ++ rest := by
  rcases exists_expression_or_stuck tokens with ⟨d, after, hd⟩ | hnil | ⟨after, hd⟩ | hopen
  · rw [hd, readOne_tokens_append] at h
    obtain ⟨-, rfl⟩ := Reading.value.inj h
    refine ⟨d.tokens, ?_, hd⟩
    cases d <;> simp [Derivation.tokens]
  · rw [hnil] at h
    cases h
  · rw [hd] at h
    cases h
  · rw [readOne_of_leftOpen hopen] at h
    cases h

/-- What is left behind an expression is shorter. -/
theorem length_lt_of_readOne {tokens rest : List Token} {v : Value}
    (h : readOne tokens = .value v rest) : rest.length < tokens.length := by
  obtain ⟨front, hne, rfl⟩ := exists_front_of_readOne h
  have hpos := List.length_pos_iff.mpr hne
  rw [List.length_append]
  omega

/-- An expression is taken off the list when it is read. -/
theorem readOne_of_takeExpression {tokens rest : List Token} {v : Value}
    (h : takeExpression tokens = (.ok v, rest)) : readOne tokens = .value v rest := by
  rw [takeExpression] at h
  split at h
  · rename_i hread
    obtain ⟨hv, rfl⟩ := Prod.mk.inj h
    rw [hread, Except.ok.inj hv]
  · cases h

/-- Take expressions off the front of a list until it is empty or one cannot be read. -/
def takeEach (tokens : List Token) : Drained :=
  if tokens.isEmpty then ⟨[], none, []⟩
  else
    match _htake : takeExpression tokens with
    | (.ok v, rest) =>
      let others := takeEach rest
      { others with values := v :: others.values }
    | (.error fault, left) => ⟨[], some fault, left⟩
termination_by tokens.length
decreasing_by exact length_lt_of_readOne (readOne_of_takeExpression _htake)

/-- There is nothing to take off an empty list. -/
theorem takeEach_nil : takeEach [] = ⟨[], none, []⟩ := by
  rw [takeEach]
  rfl

/-- The first expression is taken off, then those behind it. -/
theorem takeEach_of_value {tokens rest : List Token} {v : Value}
    (h : readOne tokens = .value v rest) :
    takeEach tokens = { takeEach rest with values := v :: (takeEach rest).values } := by
  have hne : tokens.isEmpty = false := by
    cases tokens with
    | nil => cases h
    | cons => rfl
  have htake : takeExpression tokens = (.ok v, rest) := by rw [takeExpression, h]
  rw [takeEach, hne]
  simp only [Bool.false_eq_true, if_false]
  split
  · rename_i hother
    obtain ⟨hv, rfl⟩ := Prod.mk.inj (htake.symm.trans hother)
    cases hv
    rfl
  · rename_i hother
    cases htake.symm.trans hother

/-- A fault ends the taking, and the list stays as it was before it. -/
theorem takeEach_of_failed {tokens rest : List Token} {fault : ReadFault}
    (hne : tokens ≠ []) (h : readOne tokens = .failed fault rest) :
    takeEach tokens = ⟨[], some fault, tokens⟩ := by
  have htake : takeExpression tokens = (.error fault, tokens) := by rw [takeExpression, h]
  have hempty : tokens.isEmpty = false := by simpa using hne
  rw [takeEach, hempty]
  simp only [Bool.false_eq_true, if_false]
  split
  · rename_i hother
    cases htake.symm.trans hother
  · rename_i hother
    obtain ⟨hfault, rfl⟩ := Prod.mk.inj (htake.symm.trans hother)
    cases hfault
    rfl

/-- Reading everything in one go comes by the expressions that can be taken off one by one, after
those that are finished, and stops for the same reason. -/
theorem Reader.drain_eq_takeEach (finished : List Value) (tokens : List Token) :
    (Reader.drain ⟨finished, []⟩ tokens).values =
        finished.reverse ++ (takeEach tokens).values ∧
      (Reader.drain ⟨finished, []⟩ tokens).fault = (takeEach tokens).fault := by
  induction hn : tokens.length using Nat.strongRecOn generalizing tokens finished with
  | ind n ih =>
    by_cases hne : tokens = []
    · rw [hne, takeEach_nil]
      simp [Reader.drain]
    · rw [Reader.drain_eq_readOne finished hne]
      cases hread : readOne tokens with
      | value v rest =>
        have hshorter := length_lt_of_readOne hread
        obtain ⟨hvalues, hfault⟩ := ih rest.length (hn ▸ hshorter) (v :: finished) rest rfl
        rw [takeEach_of_value hread]
        exact ⟨by simp [hvalues], hfault⟩
      | failed fault rest =>
        rw [takeEach_of_failed hne hread]
        simp

/-- Reading everything comes by what can be taken off one by one. -/
theorem drainTokens_eq_takeEach (tokens : List Token) :
    (drainTokens tokens).values = (takeEach tokens).values ∧
      (drainTokens tokens).fault = (takeEach tokens).fault :=
  Reader.drain_eq_takeEach [] tokens

namespace Cursor

/-- A cursor that moves to the tokens behind a start of the remaining ones has these before it. -/
theorem remaining_seek (c : Cursor) {front rest : List Token} (h : c.remaining = front ++ rest)
    (hne : front ≠ []) : (c.seek rest).remaining = rest := by
  have hwhole : front ++ rest ≠ [] := by simp [hne]
  rw [c.seek_of_remaining front rest h hwhole, remaining, ← List.drop_drop]
  change c.remaining.drop front.length = rest
  rw [h, List.drop_left]

/-- An expression at a cursor is the one that starts the remaining tokens, and the cursor moves
behind it. -/
theorem readOne_eq_ok {c c' : Cursor} {v : Value} (h : c.readOne = (.ok v, c')) :
    LexicalLisp.readOne c.remaining = .value v c'.remaining := by
  unfold readOne at h
  split at h
  · rename_i w rest hread
    obtain ⟨hv, rfl⟩ := Prod.mk.inj h
    obtain ⟨front, hne, hfront⟩ := exists_front_of_readOne hread
    rw [hread, c.remaining_seek hfront hne, Except.ok.inj hv]
  · cases h

/-- A fault at a cursor is that of the remaining tokens. -/
theorem readOne_eq_error {c c' : Cursor} {fault : ReadFault} (h : c.readOne = (.error fault, c')) :
    ∃ rest, LexicalLisp.readOne c.remaining = .failed fault rest := by
  unfold readOne at h
  split at h
  · cases h
  · rename_i rest hread
    exact ⟨rest, by rw [hread, Except.error.inj (Prod.mk.inj h).1]⟩

/-- What a cursor yields: expressions, the fault that ends them if one does, and the cursor as it
is left. -/
structure Yield where
  values : List Value
  fault : Option ReadFault
  cursor : Cursor

/-- Read expressions at a cursor one by one until it is at the end or one cannot be read. -/
def yieldEach (c : Cursor) : Yield :=
  if c.atEnd then ⟨[], none, c⟩
  else
    match _hread : c.readOne with
    | (.ok v, c') =>
      let others := c'.yieldEach
      { others with values := v :: others.values }
    | (.error fault, c') => ⟨[], some fault, c'⟩
termination_by c.remaining.length
decreasing_by exact length_lt_of_readOne (readOne_eq_ok _hread)

/-- A cursor yields what can be taken off the remaining tokens one by one. -/
theorem yieldEach_eq_takeEach (c : Cursor) :
    c.yieldEach.values = (takeEach c.remaining).values ∧
      c.yieldEach.fault = (takeEach c.remaining).fault := by
  fun_induction yieldEach c with
  | case1 c hend =>
    rw [atEnd, List.isEmpty_iff] at hend
    rw [hend, takeEach_nil]
    exact ⟨rfl, rfl⟩
  | case2 c _ v c' hread others ih =>
    rw [takeEach_of_value (readOne_eq_ok hread)]
    exact ⟨congrArg (v :: ·) ih.1, ih.2⟩
  | case3 c hend fault c' hread =>
    have hne : c.remaining ≠ [] := by simpa [atEnd] using hend
    obtain ⟨rest, hfailed⟩ := readOne_eq_error hread
    rw [takeEach_of_failed hne hfailed]
    exact ⟨rfl, rfl⟩

/-- A cursor at the start of a list passes the tokens that are taken off when an expression is. -/
theorem readOne_at_start {tokens rest : List Token} {v : Value}
    (h : LexicalLisp.readOne tokens = .value v rest) :
    ∃ n, 0 < n ∧ n ≤ tokens.length ∧ rest = tokens.drop n ∧
      (Cursor.mk tokens 0).readOne = (.ok v, ⟨tokens, n⟩) := by
  obtain ⟨front, hne, hfront⟩ := exists_front_of_readOne h
  have hwhole : front ++ rest ≠ [] := by simp [hne]
  have hseek := (Cursor.mk tokens 0).seek_of_remaining front rest hfront hwhole
  refine ⟨front.length, List.length_pos_iff.mpr hne, ?_, ?_, ?_⟩
  · rw [hfront, List.length_append]
    exact Nat.le_add_right _ _
  · rw [hfront, List.drop_left]
  · have hread : LexicalLisp.readOne (Cursor.mk tokens 0).remaining = .value v rest := h
    rw [Nat.zero_add] at hseek
    rw [readOne, hread]
    exact congrArg (Prod.mk _) hseek

end Cursor

/-- Taking expressions off a list of token texts reads what a cursor over the list reads.

A call that fails leaves the texts as they are, and the cursor fails for the same reason. A call
that succeeds takes off the texts that the cursor passes, of which there is at least one, and leaves
the others in order. Taking off until nothing is left comes by the expressions that the cursor
yields over the original list, as many and in the same order, and ends with the same fault or with
none; reading everything in one go answers accordingly. -/
theorem taking_reads_like_cursor (texts : List String) :
    let tokens := texts.map Token.ofText
    let start := Cursor.mk tokens 0
    (match takeExpression tokens with
      | (.error fault, left) => left.map Token.text = texts ∧ start.readOne.1 = .error fault
      | (.ok v, left) => ∃ n, 0 < n ∧ n ≤ texts.length ∧ left.map Token.text = texts.drop n ∧
          start.readOne = (.ok v, ⟨tokens, n⟩)) ∧
      (takeEach tokens).values = start.yieldEach.values ∧
      (takeEach tokens).fault = start.yieldEach.fault ∧
      start.readAll.1 =
        (match (takeEach tokens).fault with
          | none => .ok (takeEach tokens).values
          | some fault => .error fault) := by
  intro tokens start
  have hspelled : tokens.map Token.text = texts := by
    simp [tokens, Function.comp_def, Token.text_ofText]
  obtain ⟨hvalues, hfault⟩ := start.yieldEach_eq_takeEach
  refine ⟨?_, hvalues.symm, hfault.symm, ?_⟩
  · cases hread : readOne tokens with
    | value v rest =>
      obtain ⟨n, hpos, hle, hrest, hcursor⟩ := Cursor.readOne_at_start hread
      rw [takeExpression, hread]
      refine ⟨n, hpos, ?_, ?_, hcursor⟩
      · rwa [← hspelled, List.length_map]
      · rw [hrest, List.map_drop, hspelled]
    | failed fault rest =>
      have hcursor : LexicalLisp.readOne start.remaining = .failed fault rest := hread
      rw [takeExpression, hread]
      exact ⟨hspelled, by rw [Cursor.readOne, hcursor]⟩
  · obtain ⟨hvalues, hfault⟩ := drainTokens_eq_takeEach tokens
    have hremaining : drainTokens start.remaining = drainTokens tokens := rfl
    rw [Cursor.readAll, hremaining, ← hvalues, ← hfault]
    cases (drainTokens tokens).fault <;> rfl

end LexicalLisp
