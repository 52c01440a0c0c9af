import LexicalLisp.Proofs.Console.Agreement

/-!
# Texts one after the other

Two texts on lines of their own are read like each of them, one after the other: no token reaches
across the line end, and what can be read closes all that it opens. Evaluating the two as one text
is therefore evaluating the first and, unless that fails, the second from the state it left.

The whole of a text is read before any of it is evaluated. A fault in the second text is a fault of
the two as one text, whatever the first holds, and then none of it is evaluated.
-/

namespace LexicalLisp

/-- A line end keeps the tokens of two texts apart. -/
theorem tokenize_append_newline_append (front back : String) :
    tokenize (front ++ "\n" ++ back) = tokenize front ++ tokenize back :=
  tokenize_append_blanks_append front back (by decide) (by decide)

/-- The expressions of two texts on lines of their own follow one another. -/
theorem readAll_append_of_ok {front back : String} {xs ys : List Value}
    (hfront : readAll front = .ok xs) (hback : readAll back = .ok ys) :
    readAll (front ++ "\n" ++ back) = .ok (xs ++ ys) := by
  obtain ⟨ds, hds, rfl⟩ := (readAll_eq_ok_iff front xs).mp hfront
  obtain ⟨es, hes, rfl⟩ := (readAll_eq_ok_iff back ys).mp hback
  apply (readAll_eq_ok_iff _ _).mpr
  refine ⟨ds ++ es, ?_, (Derivation.valueEach_append ds es).symm⟩
  rw [tokenize_append_newline_append, hds, hes, Derivation.tokensEach_append]

/-- A fault is found behind any text that can be read. -/
theorem readAll_append_of_error {front back : String} {xs : List Value} {fault : ReadFault}
    (hfront : readAll front = .ok xs) (hback : readAll back = .error fault) :
    readAll (front ++ "\n" ++ back) = .error fault := by
  -- A text that can be read opens as much as it closes, so the count behind it starts anew.
  obtain ⟨hgrounded, hzero⟩ := (readAll_succeeds_iff front).mp ⟨xs, hfront⟩
  have hjoined : Grounded 0 (tokenize (front ++ "\n" ++ back)) ↔ Grounded 0 (tokenize back) := by
    rw [tokenize_append_newline_append, grounded_append_iff, hzero]
    exact and_iff_right hgrounded
  have hbalance : balance (tokenize (front ++ "\n" ++ back)) = balance (tokenize back) := by
    rw [tokenize_append_newline_append, balance_append, hzero, Int.zero_add]
  cases fault with
  | unexpectedClose =>
    rw [readAll_eq_unexpectedClose_iff] at hback ⊢
    rwa [hjoined]
  | unexpectedEnd =>
    rw [readAll_eq_unexpectedEnd_iff] at hback ⊢
    rwa [hjoined, hbalance]

/-- A text with expressions is evaluated expression by expression. -/
theorem evaluateText_of_readAll (limit : Nat) (root : FrameId) {source : String} {x : Value}
    {xs : List Value} (h : readAll source = .ok (x :: xs)) (last : Value) :
    evaluateText limit root source = evaluateSequence limit root last (x :: xs) := by
  rw [evaluateText, h]
  rfl

/-- Two texts as one are evaluated like the first and then the second. -/
theorem evaluateText_append (limit : Nat) (root : FrameId) {front back : String} {x y : Value}
    {xs ys : List Value} (hfront : readAll front = .ok (x :: xs))
    (hback : readAll back = .ok (y :: ys)) :
    evaluateText limit root (front ++ "\n" ++ back) =
      evaluateText limit root front >>= fun _ => evaluateText limit root back := by
  have hwhole : readAll (front ++ "\n" ++ back) = .ok (x :: (xs ++ y :: ys)) :=
    readAll_append_of_ok hfront hback
  calc evaluateText limit root (front ++ "\n" ++ back)
    _ = evaluateSequence limit root x (x :: xs ++ y :: ys) :=
        evaluateText_of_readAll limit root hwhole x
    _ = evaluateSequence limit root x (x :: xs) >>= fun value =>
          evaluateSequence limit root value (y :: ys) :=
        evaluateSequence_append limit root x (x :: xs) (y :: ys)
    _ = evaluateText limit root front >>= fun _ => evaluateText limit root back := by
        rw [evaluateText_of_readAll limit root hfront x]
        congr 1
        funext value
        exact (evaluateText_of_readAll limit root hback value).symm

/-- Texts are evaluated one after the other, and a text that cannot be read is not evaluated at all.

Two texts with expressions, put on lines of their own, come to what the first comes to, or to what
the second comes to after it, in value or error, frames and events. A text that cannot be read is
refused with an error about its syntax in the state it was met in, also where it is to be loaded.
Expressions in front of the fault, however many, make no difference. -/
theorem joined_texts_in_turn (limit : Nat) (root : FrameId) (s : State) :
    (∀ front back x xs y ys, readAll front = .ok (x :: xs) → readAll back = .ok (y :: ys) →
      evaluateText limit root (front ++ "\n" ++ back) s =
        match evaluateText limit root front s with
        | (.ok _, t) => evaluateText limit root back t
        | (.error d, t) => (.error d, t)
        | (.tooDeep, t) => (.tooDeep, t)) ∧
    (∀ text fault, readAll text = .error fault →
      evaluateText limit root text s = (.error (.unreadable fault), s) ∧
      loadText limit root text s = (.error (.unreadable fault), s) ∧
      (Error.unreadable fault).kind.label = "EtoileSyntaxError") ∧
    ∀ front back xs fault, readAll front = .ok xs → readAll back = .error fault →
      readAll (front ++ "\n" ++ back) = .error fault := by
  refine ⟨?_, ?_, ?_⟩
  · intro front back x xs y ys hfront hback
    rw [evaluateText_append limit root hfront hback]
    rcases hresult : evaluateText limit root front s with ⟨v | d | _, t⟩
    · exact Eval.bind_of_ok hresult _
    · exact Eval.bind_of_error hresult _
    · exact Eval.bind_of_tooDeep hresult _
  · intro text fault h
    rw [evaluateText, loadText, h]
    exact ⟨rfl, rfl, rfl⟩
  · intro front back xs fault hfront hback
    exact readAll_append_of_error hfront hback

/-- A definition and a text that uses it, joined, come to what the second comes to after the first;
with a stray paren behind them, the definition is not made. -/
theorem joined_texts_in_turn_define :
    let s : State := { store := ⟨#[⟨none, [("a", .boolean true)]⟩], 0⟩ }
    let t : State := { store := ⟨#[⟨none, [("a", .boolean true), ("b", .boolean true)]⟩], 0⟩ }
    readAll "(define b a)" = .ok [.list [.symbol "define", .symbol "b", .symbol "a"]] ∧
      readAll "b" = .ok [.symbol "b"] ∧ readAll "b)" = .error .unexpectedClose ∧
      evaluateText 2 0 ("(define b a)" ++ "\n" ++ "b") s = (.ok (.boolean true), t) ∧
      evaluateText 2 0 ("(define b a)" ++ "\n" ++ "b)") s =
        (.error (.unreadable .unexpectedClose), s) := by
  intro s t
  have hfront : readAll "(define b a)" =
      .ok [.list [.symbol "define", .symbol "b", .symbol "a"]] := rfl
  have hback : readAll "b" = .ok [.symbol "b"] := rfl
  have hfault : readAll "b)" = .error .unexpectedClose := rfl
  have hfirst : evaluateText 2 0 "(define b a)" s = (.ok (.boolean true), t) := by
    rw [evaluateText, hfront]
    rfl
  have hsecond : evaluateText 2 0 "b" t = (.ok (.boolean true), t) := by
    rw [evaluateText, hback]
    rfl
  obtain ⟨hjoined, hrefused, hbehind⟩ := joined_texts_in_turn 2 0 s
  refine ⟨hfront, hback, hfault, ?_, ?_⟩
  · rw [hjoined _ _ _ _ _ _ hfront hback, hfirst]
    exact hsecond
  · exact (hrefused _ _ (hbehind _ _ _ _ hfront hfault)).1

end LexicalLisp
