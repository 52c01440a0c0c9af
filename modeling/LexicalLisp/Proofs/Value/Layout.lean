import LexicalLisp.Proofs.Value.ReadBack

/-!
# Broken lines and what is read from them

Fitting a value into a width changes where its text is broken, and nothing else. A broken group has
the opening paren, the members and the closing paren of the flat text, with a line end and padding
where the flat text has a single blank. Since no token reaches across a blank or a paren, the tokens
are those of the flat text, whatever the width, the level and the text of the leaves.

The leaves may hold anything, blanks and parens included. Such a leaf is not read back as it was,
but the flat and the broken text are misread alike.
-/

namespace LexicalLisp

namespace Shape

/-- A line end and padding is blank, also where there is nothing to pad. -/
theorem isBlankText_lineBreak (level : Int) : isBlankText ("\n" ++ padding level) = true := by
  have hpadding : (List.replicate (2 * level).toNat ' ').all isBlank = true := by
    apply List.all_eq_true.mpr
    intro c hc
    obtain rfl := List.eq_of_mem_replicate hc
    decide
  rw [isBlankText, padding, String.toList_append, String.toList_ofList (l := List.replicate _ _),
    List.all_append, hpadding]
  decide

/-- Stacked members keep their tokens, between those of the parens. -/
theorem tokenize_stack (level : Int) (parts : List String) :
    tokenize (stack level parts) = .opening :: (parts.flatMap tokenize ++ [.closing]) := by
  cases parts with
  | nil =>
    rw [stack]
    decide
  | cons first rest =>
    have hne : "\n" ++ padding level ≠ "" := by simp
    rw [stack, tokenize_parenthesized, tokenize_intercalate hne (isBlankText_lineBreak level)]

mutual

/-- A shape that is fitted into a width has the tokens of its flat text. -/
theorem tokenize_layout (width level : Int) (s : Shape) :
    tokenize (s.layout width level) = tokenize s.flat := by
  match s with
  | .leaf text => rfl
  | .group members =>
    rw [layout]
    split
    · rfl
    · rw [tokenize_stack, flatMap_tokenize_layoutEach, tokenize_flat_group]

/-- So do the members of a broken group. -/
theorem flatMap_tokenize_layoutEach (width level : Int) (members : List Shape) :
    (layoutEach width level members).flatMap tokenize = (flatEach members).flatMap tokenize := by
  match members with
  | [] => rfl
  | s :: rest =>
    rw [layoutEach, flatEach, List.flatMap_cons, List.flatMap_cons, tokenize_layout,
      flatMap_tokenize_layoutEach]

end

end Shape

/-- Breaking the text of a value over lines changes neither its tokens nor what is read from it.

The value may hold closures and symbols of any name, at any depth. The level and the width may be
any integers, so that everything is broken, or nothing, or the padding is missing. -/
theorem Value.pretty_reads_like_render (v : Value) (level width : Int) :
    tokenize (v.pretty level width) = tokenize v.render ∧
      readAll (v.pretty level width) = readAll v.render := by
  have htokens : tokenize (v.pretty level width) = tokenize v.render :=
    v.shape.tokenize_layout width level
  refine ⟨htokens, ?_⟩
  rw [readAll, readAll, htokens]

end LexicalLisp
