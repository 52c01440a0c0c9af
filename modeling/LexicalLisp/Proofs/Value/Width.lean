import LexicalLisp.Proofs.Value.Words

/-!
# How wide a layout gets

A group is kept on one line if it fits behind its padding. The line it ends up on may have more on
it. In front of the group there may be the opening parens of groups that are broken, one column each
where padding takes two, so these are accounted for. Behind it there may be closing parens of such
groups, and these are not: a line may be too long by as many parens as it closes of earlier lines,
even where breaking one more group would have kept it within the width.

Breaking every group is the narrowest that a layout can be. Where this keeps within the width, no
other line is too long, and without the parens that close groups of earlier lines none is.
-/

namespace LexicalLisp

namespace Shape

mutual

/-- A shape with every group broken that has members. -/
def broken (level : Int) : Shape → String
  | .leaf text => text
  | .group members => stack (level + 1) (brokenEach (level + 1) members)

/-- Each member of a group, with every group within it broken. -/
def brokenEach (level : Int) : List Shape → List String
  | [] => []
  | s :: rest => broken level s :: brokenEach level rest

end

end Shape

/-- Every line is within the width. -/
def Narrow (width : Int) (chars : List Char) : Prop :=
  ∀ line ∈ linesOf chars, line.length ≤ width

/-- Every line is within the width, apart from parens that close what earlier lines opened. -/
def NarrowButForClosing (width : Int) (chars : List Char) : Prop :=
  ∀ line ∈ linesOf chars, line.length ≤ width + (line.count ')' - line.count '(' : Nat)

/-- A text with a line end has the lines before it and those behind it. -/
theorem linesOf_append_newline (xs ys : List Char) :
    linesOf (xs ++ '\n' :: ys) = linesOf xs ++ linesOf ys :=
  List.splitOn_append_cons_self xs ys

/-- A text without line ends is one line. -/
theorem linesOf_eq_singleton {chars : List Char} (h : '\n' ∉ chars) : linesOf chars = [chars] :=
  List.splitOn_eq_singleton h

section

variable {width : Int} {xs ys : List Char}

/-- Lines before and behind a line end are within the width one by one. -/
theorem narrow_append_newline :
    Narrow width (xs ++ '\n' :: ys) ↔ Narrow width xs ∧ Narrow width ys := by
  rw [Narrow, linesOf_append_newline]
  exact List.forall_mem_append

/-- So they are apart from closing parens. -/
theorem narrowButForClosing_append_newline :
    NarrowButForClosing width (xs ++ '\n' :: ys) ↔
      NarrowButForClosing width xs ∧ NarrowButForClosing width ys := by
  rw [NarrowButForClosing, linesOf_append_newline]
  exact List.forall_mem_append

/-- What is within the width is so apart from closing parens. -/
theorem Narrow.butForClosing (h : Narrow width xs) : NarrowButForClosing width xs :=
  fun line hline => Int.le_trans (h line hline) (Int.le_add_of_nonneg_right (Int.natCast_nonneg _))

end

/-- What may stand in front of a shape on its line: padding and opening parens, each of which takes
up no more than its level. -/
structure Lead (level : Int) (chars : List Char) : Prop where
  no_newline : '\n' ∉ chars
  no_closing : ')' ∉ chars
  length_le : (chars.length : Int) + chars.count '(' ≤ 2 * level

namespace Lead

variable {level : Int} {chars : List Char}

/-- One more group is opened. -/
theorem opened (h : Lead level chars) : Lead (level + 1) (chars ++ ['(']) where
  no_newline := by simp [h.no_newline]
  no_closing := by simp [h.no_closing]
  length_le := by
    have hlength := h.length_le
    simp only [List.length_append, List.length_singleton, List.count_append,
      List.count_singleton_self]
    omega

/-- The padding of a line. -/
theorem padding (hlevel : 0 ≤ level) : Lead level (Shape.padding level).toList := by
  rw [Shape.toList_padding]
  refine ⟨by simp [List.mem_replicate], by simp [List.mem_replicate], ?_⟩
  have hcount : (List.replicate (2 * level).toNat ' ').count '(' = 0 :=
    List.count_eq_zero.mpr (by simp [List.mem_replicate])
  rw [List.length_replicate, hcount]
  omega

/-- A group that fits keeps its line within the width, apart from the parens that follow it. -/
theorem narrowButForClosing_of_fits {width : Int} (h : Lead level chars) {line : String}
    (hline : OneLine line.toList) (hfits : Shape.fits width level line = true) (closing : Nat) :
    NarrowButForClosing width (chars ++ line.toList ++ List.replicate closing ')') := by
  have hnewline : '\n' ∉ chars ++ line.toList ++ List.replicate closing ')' := by
    simp [h.no_newline, hline.no_newline, List.mem_replicate]
  rw [NarrowButForClosing, linesOf_eq_singleton hnewline, List.forall_mem_singleton]
  have hwidth : (line.toList.length : Int) + level * 2 ≤ width := of_decide_eq_true hfits
  have hlength := h.length_le
  have hbalanced : (line.toList.count '(' : Int) = line.toList.count ')' :=
    Int.sub_eq_zero.mp hline.balanced
  have hlead : chars.count ')' = 0 := List.count_eq_zero.mpr h.no_closing
  have hopening : (List.replicate closing ')').count '(' = 0 :=
    List.count_eq_zero.mpr (by simp [List.mem_replicate])
  simp only [List.length_append, List.length_replicate, List.count_append,
    List.count_replicate_self, hlead, hopening]
  omega

end Lead

namespace Shape

/-- A broken group behind a lead, with closing parens behind it, has its members behind a longer
lead, with one more closing paren behind them. -/
theorem append_toList_stack (level : Int) {parts : List String} (hne : parts ≠ [])
    (lead : List Char) (closing : Nat) :
    lead ++ (stack level parts).toList ++ List.replicate closing ')' =
      lead ++ ['('] ++ ('\n' :: (padding level).toList).intercalate (parts.map String.toList) ++
        List.replicate (closing + 1) ')' := by
  rw [toList_stack level hne, List.replicate_succ]
  simp

mutual

/-- Where the lines are within the width with every group broken, those of the layout are so apart
from closing parens.

Groups that fit are kept on one line, and the lines of all other groups are those of the broken
shape. The shape may stand behind a lead and in front of closing parens, which are those of the
groups around it. -/
theorem narrow_layout (width : Int) {level : Int} {lead : List Char} (s : Shape) (hs : s.Worded)
    (hlead : Lead level lead) (closing : Nat)
    (h : Narrow width (lead ++ (s.broken level).toList ++ List.replicate closing ')')) :
    NarrowButForClosing width
      (lead ++ (s.layout width level).toList ++ List.replicate closing ')') := by
  match s with
  | .leaf text => exact h.butForClosing
  | .group [] => exact h.butForClosing
  | .group (first :: rest) =>
    rw [layout]
    split
    · rename_i hfits
      exact hlead.narrowButForClosing_of_fits (oneLine_flat _ hs) hfits closing
    · have hbroken : brokenEach (level + 1) (first :: rest) ≠ [] := List.cons_ne_nil _ _
      have hlayout : layoutEach width (level + 1) (first :: rest) ≠ [] := List.cons_ne_nil _ _
      rw [broken, append_toList_stack _ hbroken] at h
      rw [append_toList_stack _ hlayout]
      exact narrow_layoutEach width (first :: rest) (List.cons_ne_nil _ _) hs hlead.opened
        (closing + 1) h

/-- So it is with the members of a group, each but the first behind padding of its own. -/
theorem narrow_layoutEach (width : Int) {level : Int} {lead : List Char} (members : List Shape)
    (hne : members ≠ []) (hs : WordedEach members) (hlead : Lead level lead) (closing : Nat)
    (h : Narrow width (lead ++ ('\n' :: (padding level).toList).intercalate
      ((brokenEach level members).map String.toList) ++ List.replicate closing ')')) :
    NarrowButForClosing width (lead ++ ('\n' :: (padding level).toList).intercalate
      ((layoutEach width level members).map String.toList) ++ List.replicate closing ')') := by
  match members with
  | [s] =>
    simp only [brokenEach, layoutEach, List.map_cons, List.map_nil, List.intercalate_singleton]
      at h ⊢
    exact narrow_layout width s hs.1 hlead closing h
  | s :: next :: rest =>
    have hlevel : 0 ≤ level := by
      have hlength := hlead.length_le
      omega
    rw [brokenEach, brokenEach, List.map_cons, List.map_cons, List.intercalate_cons_cons,
      ← List.map_cons, ← brokenEach] at h
    rw [layoutEach, layoutEach, List.map_cons, List.map_cons, List.intercalate_cons_cons,
      ← List.map_cons, ← layoutEach]
    simp only [List.append_assoc, List.cons_append] at h ⊢
    rw [← List.append_assoc lead, narrow_append_newline] at h
    rw [← List.append_assoc lead, narrowButForClosing_append_newline]
    constructor
    · have hfirst := narrow_layout width s hs.1 hlead 0
      simp only [List.replicate_zero, List.append_nil] at hfirst
      exact hfirst h.1
    · have hothers := narrow_layoutEach width (next :: rest) (List.cons_ne_nil _ _) hs.2
        (Lead.padding hlevel) closing
      simp only [List.append_assoc] at hothers
      exact hothers h.2

end

end Shape

/-- Where a layout could be within the width, every line of it is so apart from closing parens.

If all lines are within the width once every list with items is broken, each line of the layout
takes up no more than the width once the parens at its end are left out that close lists of earlier
lines. -/
theorem Value.pretty_within_width_but_for_closing (v : Value) (hnative : v.isNative = true)
    (hlegible : v.Legible) (width : Int)
    (hbroken : ∀ line ∈ linesOf (v.shape.broken 0).toList, line.length ≤ width) :
    ∀ line ∈ linesOf (v.pretty 0 width).toList,
      line.length ≤ width + (line.count ')' - line.count '(' : Nat) := by
  have hlead : Lead 0 [] := ⟨List.not_mem_nil, List.not_mem_nil, by decide⟩
  have hlines := Shape.narrow_layout width v.shape (v.worded_shape hnative hlegible) hlead 0
  simp only [List.nil_append, List.replicate_zero, List.append_nil] at hlines
  exact hlines hbroken

/-- Eight columns at a width of seven: one is the paren that closes the list of the line before. -/
theorem Value.pretty_within_width_but_for_closing_nested :
    let v := Value.list [.symbol "x", .list [.symbol "a", .symbol "b"]]
    linesOf (v.pretty 0 7).toList = ["(x".toList, "  (a b))".toList] ∧
      ("  (a b))".toList.length : Int) ≤
        7 + ("  (a b))".toList.count ')' - "  (a b))".toList.count '(' : Nat) := by
  intro v
  have hlines : linesOf (v.pretty 0 7).toList = ["(x".toList, "  (a b))".toList] := by decide
  refine ⟨hlines, v.pretty_within_width_but_for_closing (by decide) (by decide) 7 (by decide) _ ?_⟩
  rw [hlines]
  decide

/-- Closing parens may lead beyond the width where breaking every list would keep within it. -/
theorem Value.closing_parens_beyond_width :
    let v := Value.list [.symbol "x", .list [.symbol "a", .symbol "b"]]
    v.isNative = true ∧ v.Legible ∧
      (∀ line ∈ linesOf (v.shape.broken 0).toList, line.length ≤ 7) ∧
      ∃ line ∈ linesOf (v.pretty 0 7).toList, 7 < line.length := by
  decide

end LexicalLisp
