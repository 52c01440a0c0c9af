import LexicalLisp.Proofs.Value.Words

/-!
# Indentation shows nesting

The layout pads a line by the level at which it breaks a group, while a reader counts the parens
that are open when the line starts. The two agree at every line end of the text, also where the head
of a broken group is broken itself, where several groups are closed at once, and where a closure is
laid out as the lambda form it came from.

What is said of a text is said of its line ends, one at a time: each is followed by padding for the
parens open before it, and then by a character that is not blank. Texts after one another keep this,
if the second is indented for the parens that the first leaves open.
-/

namespace LexicalLisp

/-- A text that starts with a given number of blanks and then a character that is not blank. -/
def StartsAt (column : Int) (chars : List Char) : Prop :=
  ∃ c rest, isBlank c = false ∧ chars = List.replicate column.toNat ' ' ++ c :: rest

/-- What follows does not change where a text starts. -/
theorem StartsAt.append {column : Int} {chars : List Char} (h : StartsAt column chars)
    (after : List Char) : StartsAt column (chars ++ after) := by
  obtain ⟨c, rest, hc, rfl⟩ := h
  exact ⟨c, rest ++ after, hc, by rw [List.append_assoc, List.cons_append]⟩

/-- Each line end is followed by two blanks for each level and for each paren open before it, of
which there are at least so many. -/
def Indented (level least : Int) (chars : List Char) : Prop :=
  ∀ before after, chars = before ++ '\n' :: after →
    least ≤ openParens before ∧ StartsAt (2 * (level + openParens before)) after

namespace Indented

variable {level least : Int} {xs ys : List Char}

/-- A single line is indented in any way. -/
theorem of_no_newline (h : '\n' ∉ xs) : Indented level least xs := by
  rintro before after rfl
  simp at h

/-- A text after another one is indented for the parens that the other leaves open. -/
theorem append (hxs : Indented level least xs)
    (hys : Indented (level + openParens xs) (least - openParens xs) ys) :
    Indented level least (xs ++ ys) := by
  intro before after hcut
  rcases List.append_eq_append_iff.mp hcut with ⟨mid, rfl, hmid⟩ | ⟨mid, rfl, hmid⟩
  · -- The line end is within the second text.
    obtain ⟨hleast, hstarts⟩ := hys mid after hmid
    rw [openParens_append, ← Int.add_assoc]
    exact ⟨by omega, hstarts⟩
  · cases mid with
    | nil =>
      obtain ⟨hleast, hstarts⟩ := hys [] after hmid.symm
      rw [openParens_nil] at hleast hstarts
      rw [List.append_nil] at hleast
      rw [List.append_nil, Int.add_zero] at hstarts
      exact ⟨by omega, hstarts⟩
    | cons c rest =>
      -- The line end is within the first text, and the second is behind it.
      obtain ⟨rfl, rfl⟩ := List.cons.inj hmid
      obtain ⟨hleast, hstarts⟩ := hxs before rest rfl
      exact ⟨hleast, hstarts.append ys⟩

/-- A line end in front asks for padding by the level alone. -/
theorem newline (hleast : least ≤ 0) (hstarts : StartsAt (2 * level) xs)
    (hxs : Indented level least xs) : Indented level least ('\n' :: xs) := by
  intro before after hcut
  cases before with
  | nil =>
    obtain ⟨-, rfl⟩ := List.cons.inj hcut
    rw [openParens_nil, Int.add_zero]
    exact ⟨hleast, hstarts⟩
  | cons c before =>
    obtain ⟨rfl, hrest⟩ := List.cons.inj hcut
    rw [openParens_newline]
    exact hxs before after hrest

/-- Fewer open parens may be asked for. -/
theorem mono {fewer : Int} (h : Indented level least xs) (hle : fewer ≤ least) :
    Indented level fewer xs :=
  fun before after hcut => (h before after hcut).imp_left (Int.le_trans hle)

end Indented

/-- A text that closes what it opens, starts with a character that is not blank, and is indented
throughout for its level. -/
structure Block (level least : Int) (chars : List Char) : Prop where
  balanced : openParens chars = 0
  starts : StartsAt 0 chars
  indented : Indented level least chars

namespace Block

variable {level : Int}

/-- A text on one line is a block if it does not start with a blank. -/
theorem of_oneLine {least : Int} {chars : List Char} (h : OneLine chars)
    (hstarts : StartsAt 0 chars) : Block level least chars :=
  ⟨h.balanced, hstarts, .of_no_newline h.no_newline⟩

/-- Members on lines of their own, each line padded to the level, make up a block. -/
theorem stacked {parts : List (List Char)} (hne : parts ≠ [])
    (h : ∀ part ∈ parts, Block level 1 part) :
    Block level 0 (('\n' :: (Shape.padding level).toList).intercalate parts) := by
  match parts, h with
  | [part], h =>
    obtain ⟨hbalanced, hstarts, hindented⟩ := h part List.mem_cons_self
    rw [List.intercalate_singleton]
    exact ⟨hbalanced, hstarts, hindented.mono (by decide)⟩
  | part :: next :: rest, h =>
    obtain ⟨hpart, hothers⟩ := List.forall_mem_cons.mp h
    have hrest := stacked (List.cons_ne_nil next rest) hothers
    rw [List.intercalate_cons_cons, List.append_assoc, List.cons_append]
    generalize ('\n' :: (Shape.padding level).toList).intercalate (next :: rest) = others at hrest ⊢
    have hpadding : OneLine (Shape.padding level).toList := by
      rw [Shape.toList_padding]
      exact ⟨by simp [List.mem_replicate], openParens_eq_zero (by simp [List.mem_replicate])
        (by simp [List.mem_replicate])⟩
    have hpadded : StartsAt (2 * level) ((Shape.padding level).toList ++ others) := by
      obtain ⟨c, tail, hc, rfl⟩ := hrest.starts
      exact ⟨c, tail, hc, by rw [Shape.toList_padding]; rfl⟩
    have hbehind : Indented level 0 ((Shape.padding level).toList ++ others) := by
      refine .append (.of_no_newline hpadding.no_newline) ?_
      rw [hpadding.balanced, Int.add_zero, Int.sub_zero]
      exact hrest.indented
    refine ⟨?_, hpart.starts.append _, ?_⟩
    · rw [openParens_append, openParens_newline, openParens_append, hpart.balanced,
        hpadding.balanced, hrest.balanced]
      rfl
    · refine (hpart.indented.mono (by decide)).append ?_
      rw [hpart.balanced, Int.add_zero, Int.sub_zero]
      exact .newline (Int.le_refl 0) hpadded hbehind

/-- Parens around a block make up a block of the level outside. -/
theorem parenthesized {chars : List Char} (h : Block (level + 1) 0 chars) :
    Block level 1 (['('] ++ chars ++ [')']) where
  balanced := by
    rw [openParens_append, openParens_append, h.balanced]
    rfl
  starts := ⟨'(', chars ++ [')'], by decide, rfl⟩
  indented := by
    rw [List.append_assoc]
    refine .append (.of_no_newline (by decide)) ?_
    rw [show openParens ['('] = 1 from rfl, Int.sub_self]
    exact h.indented.append (.of_no_newline (by decide))

end Block

namespace Shape

/-- The flat text of a shape made of words does not start with a blank. -/
theorem startsAt_flat {s : Shape} (h : s.Worded) : StartsAt 0 s.flat.toList := by
  cases s with
  | leaf text =>
    obtain ⟨c, rest, htext⟩ := List.exists_cons_of_ne_nil (IsWord.ne_nil h)
    have hc : isDelimiter c = false := h.undelimited c (by rw [htext]; exact List.mem_cons_self)
    exact ⟨c, rest, (Bool.or_eq_false_iff.mp hc).1, htext⟩
  | group members =>
    rw [toList_flat_group]
    exact ⟨'(', _, by decide, rfl⟩

mutual

/-- The layout of a shape made of words is a block. -/
theorem block_layout (width level : Int) (s : Shape) (h : s.Worded) :
    Block level 1 (s.layout width level).toList := by
  match s with
  | .leaf text => exact .of_oneLine (oneLine_flat (.leaf text) h) (startsAt_flat h)
  | .group [] => exact .of_oneLine (oneLine_flat (.group []) h) (startsAt_flat h)
  | .group (first :: rest) =>
    rw [layout]
    split
    · exact .of_oneLine (oneLine_flat _ h) (startsAt_flat h)
    · have hne : layoutEach width (level + 1) (first :: rest) ≠ [] := List.cons_ne_nil _ _
      rw [toList_stack _ hne]
      exact (Block.stacked (List.cons_ne_nil _ _)
        (block_layoutEach width (level + 1) (first :: rest) h)).parenthesized

/-- So are the layouts of members. -/
theorem block_layoutEach (width level : Int) (members : List Shape) (h : WordedEach members) :
    ∀ part ∈ (layoutEach width level members).map String.toList, Block level 1 part := by
  match members with
  | [] => exact nofun
  | s :: rest =>
    exact List.forall_mem_cons.mpr
      ⟨block_layout width level s h.1, block_layoutEach width level rest h.2⟩

end

end Shape

/-- The lines of a text before one of them end in a line end, behind which the line starts. -/
theorem exists_cut_of_lines {first : List (List Char)} (hne : first ≠ []) (line : List Char)
    (later : List (List Char)) :
    ∃ before, ['\n'].intercalate (first ++ line :: later) =
        before ++ '\n' :: ['\n'].intercalate (line :: later) ∧
      openParens before = openParens first.flatten := by
  match first with
  | [only] =>
    refine ⟨only, ?_, by simp⟩
    rw [List.singleton_append, List.intercalate_cons_cons, List.append_assoc, List.singleton_append]
  | front :: next :: rest =>
    obtain ⟨before, hcut, hopen⟩ := exists_cut_of_lines (List.cons_ne_nil next rest) line later
    refine ⟨front ++ '\n' :: before, ?_, ?_⟩
    · rw [List.cons_append, List.cons_append, List.intercalate_cons_cons, ← List.cons_append, hcut]
      simp
    · rw [List.flatten_cons, openParens_append, openParens_append, openParens_newline, hopen]

/-- A line starts where the text behind the line end before it starts. -/
theorem startsAt_of_lines {column : Int} {line : List Char} {later : List (List Char)}
    (h : StartsAt column (['\n'].intercalate (line :: later))) : StartsAt column line := by
  obtain ⟨c, rest, hc, hstarts⟩ := h
  cases later with
  | nil => exact ⟨c, rest, hc, by rwa [List.intercalate_singleton] at hstarts⟩
  | cons next others =>
    rw [List.intercalate_cons_cons, List.append_assoc, List.singleton_append,
      List.append_cons _ c rest] at hstarts
    rcases List.append_eq_append_iff.mp hstarts with ⟨mid, hfront, hmid⟩ | ⟨mid, hline, -⟩
    · cases mid with
      | nil => exact ⟨c, [], hc, by rwa [List.append_nil, eq_comm] at hfront⟩
      | cons d mid =>
        -- The line end would be one of the blanks, or the character behind them.
        obtain ⟨rfl, -⟩ := List.cons.inj hmid
        have hmem : '\n' ∈ List.replicate column.toNat ' ' ++ [c] := by simp [hfront]
        rcases List.mem_append.mp hmem with hblank | hlast
        · cases List.eq_of_mem_replicate hblank
        · rw [← List.mem_singleton.mp hlast] at hc
          cases hc
    · exact ⟨c, mid, hc, by rw [hline, List.append_assoc, List.singleton_append]⟩

/-- The layout of a value mirrors its nesting.

Each line after the first starts with two blanks for each level of the value as a whole and for each
paren that is open at the end of the lines before it, of which there is at least one. What comes
next is not blank. -/
theorem Value.indentation_mirrors_nesting (v : Value) (hnative : v.isNative = true)
    (hlegible : v.Legible) (level : Nat) (width : Int) (first : List (List Char)) (line : List Char)
    (later : List (List Char)) (hne : first ≠ [])
    (hlines : linesOf (v.pretty level width).toList = first ++ line :: later) :
    ∃ depth : Nat, 1 ≤ depth ∧ openParens first.flatten = depth ∧
      ∃ c rest, isBlank c = false ∧
        line = List.replicate (2 * (level + depth)) ' ' ++ c :: rest := by
  have hblock := Shape.block_layout width level v.shape (v.worded_shape hnative hlegible)
  obtain ⟨before, hcut, hopen⟩ := exists_cut_of_lines hne line later
  rw [← hlines, linesOf, List.intercalate_splitOn] at hcut
  obtain ⟨hleast, hstarts⟩ := hblock.indented before _ hcut
  rw [hopen] at hleast hstarts
  obtain ⟨depth, hdepth⟩ := Int.eq_ofNat_of_zero_le (Int.le_trans (by decide) hleast)
  refine ⟨depth, by omega, hdepth, ?_⟩
  obtain ⟨c, rest, hc, hline⟩ := startsAt_of_lines hstarts
  refine ⟨c, rest, hc, ?_⟩
  have hcolumn : (2 * ((level : Int) + openParens first.flatten)).toNat = 2 * (level + depth) := by
    omega
  rw [hline, hcolumn]

/-- A list whose head is broken as well, with a closure behind it: once the head is closed, a single
paren is open. -/
theorem Value.indentation_mirrors_nesting_closure :
    let v := Value.list [.list [.symbol "a", .symbol "b"],
      .closure 0 [.symbol "x"] (.symbol "x") 0]
    let first := ["((a".toList, "    b)".toList]
    linesOf (v.pretty 0 4).toList =
        first ++ "  (lambda".toList :: ["    (x)".toList, "    x))".toList] ∧
      ∃ depth : Nat, 1 ≤ depth ∧ openParens first.flatten = depth ∧
        ∃ c rest, isBlank c = false ∧
          "  (lambda".toList = List.replicate (2 * (0 + depth)) ' ' ++ c :: rest := by
  intro v first
  have hlines : linesOf (v.pretty 0 4).toList =
      first ++ "  (lambda".toList :: ["    (x)".toList, "    x))".toList] := by decide
  exact ⟨hlines, v.indentation_mirrors_nesting (by decide) (by decide) 0 4 first _ _
    (List.cons_ne_nil _ _) hlines⟩

end LexicalLisp
