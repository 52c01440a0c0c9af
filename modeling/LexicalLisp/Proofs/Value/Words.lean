import LexicalLisp.Proofs.Value.NormalForm

/-!
# Texts made of words

The leaves of a printed value are its numbers, booleans and symbols, and the name of the lambda form
for each closure. If every symbol is read back as itself, each leaf is a single word: it is not
empty and has neither blanks nor parens. The parens of the printed text are then those of its
groups, and its line ends are those that the layout puts in.

On one line, a shape made of words has no line end, starts with a character that is not blank, and
closes every paren it opens.
-/

namespace LexicalLisp

/-- The lines of a text: what stands between its line ends. -/
def linesOf (chars : List Char) : List (List Char) :=
  chars.splitOn '\n'

/-- The number of parens that are opened in a text and not closed in it. -/
def openParens (chars : List Char) : Int :=
  chars.count '(' - chars.count ')'

/-- Nothing opens no paren. -/
theorem openParens_nil : openParens [] = 0 :=
  rfl

/-- A line end opens no paren. -/
theorem openParens_newline (chars : List Char) :
    openParens ('\n' :: chars) = openParens chars := by
  simp [openParens]

/-- Open parens add up. -/
theorem openParens_append (xs ys : List Char) :
    openParens (xs ++ ys) = openParens xs + openParens ys := by
  simp only [openParens, List.count_append]
  omega

/-- A text with neither paren opens none. -/
theorem openParens_eq_zero {chars : List Char} (hopening : '(' ∉ chars) (hclosing : ')' ∉ chars) :
    openParens chars = 0 := by
  rw [openParens, List.count_eq_zero.mpr hopening, List.count_eq_zero.mpr hclosing]
  rfl

/-- A character that ends words is not within one. -/
theorem Undelimited.not_mem {chars : List Char} (h : Undelimited chars) {c : Char}
    (hc : isDelimiter c = true) : c ∉ chars := by
  intro hmem
  rw [h c hmem] at hc
  cases hc

namespace Value

/-- Every symbol within the value, also within the code of closures, is read back as itself. -/
def Legible (v : Value) : Prop :=
  ∀ name ∈ v.symbols, isReadableName name = true

instance (v : Value) : Decidable v.Legible :=
  inferInstanceAs (Decidable (∀ name ∈ v.symbols, isReadableName name = true))

mutual

/-- No part of the value comes from the program that embeds the interpreter. -/
def isNative : Value → Bool
  | .number _ | .boolean _ | .symbol _ => true
  | .list items => isNativeEach items
  | .closure _ formals body _ => isNativeEach formals && isNative body
  | .foreign _ => false

/-- No part of the items comes from the program that embeds the interpreter. -/
def isNativeEach : List Value → Bool
  | [] => true
  | v :: rest => isNative v && isNativeEach rest

end

end Value

/-- A text that is a single word. -/
structure IsWord (text : String) : Prop where
  ne_nil : text.toList ≠ []
  undelimited : Undelimited text.toList

namespace IsWord

/-- A name that is read back as itself is a word. -/
theorem of_isReadableName {name : String} (h : isReadableName name = true) : IsWord name := by
  obtain ⟨hne, hundelimited⟩ := undelimited_of_isReadableName h
  exact ⟨hne, hundelimited⟩

/-- The text of a number is a word, be the number finite or not. -/
theorem of_number (n : Number) : IsWord n.plainText := by
  cases hfinite : n.isFinite with
  | true =>
    obtain ⟨numeral, hread, -⟩ := Number.exists_read?_plainText hfinite
    obtain ⟨hne, hundelimited⟩ := undelimited_of_read? hread
    exact ⟨hne, hundelimited⟩
  | false => exact of_isReadableName (Number.isReadableName_plainText hfinite)

end IsWord

namespace Shape

mutual

/-- Every leaf is a single word. -/
def Worded : Shape → Prop
  | .leaf text => IsWord text
  | .group members => WordedEach members

/-- Every leaf of the members is a single word. -/
def WordedEach : List Shape → Prop
  | [] => True
  | s :: rest => Worded s ∧ WordedEach rest

end

end Shape

namespace Value

mutual

/-- A value of the language whose symbols are read back has words for leaves. -/
theorem worded_shape (v : Value) (hnative : v.isNative = true) (hlegible : v.Legible) :
    v.shape.Worded := by
  match v with
  | .number n => exact .of_number n
  | .boolean b => cases b <;> exact .of_isReadableName (by decide)
  | .symbol name => exact .of_isReadableName (hlegible name (List.mem_singleton_self name))
  | .list items => exact wordedEach_shapeEach items hnative hlegible
  | .closure _ formals body _ =>
    rw [isNative, Bool.and_eq_true] at hnative
    obtain ⟨hformals, hbody⟩ := List.forall_mem_append.mp hlegible
    exact ⟨.of_isReadableName (by decide), wordedEach_shapeEach formals hnative.1 hformals,
      worded_shape body hnative.2 hbody, trivial⟩
  | .foreign _ => cases hnative

/-- So have the items of a list. -/
theorem wordedEach_shapeEach (items : List Value) (hnative : isNativeEach items = true)
    (hlegible : ∀ name ∈ symbolsEach items, isReadableName name = true) :
    Shape.WordedEach (shapeEach items) := by
  match items with
  | [] => trivial
  | v :: rest =>
    rw [isNativeEach, Bool.and_eq_true] at hnative
    obtain ⟨hv, hrest⟩ := List.forall_mem_append.mp hlegible
    exact ⟨worded_shape v hnative.1 hv, wordedEach_shapeEach rest hnative.2 hrest⟩

end

end Value

/-- A text on one line that closes every paren it opens. -/
structure OneLine (chars : List Char) : Prop where
  no_newline : '\n' ∉ chars
  balanced : openParens chars = 0

namespace OneLine

/-- Nothing is such a text. -/
theorem nil : OneLine [] :=
  ⟨List.not_mem_nil, rfl⟩

/-- A word is. -/
theorem word {text : String} (h : IsWord text) : OneLine text.toList :=
  ⟨h.undelimited.not_mem (by decide),
    openParens_eq_zero (h.undelimited.not_mem (by decide)) (h.undelimited.not_mem (by decide))⟩

/-- Two such texts after one another are. -/
theorem append {xs ys : List Char} (hxs : OneLine xs) (hys : OneLine ys) : OneLine (xs ++ ys) where
  no_newline := by
    rw [List.mem_append]
    exact fun h => h.elim hxs.no_newline hys.no_newline
  balanced := by rw [openParens_append, hxs.balanced, hys.balanced]; rfl

/-- Such a text between parens is. -/
theorem parenthesized {chars : List Char} (h : OneLine chars) :
    OneLine (['('] ++ chars ++ [')']) where
  no_newline := by simp [h.no_newline]
  balanced := by rw [openParens_append, openParens_append, h.balanced]; decide

/-- Such texts with a blank between them are. -/
theorem intercalate {parts : List (List Char)} (h : ∀ part ∈ parts, OneLine part) :
    OneLine ([' '].intercalate parts) := by
  match parts, h with
  | [], _ => exact nil
  | [part], h =>
    rw [List.intercalate_singleton]
    exact h part List.mem_cons_self
  | part :: next :: rest, h =>
    obtain ⟨hpart, hrest⟩ := List.forall_mem_cons.mp h
    have hblank : OneLine [' '] := ⟨by decide, by decide⟩
    rw [List.intercalate_cons_cons]
    exact (hpart.append hblank).append (intercalate hrest)

end OneLine

namespace Shape

/-- A group on one line, character by character. -/
theorem toList_flat_group (members : List Shape) :
    (Shape.group members).flat.toList =
      ['('] ++ [' '].intercalate ((flatEach members).map String.toList) ++ [')'] := by
  rw [flat, String.toList_append, String.toList_append, String.toList_intercalate]
  rfl

mutual

/-- The flat text of a shape made of words is on one line and closes what it opens. -/
theorem oneLine_flat (s : Shape) (h : s.Worded) : OneLine s.flat.toList := by
  match s with
  | .leaf text => exact .word h
  | .group members =>
    rw [toList_flat_group]
    exact (OneLine.intercalate (oneLine_flatEach members h)).parenthesized

/-- So are the flat texts of members. -/
theorem oneLine_flatEach (members : List Shape) (h : WordedEach members) :
    ∀ part ∈ (flatEach members).map String.toList, OneLine part := by
  match members with
  | [] => exact nofun
  | s :: rest => exact List.forall_mem_cons.mpr ⟨oneLine_flat s h.1, oneLine_flatEach rest h.2⟩

end

/-- Stacked members, character by character. -/
theorem toList_stack (level : Int) {parts : List String} (hne : parts ≠ []) :
    (stack level parts).toList =
      ['('] ++ ('\n' :: (padding level).toList).intercalate (parts.map String.toList) ++ [')'] := by
  obtain ⟨first, rest, rfl⟩ := List.exists_cons_of_ne_nil hne
  rw [stack, String.toList_append, String.toList_append, String.toList_intercalate,
    String.toList_append]
  rfl

/-- Padding is two blanks per level. -/
theorem toList_padding (level : Int) :
    (padding level).toList = List.replicate (2 * level).toNat ' ' := by
  rw [padding, String.toList_ofList]

end Shape

end LexicalLisp
