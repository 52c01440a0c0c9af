/-!
# Lines and line ends

A stream of text arrives line by line, a line ending after its new-line character and nowhere
else. The last line may lack that character.

A text file may also end its lines with a carriage return, alone or before a new line. Reading
such a file turns each of these line ends into a single new line.
-/

namespace LexicalLisp

/-- Put a character in front of a list of lines, a new line closing the line it ends. -/
def consLine (c : Char) : List (List Char) → List (List Char)
  | [] => [[c]]
  | line :: rest => if c == '\n' then [c] :: line :: rest else (c :: line) :: rest

/-- Cut a text after each new line; no line is empty. -/
def splitLines (text : String) : List String :=
  (text.toList.foldr consLine []).map String.ofList

/-- Turn every line end into one new line. -/
def unifyNewlines : List Char → List Char
  | [] => []
  | '\r' :: '\n' :: rest => '\n' :: unifyNewlines rest
  | '\r' :: rest => '\n' :: unifyNewlines rest
  | c :: rest => c :: unifyNewlines rest

/-- The lines of a text make up the text again. -/
theorem flatten_foldr_consLine (chars : List Char) :
    (chars.foldr consLine []).flatten = chars := by
  induction chars with
  | nil => rfl
  | cons c rest ih =>
    simp only [List.foldr_cons]
    cases h : rest.foldr consLine [] with
    | nil => simp_all [consLine]
    | cons line others =>
      rw [h] at ih
      by_cases hc : c = '\n' <;> simp_all [consLine]

end LexicalLisp
