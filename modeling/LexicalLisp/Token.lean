import LexicalLisp.Text.Blank

/-!
# Tokens

Source text is cut into parens and words. Each paren stands for itself, whatever surrounds it,
and a word is whatever lies between blanks and parens; there is no quoting, no escape and no
comment.

Cutting sets each paren off by blanks and splits the text at blanks. The number of opening over
closing parens tells a text that waits for more from one that may be complete.
-/

namespace LexicalLisp

/-- A paren, or the text of a word. -/
inductive Token where
  | opening
  | closing
  | atom (text : String)
  deriving DecidableEq, Repr

namespace Token

/-- The token that a text spells. -/
def ofText (text : String) : Token :=
  if text = "(" then .opening else if text = ")" then .closing else .atom text

/-- How a token is spelled. -/
def text : Token → String
  | .opening => "("
  | .closing => ")"
  | .atom text => text

/-- What a token adds to the number of open parens. -/
def weight : Token → Int
  | .opening => 1
  | .closing => -1
  | .atom _ => 0

end Token

/-- The opening and the closing paren. -/
def isParen (c : Char) : Bool :=
  c == '(' || c == ')'

/-- Set each paren off by a blank on both sides. -/
def padParens (chars : List Char) : List Char :=
  chars.flatMap fun c => if isParen c then [' ', c, ' '] else [c]

/-- Put a finished word in front of others, unless it is empty. -/
def consWord (word : List Char) (words : List (List Char)) : List (List Char) :=
  if word.isEmpty then words else word :: words

/-- The words between blanks: the one that starts the text, and the others after it. -/
def splitWords (chars : List Char) : List Char × List (List Char) :=
  chars.foldr
    (fun c found => if isBlank c then ([], consWord found.1 found.2) else (c :: found.1, found.2))
    ([], [])

/-- The words of a text, none of them empty. -/
def wordsOf (chars : List Char) : List (List Char) :=
  consWord (splitWords chars).1 (splitWords chars).2

/-- Cut source text into tokens. -/
def tokenize (source : String) : List Token :=
  (wordsOf (padParens source.toList)).map fun word => Token.ofText (String.ofList word)

/-- Opening minus closing parens. -/
def balance (tokens : List Token) : Int :=
  tokens.foldr (fun token rest => token.weight + rest) 0

/-- More parens are opened than closed, so more lines are needed. -/
def isOpen (source : String) : Bool :=
  decide (0 < balance (tokenize source))

/-- A token is spelled by one text only. -/
theorem Token.text_ofText (text : String) : (Token.ofText text).text = text := by
  unfold Token.ofText
  split
  · simp_all [Token.text]
  · split <;> simp_all [Token.text]

end LexicalLisp
