import LexicalLisp.Number
import LexicalLisp.Text.Blank
import LexicalLisp.Text.DecimalDigit
import LexicalLisp.Text.Quoted

/-!
# Numbers handed in from outside

A number that is no literal of a source, but a text of its own, is read by wider rules: blanks may
stand around it, digits of every script count, a single underscore may stand between two digits,
and there are words for infinity and for what is not a number. A whole number has no point, no
exponent and no words, and may be of any size.

Of the ASCII characters only the space and the characters from tab to carriage return count as
blanks here.
-/

namespace LexicalLisp

/-- What is wrong with a text that should hold a number. -/
inductive EntryError where
  | notNumber (text : String)
  | notInteger (text : String)
  deriving DecidableEq, Repr

/-- The wording of an entry error; a long text that is no whole number is cut short. -/
def EntryError.message : EntryError → String
  | .notNumber text => s!"could not convert string to float: {quoted text}"
  | .notInteger text =>
    "invalid literal for int() with base 10: " ++ String.ofList ((quoted text).toList.take 200)

/-- The ASCII character that a character counts as; `none` if it can be in no number. -/
def entryChar? (c : Char) : Option Char :=
  if c.toNat < 127 then some c
  else if isBlank c then some ' '
  else (digitValue? c).map Nat.digitChar

/-- A blank among the ASCII characters of an entry. -/
def isPadding (c : Char) : Bool :=
  c == ' ' || (0x09 ≤ c.toNat && c.toNat ≤ 0x0D)

/-- Drop the blanks at both ends of an entry. -/
def trimPadding (chars : List Char) : List Char :=
  ((chars.dropWhile isPadding).reverse.dropWhile isPadding).reverse

/-- Drop the underscores, each of which has to stand between two digits.

The first argument tells whether a digit stands before the text. -/
def dropUnderscores : Bool → List Char → Option (List Char)
  | _, [] => some []
  | afterDigit, c :: rest =>
    if c = '_' then
      if afterDigit && (rest.head?.any Char.isDigit) then dropUnderscores false rest else none
    else (dropUnderscores c.isDigit rest).map (c :: ·)

/-- An entry in ASCII characters alone, without the blanks around it and its underscores. -/
def entryChars? (text : String) : Option (List Char) :=
  (text.toList.mapM entryChar?).bind fun chars => dropUnderscores false (trimPadding chars)

/-- Read a number without regard to case, given the tag it gets if it is not a number. -/
def readEntered? (tag : Nat) (chars : List Char) : Option Number :=
  let (negative, rest) := takeSign chars
  let word := String.ofList (rest.map Char.toLower)
  if word = "inf" || word = "infinity" then some (.real negative infinityPattern)
  else if word = "nan" then some (.nan tag)
  else (Numeral.read? chars).map .ofNumeral

/-- Read a whole number. -/
def readEnteredInteger? (chars : List Char) : Option Int :=
  let (negative, rest) := takeSign chars
  let (digits, rest) := takeDigits rest
  if digits.isEmpty || !rest.isEmpty then none
  else
    let size : Int := Nat.ofDigitChars 10 digits 0
    some (if negative then -size else size)

/-- The number that a text stands for, with the tag it gets if it is not a number. -/
def Number.ofEntry (tag : Nat) (text : String) : Except EntryError Number :=
  match (entryChars? text).bind (readEntered? tag) with
  | some n => .ok n
  | none => .error (.notNumber text)

/-- The whole number that a text stands for. -/
def integerOfEntry (text : String) : Except EntryError Int :=
  match (entryChars? text).bind readEnteredInteger? with
  | some n => .ok n
  | none => .error (.notInteger text)

end LexicalLisp
