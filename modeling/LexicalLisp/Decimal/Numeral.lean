import LexicalLisp.Decimal.Shortest

/-!
# Number literals

A literal is an optional sign, then digits with an optional point among or after them, or a point
followed by digits, then optionally an exponent. Only the ASCII digits count, and the whole text
has to be used up.
-/

namespace LexicalLisp

/-- A literal's sign and magnitude. -/
structure Numeral where
  negative : Bool
  magnitude : Decimal
  deriving DecidableEq, Repr

/-- Split off an optional sign; `true` stands for a minus. -/
def takeSign : List Char → Bool × List Char
  | '+' :: rest => (false, rest)
  | '-' :: rest => (true, rest)
  | chars => (false, chars)

/-- Split off the leading digits. -/
def takeDigits (chars : List Char) : List Char × List Char :=
  (chars.takeWhile Char.isDigit, chars.dropWhile Char.isDigit)

/-- Split off an optional point with the digits after it. -/
def takeFraction : List Char → List Char × List Char
  | '.' :: rest => takeDigits rest
  | chars => ([], chars)

/-- Read an optional exponent that has to end the text. -/
def readExponent : List Char → Option Int
  | [] => some 0
  | mark :: rest =>
    if mark == 'e' || mark == 'E' then
      let (negative, rest) := takeSign rest
      let (digits, rest) := takeDigits rest
      if digits.isEmpty || !rest.isEmpty then none
      else
        let size : Int := Nat.ofDigitChars 10 digits 0
        some (if negative then -size else size)
    else none

/-- Read a number literal; `none` for any other text. -/
def Numeral.read? (chars : List Char) : Option Numeral :=
  let (negative, rest) := takeSign chars
  let (whole, rest) := takeDigits rest
  let (fraction, rest) := takeFraction rest
  if whole.isEmpty && fraction.isEmpty then none
  else
    (readExponent rest).map fun exponent =>
      ⟨negative, Nat.ofDigitChars 10 (whole ++ fraction) 0, exponent - fraction.length⟩

end LexicalLisp
