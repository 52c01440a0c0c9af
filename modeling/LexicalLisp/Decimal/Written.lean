import LexicalLisp.Decimal.Shortest

/-!
# Written decimals

Numbers between a ten-thousandth and ten to the sixteenth are written out with a decimal point
and at least one digit after it. All others have one digit before the point and an exponent with
a sign and at least two digits.
-/

namespace LexicalLisp

/-- The digits of a number without the zeros at its end. -/
def significantDigits (n : Nat) : List Char :=
  ((Nat.toDigits 10 n).reverse.dropWhile (· == '0')).reverse

/-- An exponent with its sign and at least two digits. -/
def writeExponent (exponent : Int) : List Char :=
  let digits := Nat.toDigits 10 exponent.natAbs
  'e' :: (if exponent < 0 then '-' else '+') ::
    (List.replicate (2 - digits.length) '0' ++ digits)

/-- Digits with the point after the first `point` of them, filled up with zeros. -/
def writePositional (digits : List Char) (point : Int) : List Char :=
  if point ≤ 0 then '0' :: '.' :: (List.replicate (-point).toNat '0' ++ digits)
  else
    let whole := digits.take point.toNat
    let fraction := digits.drop point.toNat
    whole ++ List.replicate (point.toNat - digits.length) '0' ++
      '.' :: (if fraction.isEmpty then ['0'] else fraction)

/-- Digits with a point after the first one, and an exponent. -/
def writeScientific (digits : List Char) (exponent : Int) : List Char :=
  digits.take 1 ++ (if digits.length ≤ 1 then [] else '.' :: digits.drop 1) ++
    writeExponent exponent

/-- The text of a decimal. -/
def Decimal.write (d : Decimal) : List Char :=
  if d.digits = 0 then ['0', '.', '0']
  else
    let digits := significantDigits d.digits
    let point := digitCount d.digits + d.scale
    if -4 < point && point ≤ 16 then writePositional digits point
    else writeScientific digits (point - 1)

end LexicalLisp
