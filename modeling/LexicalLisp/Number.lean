import LexicalLisp.Decimal.Numeral
import LexicalLisp.Decimal.Written

/-!
# Numbers

The language has one kind of number, the double, held as its sign and the pattern of its
magnitude. A result that is not a number carries a tag of its own: it equals itself, wherever it
is passed, and no other result.

Two texts are given to a number. The full text always shows a point or an exponent and keeps the
sign of zero. The plain text, used when values are printed as source, writes whole numbers
without a point and reads back as an equal number.
-/

namespace LexicalLisp

/-- A double, or the tagged outcome of an operation without a numeric result. -/
inductive Number where
  | real (negative : Bool) (pattern : Nat)
  | nan (tag : Nat)
  deriving DecidableEq, Repr

/-- The sign bit of an encoded double. -/
def signBit : Nat := 0x8000000000000000

/-- The one encoding of what is not a number. -/
def nanBits : Nat := 0x7FF8000000000000

namespace Number

/-- Package the result of an operation, with the tag it gets if it is not a number. -/
def ofFloat (tag : Nat) (x : Float) : Number :=
  let bits := x.toBits.toNat
  let pattern := bits % signBit
  if infinityPattern < pattern then .nan tag else .real (signBit ≤ bits) pattern

/-- The encoding of a number. -/
def bits : Number → Nat
  | .real negative pattern => if negative then signBit + pattern else pattern
  | .nan _ => nanBits

/-- The double to calculate with. -/
def toFloat (n : Number) : Float :=
  Float.ofBits (UInt64.ofNat n.bits)

/-- The number a literal stands for. -/
def ofNumeral (n : Numeral) : Number :=
  .real n.negative n.magnitude.pattern

/-- The number nearest to an integer. -/
def ofInt (n : Int) : Number :=
  .real (n < 0) (Decimal.pattern ⟨n.natAbs, 0⟩)

/-- Numeric equality: the two zeros are equal, and a tagged result equals only itself. -/
def same : Number → Number → Bool
  | .real s p, .real t q => p == q && (s == t || p == 0)
  | .nan s, .nan t => s == t
  | _, _ => false

/-- A number other than an infinity or a tagged result. -/
def isFinite : Number → Bool
  | .real _ pattern => decide (pattern < infinityPattern)
  | .nan _ => false

/-- Put a minus in front of the text of a negative number. -/
def signed (negative : Bool) (chars : List Char) : String :=
  String.ofList (if negative then '-' :: chars else chars)

/-- The full text of a number. -/
def fullText : Number → String
  | .real negative pattern =>
    signed negative
      (if pattern < infinityPattern then (shortestDecimal pattern).write else ['i', 'n', 'f'])
  | .nan _ => "nan"

/-- The plain text of a number: whole numbers are written exactly and without a point. -/
def plainText (n : Number) : String :=
  match n with
  | .real negative pattern =>
    let units := patternUnits pattern
    if pattern < infinityPattern && units % power 2 unitExponent == 0 then
      signed (negative && pattern != 0) (Nat.toDigits 10 (units / power 2 unitExponent))
    else n.fullText
  | .nan _ => n.fullText

/-- Equality of numbers is reflexive, also on tagged results. -/
theorem same_refl (n : Number) : n.same n = true := by
  cases n <;> simp [same]

/-- Equality of numbers is symmetric. -/
theorem same_comm (m n : Number) : m.same n = n.same m := by
  cases m <;> cases n <;> simp only [same] <;> grind

end Number

end LexicalLisp
