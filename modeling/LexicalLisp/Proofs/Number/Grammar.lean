import LexicalLisp.Reader
import Mathlib.Computability.RegularExpressions
import Mathlib.Tactic.IntervalCases

/-!
# Number literals as a regular language

A number literal is an optional sign, a magnitude and an optional exponent. The magnitude is one or
more digits with an optional point and digits behind it, or a point with digits behind it. Written
as a regular expression, this says which words are literals, and not how they are found.

A word is read without ever going back: a sign is taken if there is one, digits are taken as long as
there are any, and what is left in the end has to be an exponent. Each piece may be taken greedily
because nothing that may follow it starts with a character that could have belonged to the piece.
-/

namespace LexicalLisp

open scoped Computability

namespace NumberGrammar

/-- One of the given characters. -/
def oneOf (choices : List Char) : RegularExpression Char :=
  choices.foldr (fun c others => .char c + others) 0

/-- The pattern or nothing. -/
def optional (pattern : RegularExpression Char) : RegularExpression Char :=
  1 + pattern

/-- The pattern one or more times. -/
def repeated (pattern : RegularExpression Char) : RegularExpression Char :=
  pattern * pattern.star

/-- An ASCII digit. -/
def digit : RegularExpression Char :=
  oneOf ['0', '1', '2', '3', '4', '5', '6', '7', '8', '9']

/-- An optional sign. -/
def sign : RegularExpression Char :=
  optional (oneOf ['+', '-'])

/-- A point with any number of digits behind it, or nothing. -/
def fraction : RegularExpression Char :=
  optional (oneOf ['.'] * digit.star)

/-- Digits with an optional point among or behind them, or digits behind a point. -/
def magnitude : RegularExpression Char :=
  repeated digit * fraction + oneOf ['.'] * repeated digit

/-- An optional exponent, with a sign of its own. -/
def exponent : RegularExpression Char :=
  optional (oneOf ['e', 'E'] * (sign * repeated digit))

/-- A number literal. -/
def literal : RegularExpression Char :=
  sign * (magnitude * exponent)

/-- Every word of the language that is not empty starts with such a character. -/
def StartsWith (P : Char → Prop) (L : Language Char) : Prop :=
  ∀ word ∈ L, ∀ c ∈ word.head?, P c

variable {P : Char → Prop} {L M : Language Char} {chars : List Char}

/-- What starts with some characters does not start with others. -/
theorem StartsWith.mono {Q : Char → Prop} (h : StartsWith P L) (himp : ∀ c, P c → Q c) :
    StartsWith Q L :=
  fun word hword c hc => himp c (h word hword c hc)

/-- Words of either of two languages. -/
theorem StartsWith.add (hL : StartsWith P L) (hM : StartsWith P M) : StartsWith P (L + M) :=
  fun word hword => hword.elim (hL word) (hM word)

/-- The empty word starts with nothing. -/
theorem startsWith_one : StartsWith P 1 := by
  rintro word rfl c hc
  cases hc

/-- The words of a choice of characters are these characters. -/
theorem mem_matches'_oneOf {choices : List Char} :
    chars ∈ (oneOf choices).matches' ↔ ∃ c ∈ choices, chars = [c] := by
  induction choices with
  | nil => exact iff_of_false (Language.notMem_zero chars) (by simp)
  | cons a rest ih =>
    rw [List.exists_mem_cons_iff, ← ih]
    exact Language.mem_add _ _ chars

/-- One of some characters, followed by a word of the language. -/
theorem mem_oneOf_mul_iff {choices : List Char} :
    chars ∈ (oneOf choices).matches' * L ↔
      ∃ c rest, chars = c :: rest ∧ c ∈ choices ∧ rest ∈ L := by
  rw [Language.mem_mul]
  constructor
  · rintro ⟨front, hfront, back, hback, rfl⟩
    obtain ⟨c, hc, rfl⟩ := mem_matches'_oneOf.mp hfront
    exact ⟨c, back, rfl, hc, hback⟩
  · rintro ⟨c, rest, rfl, hc, hrest⟩
    exact ⟨[c], mem_matches'_oneOf.mpr ⟨c, hc, rfl⟩, rest, hrest, rfl⟩

/-- One of some characters comes first. -/
theorem startsWith_oneOf_mul {choices : List Char} (h : ∀ c ∈ choices, P c) :
    StartsWith P ((oneOf choices).matches' * L) := by
  intro word hword c hc
  obtain ⟨d, rest, rfl, hd, -⟩ := mem_oneOf_mul_iff.mp hword
  obtain rfl : d = c := Option.some.inj hc
  exact h d hd

/-- An optional pattern in front of a language is there or not. -/
theorem optional_mul (pattern : RegularExpression Char) (L : Language Char) :
    (optional pattern).matches' * L = L + pattern.matches' * L := by
  change (1 + pattern.matches') * L = _
  rw [add_mul, one_mul]

/-- The ASCII digits are listed in full. -/
theorem isDigit_iff {c : Char} :
    c.isDigit = true ↔ c ∈ ['0', '1', '2', '3', '4', '5', '6', '7', '8', '9'] := by
  constructor
  · intro h
    have hcode : 48 ≤ c.toNat ∧ c.toNat ≤ 57 := by
      simpa [Char.isDigit, UInt32.le_iff_toNat_le] using h
    obtain ⟨n, hn⟩ : ∃ n, c.toNat = n := ⟨_, rfl⟩
    rw [← Char.ofNat_toNat c, hn]
    rw [hn] at hcode
    obtain ⟨hlow, hhigh⟩ := hcode
    interval_cases n <;> decide
  · revert c
    simp [Char.isDigit]

/-- A digit, followed by a word of the language. -/
theorem cons_mem_digit_mul_iff {c : Char} {rest : List Char} :
    c :: rest ∈ digit.matches' * L ↔ c.isDigit = true ∧ rest ∈ L := by
  rw [digit, mem_oneOf_mul_iff, isDigit_iff]
  simp

/-- Digits may be taken as long as there are any, in front of what starts with no digit. -/
theorem mem_digits_mul_iff (hL : StartsWith (·.isDigit = false) L) :
    chars ∈ digit.star.matches' * L ↔ (takeDigits chars).2 ∈ L := by
  have hunfold : digit.star.matches' * L = L + digit.matches' * (digit.star.matches' * L) := by
    change digit.matches'∗ * L = L + digit.matches' * (digit.matches'∗ * L)
    nth_rewrite 1 [← Language.one_add_self_mul_kstar_eq_kstar]
    rw [add_mul, one_mul, mul_assoc]
  induction chars with
  | nil =>
    rw [hunfold, Language.mem_add]
    exact or_iff_left (by simp [digit, mem_oneOf_mul_iff])
  | cons c rest ih =>
    rw [hunfold, Language.mem_add, cons_mem_digit_mul_iff, takeDigits, List.dropWhile_cons]
    cases hc : c.isDigit with
    | true =>
      have hout : c :: rest ∉ L := fun h => by simpa [hc] using hL _ h c rfl
      simpa [hout, takeDigits] using ih
    | false => simp

/-- At least one digit, in front of what starts with no digit. -/
theorem mem_repeated_digit_mul_iff (hL : StartsWith (·.isDigit = false) L) :
    chars ∈ (repeated digit).matches' * L ↔
      (takeDigits chars).1 ≠ [] ∧ (takeDigits chars).2 ∈ L := by
  rw [repeated, RegularExpression.matches'_mul, mul_assoc]
  cases chars with
  | nil => simp [digit, mem_oneOf_mul_iff, takeDigits]
  | cons c rest =>
    rw [cons_mem_digit_mul_iff, mem_digits_mul_iff hL]
    cases hc : c.isDigit <;> simp [takeDigits, hc]

/-- A sign may be taken if there is one, in front of what starts with no sign. -/
theorem mem_sign_mul_iff (hL : StartsWith (fun c => c ≠ '+' ∧ c ≠ '-') L) :
    chars ∈ sign.matches' * L ↔ (takeSign chars).2 ∈ L := by
  rw [sign, optional_mul, Language.mem_add, mem_oneOf_mul_iff]
  match chars with
  | [] => simp [takeSign]
  | c :: rest =>
    by_cases hplus : c = '+'
    · subst hplus
      have hout : '+' :: rest ∉ L := fun h => (hL _ h '+' rfl).1 rfl
      simp [hout, takeSign]
    · by_cases hminus : c = '-'
      · subst hminus
        have hout : '-' :: rest ∉ L := fun h => (hL _ h '-' rfl).2 rfl
        simp [hout, takeSign]
      · simp [takeSign, hplus, hminus]

/-- A point and digits may be taken if they are there, in front of what starts with neither. -/
theorem mem_fraction_mul_iff (hL : StartsWith (fun c => c.isDigit = false ∧ c ≠ '.') L) :
    chars ∈ fraction.matches' * L ↔ (takeFraction chars).2 ∈ L := by
  rw [fraction, optional_mul, RegularExpression.matches'_mul, mul_assoc, Language.mem_add,
    mem_oneOf_mul_iff]
  match chars with
  | [] => simp [takeFraction]
  | c :: rest =>
    by_cases hpoint : c = '.'
    · subst hpoint
      have hout : '.' :: rest ∉ L := fun h => (hL _ h '.' rfl).2 rfl
      have hdigits : rest ∈ digit.star.matches' * L ↔ (takeDigits rest).2 ∈ L :=
        mem_digits_mul_iff (hL.mono fun _ h => h.1)
      simpa [hout, takeFraction] using hdigits
    · simp [takeFraction, hpoint]

/-- An exponent starts with neither a digit nor a point. -/
theorem startsWith_exponent :
    StartsWith (fun c => c.isDigit = false ∧ c ≠ '.') exponent.matches' := by
  rw [← mul_one exponent.matches', exponent, optional_mul, RegularExpression.matches'_mul,
    mul_assoc]
  exact startsWith_one.add (startsWith_oneOf_mul (by simp [Char.isDigit]))

/-- What stands behind the digits of a magnitude starts with a point or an exponent mark. -/
theorem startsWith_fraction_mul_exponent :
    StartsWith (·.isDigit = false) (fraction.matches' * exponent.matches') := by
  rw [fraction, optional_mul, RegularExpression.matches'_mul, mul_assoc]
  exact (startsWith_exponent.mono fun _ h => h.1).add
    (startsWith_oneOf_mul (by simp [Char.isDigit]))

/-- A number without its sign starts with a digit or a point. -/
theorem startsWith_magnitude_mul :
    StartsWith (fun c => c ≠ '+' ∧ c ≠ '-') (magnitude.matches' * L) := by
  rw [magnitude, RegularExpression.matches'_add, add_mul, repeated]
  simp only [RegularExpression.matches'_mul, mul_assoc]
  exact (startsWith_oneOf_mul (by simp)).add (startsWith_oneOf_mul (by simp))

/-- An exponent is what is read as one. -/
theorem mem_exponent_iff : chars ∈ exponent.matches' ↔ (readExponent chars).isSome = true := by
  have hdigits : StartsWith (fun c => c ≠ '+' ∧ c ≠ '-') ((repeated digit).matches' * 1) := by
    rw [repeated, RegularExpression.matches'_mul, mul_assoc]
    exact startsWith_oneOf_mul (by simp)
  rw [← mul_one exponent.matches', exponent, optional_mul, RegularExpression.matches'_mul,
    mul_assoc, RegularExpression.matches'_mul, mul_assoc, Language.mem_add, mem_oneOf_mul_iff]
  cases chars with
  | nil => simp [readExponent]
  | cons mark rest =>
    have htaken : rest ∈ sign.matches' * ((repeated digit).matches' * 1) ↔ _ :=
      (mem_sign_mul_iff hdigits).trans (mem_repeated_digit_mul_iff startsWith_one)
    rw [mul_one, Language.mem_one] at htaken
    by_cases hmark : mark = 'e' ∨ mark = 'E'
    · simp [readExponent, hmark, htaken]
    · simp [readExponent, hmark]

/-- A magnitude with an exponent behind it has digits in front of its point or behind it, and what
is left is the exponent. -/
theorem mem_magnitude_mul_iff :
    chars ∈ magnitude.matches' * exponent.matches' ↔
      ((takeDigits chars).1 ≠ [] ∨ (takeFraction (takeDigits chars).2).1 ≠ []) ∧
        (takeFraction (takeDigits chars).2).2 ∈ exponent.matches' := by
  rw [magnitude, RegularExpression.matches'_add, add_mul, RegularExpression.matches'_mul, mul_assoc,
    RegularExpression.matches'_mul, mul_assoc, Language.mem_add,
    mem_repeated_digit_mul_iff startsWith_fraction_mul_exponent,
    mem_fraction_mul_iff startsWith_exponent, mem_oneOf_mul_iff]
  cases chars with
  | nil => simp [takeDigits, takeFraction]
  | cons c rest =>
    by_cases hpoint : c = '.'
    · subst hpoint
      have hpointDigit : '.'.isDigit = false := by decide
      have hdigits : rest ∈ (repeated digit).matches' * exponent.matches' ↔ _ :=
        mem_repeated_digit_mul_iff (startsWith_exponent.mono fun _ h => h.1)
      simp [takeDigits, takeFraction, hpointDigit, hdigits]
    · cases hc : c.isDigit with
      | true => simp [takeDigits, hc, hpoint]
      | false => simp [takeDigits, takeFraction, hc, hpoint]

/-- The literals are the texts that are read as numerals. -/
theorem mem_literal_iff : chars ∈ literal.matches' ↔ (Numeral.read? chars).isSome = true := by
  rw [literal, RegularExpression.matches'_mul, RegularExpression.matches'_mul,
    mem_sign_mul_iff startsWith_magnitude_mul, mem_magnitude_mul_iff, mem_exponent_iff, Ne, Ne,
    ← not_and_or]
  by_cases hnone : (takeDigits (takeSign chars).2).1 = [] ∧
      (takeFraction (takeDigits (takeSign chars).2).2).1 = []
  · simp [Numeral.read?, hnone]
  · simp [Numeral.read?, hnone]

end NumberGrammar

/-- A word is read as a number exactly if all of it is a number literal, and otherwise as the symbol
of this name. -/
theorem word_is_number_iff_literal (text : String) :
    ((∃ n, readAtom text = .number n) ↔ text.toList ∈ NumberGrammar.literal.matches') ∧
      (readAtom text = .symbol text ↔ text.toList ∉ NumberGrammar.literal.matches') := by
  rw [NumberGrammar.mem_literal_iff, readAtom]
  cases Numeral.read? text.toList with
  | none => simp
  | some numeral => simp

/-- A point may stand at either end of the digits, but no sign, point or mark on its own, and
neither digits of other scripts nor a line end count. -/
example :
    (["5.", "+.5e-1", "", "-", ".", "e5", "1e", "1_0", "inf", "1\n", "\u0661"].map fun text =>
      NumberGrammar.literal.rmatch text.toList) =
      [true, true, false, false, false, false, false, false, false, false, false] := by
  decide +kernel

end LexicalLisp
