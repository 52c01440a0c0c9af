import LexicalLisp.Decimal.Power

/-!
# Magnitudes of double-precision numbers

Every finite double is a whole multiple of one tiny unit, 2 to the power of -1074, so a magnitude
is a natural number of units and rounding is a question about natural numbers alone.

The pattern of a magnitude is its encoding without the sign bit. Patterns grow with the
magnitudes they encode, and the pattern of infinity follows that of the largest finite number,
which is why one addition places a rounded significand and lets a carry move the exponent.
-/

namespace LexicalLisp

/-- A unit is 2 to the power of minus this, the smallest positive double. -/
def unitExponent : Nat := 1074

/-- The pattern of infinity: finite magnitudes have a smaller one. -/
def infinityPattern : Nat := 0x7FF0000000000000

/-- 2 to the 52nd: the place of the exponent in a pattern, and of the leading bit of a
significand that is not written down. -/
def leadingBit : Nat := 0x10000000000000

/-- The magnitude that a finite pattern encodes, in units. -/
def patternUnits (pattern : Nat) : Nat :=
  let exponent := pattern / leadingBit
  let fraction := pattern % leadingBit
  if exponent = 0 then fraction else (leadingBit + fraction) * power 2 (exponent - 1)

/-- The whole number nearest to a quotient; a half goes to the even neighbour. -/
def roundHalfEven (num den : Nat) : Nat :=
  let quotient := num / den
  let twice := 2 * (num % den)
  if twice < den then quotient
  else if den < twice then quotient + 1
  else quotient + quotient % 2

/-- The pattern nearest to a magnitude of `num / den` units.

The significand keeps 53 bits, so the quotient is rounded after dropping the bits below them. -/
def nearestPattern (num den : Nat) : Nat :=
  let dropped := (num / den).log2 - 52
  min infinityPattern (dropped * leadingBit + roundHalfEven num (den * power 2 dropped))

/-- A whole number is its own nearest whole number. -/
theorem roundHalfEven_mul {d : Nat} (hd : 0 < d) (n : Nat) : roundHalfEven (n * d) d = n := by
  simp [roundHalfEven, Nat.mul_div_cancel _ hd, hd]

/-- Rounding a quotient does not depend on common factors. -/
theorem roundHalfEven_mul_mul {k : Nat} (hk : 0 < k) (num den : Nat) :
    roundHalfEven (num * k) (den * k) = roundHalfEven num den := by
  have htwice : 2 * (num % den * k) = 2 * (num % den) * k := by rw [Nat.mul_assoc]
  simp only [roundHalfEven, Nat.mul_div_mul_right _ _ hk, Nat.mul_mod_mul_right, htwice,
    Nat.mul_lt_mul_right hk]

/-- The nearest pattern does not depend on common factors. -/
theorem nearestPattern_mul_mul {k : Nat} (hk : 0 < k) (num den : Nat) :
    nearestPattern (num * k) (den * k) = nearestPattern num den := by
  simp only [nearestPattern, Nat.mul_div_mul_right _ _ hk]
  rw [Nat.mul_right_comm den k, roundHalfEven_mul_mul hk]

/-- The leading bit of a significand stands at place 52. -/
theorem leadingBit_eq_power : leadingBit = power 2 52 := by decide

/-- The binary logarithm of a significand of 53 bits that is shifted up. -/
theorem log2_significand {m : Nat} (low : leadingBit ≤ m) (high : m < 2 * leadingBit) (k : Nat) :
    (m * power 2 k).log2 = 52 + k := by
  have hpos : 0 < power 2 k := power_pos (by omega) k
  have hlead : 0 < leadingBit := by decide
  have hne : m * power 2 k ≠ 0 := Nat.mul_ne_zero (by omega) (by omega)
  have hdouble : 2 * leadingBit = power 2 53 := by decide
  apply Nat.le_antisymm
  · apply Nat.le_of_lt_succ
    rw [log2_lt_iff_lt_power hne, show (52 + k).succ = 53 + k by omega, power_add, ← hdouble]
    exact Nat.mul_lt_mul_of_pos_right high hpos
  · rw [le_log2_iff_power_le hne, power_add, ← leadingBit_eq_power]
    exact Nat.mul_le_mul_right _ low

/-- The magnitude of a finite pattern is nearest to that pattern. -/
theorem nearestPattern_patternUnits {pattern : Nat} (finite : pattern < infinityPattern) :
    nearestPattern (patternUnits pattern) 1 = pattern := by
  have hlead : 0 < leadingBit := by decide
  have hsplit := Nat.div_add_mod' pattern leadingBit
  have hfraction : pattern % leadingBit < leadingBit := Nat.mod_lt _ hlead
  have hround (n k : Nat) : roundHalfEven (n * power 2 k) (1 * power 2 k) = n := by
    rw [Nat.one_mul]
    exact roundHalfEven_mul (power_pos (by omega) k) n
  by_cases hexponent : pattern / leadingBit = 0
  · have hsmall : (pattern % leadingBit).log2 - 52 = 0 := by
      by_cases hzero : pattern % leadingBit = 0
      · rw [hzero, Nat.log2_zero]
      · have := (log2_lt_iff_lt_power hzero 52).2 (leadingBit_eq_power ▸ hfraction)
        omega
    have hunit := hround (pattern % leadingBit) 0
    simp only [nearestPattern, patternUnits, hexponent, if_true, Nat.div_one, hsmall]
    simp only [power_zero, Nat.mul_one] at hunit ⊢
    rw [hunit]
    rw [hexponent] at hsplit
    omega
  · obtain ⟨above, habove⟩ := Nat.exists_eq_succ_of_ne_zero hexponent
    have hlog := log2_significand (m := leadingBit + pattern % leadingBit) (by omega) (by omega)
      (pattern / leadingBit - 1)
    simp only [nearestPattern, patternUnits, hexponent, if_false, Nat.div_one, hlog]
    rw [Nat.add_sub_cancel_left, hround]
    rw [habove, Nat.succ_mul] at hsplit
    rw [habove, Nat.succ_sub_one]
    omega

end LexicalLisp
