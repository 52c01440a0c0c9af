import LexicalLisp.Decimal.Binary64

/-!
# Shortest decimals

A decimal is a whole number scaled by a power of ten. Reading one yields the nearest double.
Writing a double chooses, among the decimals that read back as it, one with the fewest digits,
and of two such the one nearer to the double.

For each number of digits only the two neighbours of the exact value need be tried: if any
decimal of that length reads back, then one of them does. Seventeen digits always suffice; the
exact expansion, which every double has, stands behind them so that the result reads back by
construction.
-/

namespace LexicalLisp

/-- The number `digits` times 10 to the power of `scale`. -/
structure Decimal where
  digits : Nat
  scale : Int
  deriving DecidableEq, Repr

/-- The pattern of the double nearest to a decimal.

From 10 to the 309th on every magnitude overflows, and one below 10 to the -324th is nearer to
zero than to the smallest double, so no large power is ever computed for those. -/
def Decimal.pattern (d : Decimal) : Nat :=
  if d.digits = 0 then 0
  else if 309 ≤ d.scale then infinityPattern
  else if d.digits.log2 + 1 + d.scale ≤ -324 then 0
  else if 0 ≤ d.scale then
    nearestPattern (d.digits * power 10 d.scale.toNat * power 2 unitExponent) 1
  else nearestPattern (d.digits * power 2 unitExponent) (power 10 (-d.scale).toNat)

/-- The number of decimal digits. -/
def digitCount (n : Nat) : Nat :=
  (Nat.toDigits 10 n).length

/-- The magnitude divided by 10 to the `scale`, as a quotient of natural numbers. -/
def scaledQuotient (units : Nat) (scale : Int) : Nat × Nat :=
  if 0 ≤ scale then (units, power 2 unitExponent * power 10 scale.toNat)
  else (units * power 10 (-scale).toNat, power 2 unitExponent)

/-- The position of the decimal point: the least `p` with the magnitude below 10 to the `p`.

The binary logarithm determines it up to one, because 30103 parts in 100000 of it are its decimal
logarithm closely enough for every double. -/
def pointPosition (units : Nat) : Int :=
  let guess := ((units.log2 : Int) - unitExponent) * 30103 / 100000
  let (num, den) := scaledQuotient units (guess + 1)
  if num < den then guess + 1 else guess + 2

/-- The two decimals at a scale that enclose a magnitude, the nearer one first; of two equally
near ones the even one is first. -/
def neighbours (units : Nat) (scale : Int) : List Decimal :=
  let (num, den) := scaledQuotient units scale
  let below := num / den
  if roundHalfEven num den = below then [⟨below, scale⟩, ⟨below + 1, scale⟩]
  else [⟨below + 1, scale⟩, ⟨below, scale⟩]

/-- The exact value of a magnitude. -/
def exactDecimal (units : Nat) : Decimal :=
  ⟨units * power 5 unitExponent, -unitExponent⟩

/-- The shortest decimal that reads back as the finite pattern. -/
def shortestDecimal (pattern : Nat) : Decimal :=
  let units := patternUnits pattern
  let point := pointPosition units
  let found := (List.range 17).findSome? fun k : Nat =>
    (neighbours units (point - (k + 1))).find? fun d => d.pattern = pattern
  found.getD (exactDecimal units)

/-- The exact expansion of a finite pattern reads back as it. -/
theorem exactDecimal_pattern {pattern : Nat} (finite : pattern < infinityPattern) :
    (exactDecimal (patternUnits pattern)).pattern = pattern := by
  have hfive : 0 < power 5 unitExponent := power_pos (by omega) _
  have hten : power 10 unitExponent = power 5 unitExponent * power 2 unitExponent :=
    mul_power 5 2 unitExponent
  have hnearest := nearestPattern_patternUnits finite
  by_cases hzero : patternUnits pattern = 0
  · have hleast : nearestPattern 0 1 = 0 := by decide
    rw [hzero, hleast] at hnearest
    rw [hzero, ← hnearest]
    simp [exactDecimal, Decimal.pattern]
  · have hne : patternUnits pattern * power 5 unitExponent ≠ 0 :=
      Nat.mul_ne_zero hzero (Nat.ne_of_gt hfive)
    have hlog : 2 * unitExponent ≤ (patternUnits pattern * power 5 unitExponent).log2 := by
      rw [le_log2_iff_power_le hne, Nat.two_mul, power_add, ← mul_power]
      exact Nat.le_trans (power_le_power (by omega) _)
        (Nat.le_mul_of_pos_left _ (Nat.pos_of_ne_zero hzero))
    have hscaled : nearestPattern
        (patternUnits pattern * power 5 unitExponent * power 2 unitExponent)
        (power 10 unitExponent) = pattern := by
      have hk : 0 < power 5 unitExponent * power 2 unitExponent :=
        Nat.mul_pos hfive (power_pos (by omega) _)
      have hfactor := nearestPattern_mul_mul hk (patternUnits pattern) 1
      rw [Nat.one_mul, ← Nat.mul_assoc, ← hten, hnearest] at hfactor
      exact hfactor
    have hscale : ¬ (0 : Int) ≤ -(unitExponent : Int) := by decide
    have hlarge : ¬ (309 : Int) ≤ -(unitExponent : Int) := by decide
    have hsmall : ¬ ((patternUnits pattern * power 5 unitExponent).log2 + 1 +
        -(unitExponent : Int) ≤ -324) := by
      omega
    simp only [exactDecimal, Decimal.pattern, hne, hlarge, hsmall, hscale, if_false, Int.neg_neg,
      Int.toNat_natCast]
    exact hscaled

/-- The shortest decimal of a finite pattern reads back as it. -/
theorem shortestDecimal_pattern {pattern : Nat} (finite : pattern < infinityPattern) :
    (shortestDecimal pattern).pattern = pattern := by
  unfold shortestDecimal
  simp only
  cases h : (List.range 17).findSome? fun k : Nat =>
      (neighbours (patternUnits pattern) (pointPosition (patternUnits pattern) - (k + 1))).find?
        fun d => d.pattern = pattern with
  | none => exact exactDecimal_pattern finite
  | some d =>
    obtain ⟨k, _, hk⟩ := List.exists_of_findSome?_eq_some h
    simpa using List.find?_some hk

end LexicalLisp
