import LexicalLisp.Decimal.Shortest

/-!
# Rounding decimals

The double nearest to a decimal depends on the value of the decimal alone, not on how many zeros
its digits end with. Decimals of extreme scale are rounded without computing their power of ten;
the shortcuts agree with the rounding they replace, so one equation covers every decimal.

Nothing is said here about which decimals read as one double. What matters for texts is that
moving zeros between the digits and the scale changes nothing.
-/

namespace LexicalLisp

/-- Equal quotients have one nearest pattern. -/
theorem nearestPattern_eq_of_mul_eq {num den num' den' : Nat} (hden : 0 < den) (hden' : 0 < den')
    (h : num * den' = num' * den) : nearestPattern num den = nearestPattern num' den' := by
  rw [← nearestPattern_mul_mul hden' num den, ← nearestPattern_mul_mul hden num' den', h,
    Nat.mul_comm den den']

/-- Rounding never falls below the whole quotient. -/
theorem div_le_roundHalfEven (num den : Nat) : num / den ≤ roundHalfEven num den := by
  unfold roundHalfEven
  simp only
  split
  · exact Nat.le_refl _
  · split
    · exact Nat.le_succ _
    · exact Nat.le_add_right _ _

/-- A magnitude of less than half a unit is nearest to zero. -/
theorem nearestPattern_of_lt_half {num den : Nat} (h : 2 * num < den) :
    nearestPattern num den = 0 := by
  have hsmall : num < den := by omega
  have hround : roundHalfEven num den = 0 := by
    simp [roundHalfEven, Nat.div_eq_of_lt hsmall, Nat.mod_eq_of_lt hsmall, h]
  simp [nearestPattern, Nat.div_eq_of_lt hsmall, power_zero, hround]

/-- A magnitude of 2 to the 2098th units, or 2 to the 1024th, is nearest to infinity. -/
theorem nearestPattern_of_overflow {num : Nat} (h : power 2 2098 ≤ num) :
    nearestPattern num 1 = infinityPattern := by
  have hne : num ≠ 0 := by
    have hpos : 0 < power 2 2098 := power_pos (by omega) _
    omega
  have hlog : 2098 ≤ num.log2 := (le_log2_iff_power_le hne 2098).mpr h
  have hsignificand : leadingBit ≤ roundHalfEven num (1 * power 2 (num.log2 - 52)) := by
    refine Nat.le_trans ?_ (div_le_roundHalfEven _ _)
    rw [Nat.one_mul, Nat.le_div_iff_mul_le (power_pos (by omega) _), leadingBit_eq_power,
      ← power_add, ← le_log2_iff_power_le hne]
    omega
  have hexponent : 2046 * leadingBit ≤ (num.log2 - 52) * leadingBit :=
    Nat.mul_le_mul_right _ (by omega)
  have hinfinity : infinityPattern = 2046 * leadingBit + leadingBit := by decide
  simp only [nearestPattern, Nat.div_one]
  omega

/-- Nothing is nearest to zero. -/
theorem nearestPattern_zero (den : Nat) : nearestPattern 0 den = 0 := by
  have hround : roundHalfEven 0 (den * power 2 0) = 0 := by
    simp only [roundHalfEven, Nat.zero_div, Nat.zero_mod]
    split <;> simp
  simp [nearestPattern, hround]

/-- From 10 to the 309th on, rounding comes to infinity. -/
theorem nearestPattern_of_large_scale {n k : Nat} (hn : n ≠ 0) (hk : 309 ≤ k) :
    nearestPattern (n * power 10 k * power 2 unitExponent) 1 = infinityPattern := by
  have hbound : power 2 1024 ≤ power 10 309 := by decide +kernel
  have hrest : 0 < power 10 (k - 309) := power_pos (by omega) _
  have hpower : power 2 1024 ≤ power 10 k := by
    rw [show k = 309 + (k - 309) by omega, power_add]
    exact Nat.le_trans hbound (Nat.le_mul_of_pos_right _ hrest)
  apply nearestPattern_of_overflow
  rw [show 2098 = 1024 + unitExponent by decide, power_add]
  exact Nat.mul_le_mul_right _
    (Nat.le_trans hpower (Nat.le_mul_of_pos_left _ (Nat.pos_of_ne_zero hn)))

/-- Below 10 to the -324th, rounding comes to zero. -/
theorem nearestPattern_of_small_scale {n k : Nat} (hn : n ≠ 0) (hk : n.log2 + 1 + 324 ≤ k) :
    nearestPattern (n * power 2 unitExponent) (power 10 k) = 0 := by
  have hbound : 2 * power 2 unitExponent < power 10 324 := by decide +kernel
  have hdigits : n ≤ power 10 (n.log2 + 1) :=
    Nat.le_trans (Nat.le_of_lt ((log2_lt_iff_lt_power hn _).mp (Nat.lt_succ_self _)))
      (power_le_power (by omega) _)
  have hrest : 0 < power 10 (k - (n.log2 + 1 + 324)) := power_pos (by omega) _
  apply nearestPattern_of_lt_half
  calc 2 * (n * power 2 unitExponent)
      = n * (2 * power 2 unitExponent) := Nat.mul_left_comm _ _ _
    _ < n * power 10 324 := Nat.mul_lt_mul_of_pos_left hbound (Nat.pos_of_ne_zero hn)
    _ ≤ power 10 (n.log2 + 1) * power 10 324 := Nat.mul_le_mul_right _ hdigits
    _ ≤ power 10 (n.log2 + 1) * power 10 324 * power 10 (k - (n.log2 + 1 + 324)) :=
      Nat.le_mul_of_pos_right _ hrest
    _ = power 10 k := by rw [← power_add, ← power_add, Nat.add_sub_cancel' hk]

/-- A decimal with digits before the point only is rounded as a whole number. -/
theorem Decimal.pattern_of_whole (n k : Nat) :
    Decimal.pattern ⟨n, k⟩ = nearestPattern (n * power 10 k * power 2 unitExponent) 1 := by
  by_cases hzero : n = 0
  · subst hzero
    rw [Nat.zero_mul, Nat.zero_mul, nearestPattern_zero]
    rfl
  · unfold pattern
    simp only [if_neg hzero]
    by_cases hlarge : 309 ≤ (k : Int)
    · rw [if_pos hlarge, nearestPattern_of_large_scale hzero (by omega)]
    · rw [if_neg hlarge, if_neg (by omega), if_pos (by omega), Int.toNat_natCast]

/-- A decimal with digits after the point is rounded as a fraction. -/
theorem Decimal.pattern_of_fraction (n k : Nat) :
    Decimal.pattern ⟨n, -k⟩ = nearestPattern (n * power 2 unitExponent) (power 10 k) := by
  by_cases hzero : n = 0
  · subst hzero
    rw [Nat.zero_mul, nearestPattern_zero]
    rfl
  · unfold pattern
    simp only [if_neg hzero]
    by_cases hsmall : n.log2 + 1 + -(k : Int) ≤ -324
    · rw [if_neg (by omega), if_pos hsmall, nearestPattern_of_small_scale hzero (by omega)]
    · rw [if_neg (by omega), if_neg hsmall]
      by_cases hk : k = 0
      · subst hk
        simp [power_zero]
      · rw [if_neg (by omega), Int.neg_neg, Int.toNat_natCast]

/-- The pattern of a decimal is nearest to its value, however its scale is made up. -/
theorem Decimal.pattern_eq_nearestPattern (n : Nat) {scale : Int} {up down : Nat}
    (h : scale = (up : Int) - down) :
    Decimal.pattern ⟨n, scale⟩ =
      nearestPattern (n * power 10 up * power 2 unitExponent) (power 10 down) := by
  have hpos (k : Nat) : 0 < power 10 k := power_pos (by omega) k
  by_cases hle : down ≤ up
  · obtain ⟨k, rfl⟩ := Nat.exists_eq_add_of_le hle
    rw [show scale = (k : Int) by omega, pattern_of_whole]
    apply nearestPattern_eq_of_mul_eq Nat.one_pos (hpos down)
    rw [power_add]
    generalize power 2 unitExponent = unit
    ac_rfl
  · obtain ⟨k, rfl⟩ := Nat.exists_eq_add_of_le (Nat.le_of_not_le hle)
    rw [show scale = -(k : Int) by omega, pattern_of_fraction]
    apply nearestPattern_eq_of_mul_eq (hpos k) (hpos (up + k))
    rw [power_add]
    generalize power 2 unitExponent = unit
    ac_rfl

/-- Zeros may be moved from the digits of a decimal to its scale. -/
theorem Decimal.pattern_mul_power (n k : Nat) (scale : Int) :
    Decimal.pattern ⟨n * power 10 k, scale⟩ = Decimal.pattern ⟨n, scale + k⟩ := by
  have hscale : scale = (scale.toNat : Int) - (-scale).toNat := by omega
  have hshifted : scale + k = ((k + scale.toNat : Nat) : Int) - (-scale).toNat := by omega
  rw [pattern_eq_nearestPattern _ hscale, pattern_eq_nearestPattern _ hshifted, power_add,
    ← Nat.mul_assoc]

end LexicalLisp
