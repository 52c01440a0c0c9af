/-!
# Powers of whole numbers

Units, significands and scales are all powers of small numbers. Each law is stated for this one
function, so that nothing else has to know how a power is computed.
-/

namespace LexicalLisp

/-- `base` to the power of `exponent`. -/
def power (base exponent : Nat) : Nat :=
  Nat.pow base exponent

/-- A power of a positive number is positive. -/
theorem power_pos {base : Nat} (hbase : 0 < base) (exponent : Nat) : 0 < power base exponent :=
  Nat.pow_pos hbase

/-- The power with exponent zero is one. -/
theorem power_zero (base : Nat) : power base 0 = 1 :=
  rfl

/-- Exponents add up where powers are multiplied. -/
theorem power_add (base j k : Nat) : power base (j + k) = power base j * power base k :=
  Nat.pow_add base j k

/-- The power of a product is the product of the powers. -/
theorem mul_power (a b exponent : Nat) :
    power (a * b) exponent = power a exponent * power b exponent :=
  Nat.mul_pow a b exponent

/-- Powers grow with their base. -/
theorem power_le_power {a b : Nat} (h : a ≤ b) (exponent : Nat) :
    power a exponent ≤ power b exponent :=
  Nat.pow_le_pow_left h exponent

/-- A binary logarithm is below an exponent just where the number is below the power of two. -/
theorem log2_lt_iff_lt_power {n : Nat} (hn : n ≠ 0) (k : Nat) : n.log2 < k ↔ n < power 2 k :=
  Nat.log2_lt hn

/-- A binary logarithm reaches an exponent just where the number reaches the power of two. -/
theorem le_log2_iff_power_le {n : Nat} (hn : n ≠ 0) (k : Nat) : k ≤ n.log2 ↔ power 2 k ≤ n :=
  Nat.le_log2 hn

end LexicalLisp
