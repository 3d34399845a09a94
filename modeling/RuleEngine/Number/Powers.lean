/-!
# Powers of two and ten

The two bases of the number formats, as functions of the exponent.
-/

namespace RuleEngine

/-- A power of two. -/
def twoPow (n : Nat) : Nat := Nat.pow 2 n

/-- A power of ten. -/
def tenPow (n : Nat) : Nat := Nat.pow 10 n

theorem twoPow_zero : twoPow 0 = 1 := rfl

theorem tenPow_zero : tenPow 0 = 1 := rfl

/-- The next power of two doubles. -/
theorem twoPow_succ (n : Nat) : twoPow (n + 1) = twoPow n * 2 := rfl

/-- The next power of ten has one zero more. -/
theorem tenPow_succ (n : Nat) : tenPow (n + 1) = tenPow n * 10 := rfl

/-- Powers of two multiply by adding their exponents. -/
theorem twoPow_add (m n : Nat) : twoPow (m + n) = twoPow m * twoPow n := Nat.pow_add 2 m n

/-- Powers of ten do the same. -/
theorem tenPow_add (m n : Nat) : tenPow (m + n) = tenPow m * tenPow n := Nat.pow_add 10 m n

/-- Powers of two ascend. -/
theorem twoPow_lt {m n : Nat} (h : m < n) : twoPow m < twoPow n :=
  Nat.pow_lt_pow_right (by decide) h

theorem twoPow_le {m n : Nat} (h : m ≤ n) : twoPow m ≤ twoPow n :=
  Nat.pow_le_pow_right (by decide) h

theorem tenPow_le {m n : Nat} (h : m ≤ n) : tenPow m ≤ tenPow n :=
  Nat.pow_le_pow_right (by decide) h

/-- A power of ten is a power of five times a power of two. -/
theorem tenPow_eq_mul (n : Nat) : tenPow n = Nat.pow 5 n * twoPow n := Nat.mul_pow 5 2 n

/-- A power of two is at most that of ten with the same exponent. -/
theorem twoPow_le_tenPow (n : Nat) : twoPow n ≤ tenPow n := Nat.pow_le_pow_left (by decide) n

theorem twoPow_pos (n : Nat) : 0 < twoPow n := by
  induction n with
  | zero => exact Nat.one_pos
  | succ n ih => rw [twoPow_succ]; omega

theorem tenPow_pos (n : Nat) : 0 < tenPow n := by
  induction n with
  | zero => exact Nat.one_pos
  | succ n ih => rw [tenPow_succ]; omega

end RuleEngine
