import Mathlib

/-!
# Saturating arithmetic

Arithmetic that stops at a bound instead of wrapping, as the `saturating_*` methods of machine
integers do: the result of an operation is its exact value or the bound, whichever is smaller.
Saturating commutes with addition, multiplication and powers of naturals (and, by Mathlib's
`min_max_distrib_right` and `min_min_distrib_right`, with maximum and minimum): saturating the
arguments first and the result once more gives the exact result saturated.  So an expression
evaluated with saturating operations is its exact value saturated once, and sums folded with a
saturating addition are the exact sums saturated.
-/

namespace Saturating

theorem min_add_min (a b bound : Nat) :
    min (min a bound + min b bound) bound = min (a + b) bound := by
  omega

/-- Saturating one factor first changes nothing once the product is saturated. -/
theorem min_mul_min_right (a b bound : Nat) :
    min (a * min b bound) bound = min (a * b) bound := by
  rcases le_total b bound with within | above
  · rw [Nat.min_eq_left within]
  rw [Nat.min_eq_right above]
  rcases Nat.eq_zero_or_pos a with rfl | positive
  · simp
  have saturated : bound ≤ a * bound := Nat.le_mul_of_pos_left bound positive
  have exact : a * bound ≤ a * b := Nat.mul_le_mul_left a above
  omega

theorem min_mul_min (a b bound : Nat) :
    min (min a bound * min b bound) bound = min (a * b) bound := by
  rw [min_mul_min_right, Nat.mul_comm, min_mul_min_right, Nat.mul_comm]

theorem min_pow_min (a n bound : Nat) : min (min a bound ^ n) bound = min (a ^ n) bound := by
  by_cases within : a ≤ bound
  · rw [Nat.min_eq_left within]
  rcases Nat.eq_zero_or_pos n with rfl | positive
  · simp
  have exactAbove : bound ≤ a ^ n :=
    le_trans (Nat.le_of_not_le within) (Nat.le_self_pow (Nat.pos_iff_ne_zero.mp positive) a)
  have saturatedAbove : bound ≤ min a bound ^ n := by
    rw [Nat.min_eq_right (Nat.le_of_not_le within)]
    exact Nat.le_self_pow (Nat.pos_iff_ne_zero.mp positive) bound
  rw [Nat.min_eq_right exactAbove, Nat.min_eq_right saturatedAbove]

end Saturating
