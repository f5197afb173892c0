import Mathlib.Algebra.Order.Ring.Abs
import Mathlib.Algebra.Order.Ring.Int
import Mathlib.Tactic.Ring
import Mathlib.Tactic.Linarith

namespace LedgerQrl.Foundation

/-! # Montgomery reduction

Division by the radix in modular arithmetic: a multiple of the modulus is
subtracted that makes the difference divisible by the radix. -/

section Montgomery

variable {modulus inverse radix : ℤ}

/-- With `inverse` the inverse of the modulus and `t` congruent to
`a * inverse`, the difference `a - t * modulus` is divisible. -/
theorem montgomery_dvd (inverts : radix ∣ modulus * inverse - 1) {a t : ℤ}
    (congruent : radix ∣ t - a * inverse) : radix ∣ a - t * modulus := by
  obtain ⟨k, product⟩ := inverts
  obtain ⟨l, difference⟩ := congruent
  refine ⟨-(k * a + l * modulus), ?_⟩
  have expand : a - t * modulus =
      -(a * (modulus * inverse - 1)) - (t - a * inverse) * modulus := by ring
  rw [expand, product, difference]
  ring

theorem montgomery_mul (inverts : radix ∣ modulus * inverse - 1) {a t : ℤ}
    (congruent : radix ∣ t - a * inverse) :
    (a - t * modulus) / radix * radix = a - t * modulus :=
  Int.ediv_mul_cancel (montgomery_dvd inverts congruent)

/-- For `t` at most half the radix the quotient is small. -/
theorem montgomery_abs (positive : 0 < radix) (nonneg : 0 ≤ modulus)
    (inverts : radix ∣ modulus * inverse - 1) {a t half : ℤ}
    (congruent : radix ∣ t - a * inverse) (bound : |t| ≤ half) :
    |(a - t * modulus) / radix| * radix ≤ |a| + half * modulus := by
  have exactly := montgomery_mul inverts congruent
  calc |(a - t * modulus) / radix| * radix
      = |a - t * modulus| := by
        rw [← abs_of_pos positive, ← abs_mul, abs_of_pos positive, exactly]
    _ ≤ |a| + |t * modulus| := abs_sub _ _
    _ ≤ |a| + half * modulus := by
        rw [abs_mul, abs_of_nonneg nonneg]
        exact add_le_add le_rfl (mul_le_mul_of_nonneg_right bound nonneg)

end Montgomery

end LedgerQrl.Foundation
