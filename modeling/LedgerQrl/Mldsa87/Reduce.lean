import LedgerQrl.Foundation.Montgomery
import LedgerQrl.Mldsa87.Ring

namespace LedgerQrl.Mldsa87

open Foundation

/-! # What the reductions compute

For each function of `reduce.c` the element of `Z_q` it keeps and the range of
its result. -/

/-- Largest products that `montgomeryReduce` takes: `2^31 * q`. -/
def montgomeryLimit : Int := 2147483648 * qConst

private theorem montgomeryFactor_spec (a : Int) :
    (4294967296 : Int) ∣ i32 (i32 a * qInv) - a * qInv ∧
      |i32 (i32 a * qInv)| ≤ 2147483648 := by
  have inner := i32_emod a
  have outer := i32_emod (i32 a * qInv)
  constructor
  · have product : (4294967296 : Int) ∣ i32 a * qInv - a * qInv := by
      rw [← Int.sub_mul]
      exact Dvd.dvd.mul_right (Int.dvd_of_emod_eq_zero (by omega)) _
    have wrapped : (4294967296 : Int) ∣ i32 (i32 a * qInv) - i32 a * qInv :=
      Int.dvd_of_emod_eq_zero (by omega)
    have total := Int.dvd_add wrapped product
    rwa [sub_add_sub_cancel] at total
  · have range := i32_inInt32 (i32 a * qInv)
    rw [InInt32] at range
    rw [abs_le]
    omega

private theorem qInv_inverts : (4294967296 : Int) ∣ qConst * qInv - 1 := by
  decide

/-- The quotient is exact and in range. -/
theorem montgomeryReduce_exact {a : Int} (bound : |a| ≤ montgomeryLimit) :
    montgomeryReduce a * 4294967296 =
        a - i32 (i32 a * qInv) * qConst ∧
      |montgomeryReduce a| * 4294967296 ≤ |a| + 2147483648 * qConst := by
  obtain ⟨congruent, small⟩ := montgomeryFactor_spec a
  have exactly := montgomery_mul qInv_inverts congruent
  have bounded := montgomery_abs (by norm_num) (by norm_num [qConst])
    qInv_inverts congruent small
  have inRange : i32 ((a - i32 (i32 a * qInv) * qConst) / 4294967296) =
      (a - i32 (i32 a * qInv) * qConst) / 4294967296 := by
    apply i32_of_abs_lt
    rw [montgomeryLimit] at bound
    have limit : qConst = 8380417 := rfl
    rw [limit] at bound bounded ⊢
    omega
  have unfolded : montgomeryReduce a =
      (a - i32 (i32 a * qInv) * qConst) / 4294967296 := by
    rw [montgomeryReduce, sar]
    exact inRange
  rw [unfolded]
  exact ⟨exactly, bounded⟩

theorem cast_montgomeryReduce {a : Int} (bound : |a| ≤ montgomeryLimit) :
    (montgomeryReduce a : Zq) = (a : Zq) * radixInv := by
  have exactly := congrArg (Int.cast : Int → Zq) (montgomeryReduce_exact bound).1
  push_cast at exactly
  rw [intCast_qConst, mul_zero, sub_zero] at exactly
  rw [← exactly, mul_assoc, radix_mul_radixInv, mul_one]

theorem montgomeryReduce_abs_le {a limit : Int} (bound : |a| ≤ montgomeryLimit)
    (small : |a| + 2147483648 * qConst ≤ limit * 4294967296) :
    |montgomeryReduce a| ≤ limit := by
  have bounded := (montgomeryReduce_exact bound).2
  omega

theorem montgomeryReduce_abs_le_q {a : Int} (bound : |a| ≤ montgomeryLimit) :
    |montgomeryReduce a| ≤ qConst := by
  apply montgomeryReduce_abs_le bound
  rw [montgomeryLimit] at bound
  omega

theorem abs_mul_le_montgomeryLimit {a b left right : Int} (first : |a| ≤ left)
    (second : |b| ≤ right) (product : left * right ≤ montgomeryLimit) :
    |a * b| ≤ montgomeryLimit := by
  rw [abs_mul]
  have nonneg : 0 ≤ left := (abs_nonneg a).trans first
  exact (mul_le_mul first second (abs_nonneg b) nonneg).trans product

/-! ## `reduce_32` and `c_addq` -/

/-- Largest argument of `reduce_32`: `2^31 - 2^22 - 1`. -/
def reduceLimit : Int := 2143289343

theorem reduce32_exact {a : Int} (bound : |a| ≤ reduceLimit) :
    reduce32 a = a - (a + 4194304) / 8388608 * qConst := by
  rw [reduceLimit, abs_le] at bound
  rw [reduce32, sar]
  have first : i32 (a + 4194304) = a + 4194304 :=
    i32_of_inInt32 ⟨by omega, by omega⟩
  simp only [first, qConst, Int.reducePow]
  have product : i32 ((a + 4194304) / 8388608 * 8380417) =
      (a + 4194304) / 8388608 * 8380417 :=
    i32_of_inInt32 ⟨by omega, by omega⟩
  rw [product]
  exact i32_of_inInt32 ⟨by omega, by omega⟩

theorem cast_reduce32 {a : Int} (bound : |a| ≤ reduceLimit) :
    (reduce32 a : Zq) = (a : Zq) := by
  rw [reduce32_exact bound]
  push_cast
  rw [intCast_qConst, mul_zero, sub_zero]

theorem reduce32_abs_le {a : Int} (bound : |a| ≤ reduceLimit) :
    |reduce32 a| ≤ 6283008 := by
  rw [reduce32_exact bound, abs_le, qConst]
  rw [reduceLimit, abs_le] at bound
  omega

theorem cAddq_eq {a : Int} (bound : |a| ≤ qConst) :
    cAddq a = if a < 0 then a + qConst else a := by
  rw [qConst, abs_le] at bound
  rw [cAddq, sar_31 ⟨by omega, by omega⟩]
  split
  · rw [neg_one_land, qConst]
    exact i32_of_inInt32 ⟨by omega, by omega⟩
  · rw [zero_land, add_zero]
    exact i32_of_inInt32 ⟨by omega, by omega⟩

theorem cast_cAddq {a : Int} (bound : |a| ≤ qConst) :
    (cAddq a : Zq) = (a : Zq) := by
  rw [cAddq_eq bound]
  split
  · push_cast
    rw [intCast_qConst, add_zero]
  · rfl

/-- The conditional addition of `q` reaches `[0, q)` from `(-q, q)`. -/
theorem cAddq_range {a : Int} (bound : |a| < qConst) :
    0 ≤ cAddq a ∧ cAddq a < qConst := by
  rw [cAddq_eq bound.le]
  rw [abs_lt] at bound
  split <;> omega

end LedgerQrl.Mldsa87
