import LedgerQrl.Foundation.Transform
import Mathlib.GroupTheory.OrderOfElement
import Mathlib.RingTheory.RootsOfUnity.PrimitiveRoots
import Mathlib.Tactic.Ring

namespace LedgerQrl.Foundation

/-! # Bit reversal and the points of a tree of roots

A transform whose twiddles are the powers of one root, in the order of their
reversed bits, evaluates at the odd powers of that root. -/

/-- The lowest `bits` bits of an index in the opposite order. -/
def reversed : ℕ → ℕ → ℕ
  | 0, _ => 0
  | bits + 1, index => reversed bits (index / 2) + 2 ^ bits * (index % 2)

theorem reversed_lt (bits index : ℕ) : reversed bits index < 2 ^ bits := by
  induction bits generalizing index with
  | zero => simp [reversed]
  | succ bits induction =>
      have rest := induction (index / 2)
      have low : index % 2 = 0 ∨ index % 2 = 1 := Nat.mod_two_eq_zero_or_one index
      rw [reversed, pow_succ]
      cases low with
      | inl even => rw [even]; omega
      | inr odd => rw [odd]; omega

theorem reversed_high (bits : ℕ) : ∀ index < 2 ^ bits, ∀ high < 2,
    reversed (bits + 1) (2 ^ bits * high + index) =
      2 * reversed bits index + high := by
  induction bits with
  | zero =>
      intro index bound high highBound
      have zero : index = 0 := by simpa using bound
      subst zero
      simp only [reversed, pow_zero]
      omega
  | succ bits induction =>
      intro index bound high highBound
      have halved : (2 ^ (bits + 1) * high + index) / 2 =
          2 ^ bits * high + index / 2 := by
        rw [pow_succ, mul_comm (2 ^ bits) 2, mul_assoc]
        omega
      have low : (2 ^ (bits + 1) * high + index) % 2 = index % 2 := by
        rw [pow_succ, mul_comm (2 ^ bits) 2, mul_assoc]
        omega
      have halfBound : index / 2 < 2 ^ bits := by
        rw [pow_succ] at bound
        omega
      calc reversed (bits + 1 + 1) (2 ^ (bits + 1) * high + index)
          = reversed (bits + 1) (2 ^ bits * high + index / 2) +
              2 ^ (bits + 1) * (index % 2) := by
            rw [reversed, halved, low]
        _ = 2 * (reversed bits (index / 2) + 2 ^ bits * (index % 2)) + high := by
            rw [induction (index / 2) halfBound high highBound]
            ring
        _ = 2 * reversed (bits + 1) index + high := by
            rw [reversed]

theorem reversed_reversed (bits : ℕ) :
    ∀ index < 2 ^ bits, reversed bits (reversed bits index) = index := by
  induction bits with
  | zero =>
      intro index bound
      have zero : index = 0 := by simpa using bound
      rw [zero, reversed]
  | succ bits induction =>
      intro index bound
      have halfBound : index / 2 < 2 ^ bits := by
        rw [pow_succ] at bound
        omega
      calc reversed (bits + 1) (reversed (bits + 1) index)
          = reversed (bits + 1)
              (2 ^ bits * (index % 2) + reversed bits (index / 2)) := by
            congr 1
            exact add_comm _ _
        _ = 2 * reversed bits (reversed bits (index / 2)) + index % 2 :=
            reversed_high bits _ (reversed_lt bits _) _ (Nat.mod_lt _ (by omega))
        _ = index := by
            rw [induction _ halfBound]
            omega

section Points

variable {R : Type*} [CommRing R] {depth : ℕ} {twiddle : ℕ → R} {root : R}

def leafPoint (depth : ℕ) (root : R) (leaf : ℕ) : R :=
  root ^ (2 * reversed depth leaf + 1)

/-- Twiddles in bit-reversed order put the odd powers of the root at the
leaves. -/
theorem nodeRoot_leaf (half : root ^ 2 ^ (depth + 1) = -1)
    (powers : ∀ node < 2 ^ (depth + 1), node ≠ 0 →
      twiddle node = root ^ reversed (depth + 1) node)
    {leaf : ℕ} (bound : leaf < 2 ^ (depth + 1)) :
    nodeRoot twiddle (2 ^ (depth + 1) + leaf) =
      leafPoint (depth + 1) root leaf := by
  have doubled : 2 ^ (depth + 1) = 2 * 2 ^ depth := pow_succ' 2 depth
  have positive : 0 < 2 ^ depth := by positivity
  have parent : (2 ^ (depth + 1) + leaf) / 2 = 2 ^ depth * 1 + leaf / 2 := by
    omega
  have parity : (2 ^ (depth + 1) + leaf) % 2 = leaf % 2 := by omega
  have parentTwiddle : twiddle (2 ^ depth * 1 + leaf / 2) =
      root ^ (2 * reversed depth (leaf / 2) + 1) := by
    rw [powers _ (by omega) (by omega),
      reversed_high depth (leaf / 2) (by omega) 1 (by omega)]
  rw [nodeRoot, if_neg (by omega), parent, parity, parentTwiddle, leafPoint,
    reversed]
  cases Nat.mod_two_eq_zero_or_one leaf with
  | inl even => rw [even, if_pos rfl, mul_zero, add_zero]
  | inr odd =>
      rw [odd, if_neg one_ne_zero]
      calc -root ^ (2 * reversed depth (leaf / 2) + 1)
          = root ^ 2 ^ (depth + 1) * root ^ (2 * reversed depth (leaf / 2) + 1) := by
            rw [half, neg_one_mul]
        _ = root ^ (2 * (reversed depth (leaf / 2) + 2 ^ depth * 1) + 1) := by
            rw [← pow_add, doubled]
            congr 1
            ring

theorem isPrimitiveRoot_of_half (two : (2 : R) ≠ 0)
    (half : root ^ 2 ^ depth = -1) : IsPrimitiveRoot root (2 ^ (depth + 1)) := by
  have notOne : ¬root ^ 2 ^ depth = 1 := by
    intro one
    apply two
    rw [half] at one
    linear_combination -one
  have full : root ^ 2 ^ (depth + 1) = 1 := by
    rw [pow_succ, pow_mul, half, neg_one_sq]
  have order : orderOf root = 2 ^ (depth + 1) :=
    orderOf_eq_prime_pow notOne full
  rw [← order]
  exact IsPrimitiveRoot.orderOf root

variable [IsDomain R]

/-- Each root of `X ^ n + 1` is the point of exactly one leaf. -/
theorem existsUnique_leaf (two : (2 : R) ≠ 0) (half : root ^ 2 ^ depth = -1)
    {point : R} (isRoot : point ^ 2 ^ depth = -1) :
    ∃! leaf : Fin (2 ^ depth), leafPoint depth root leaf = point := by
  have primitive := isPrimitiveRoot_of_half two half
  have doubled : 2 ^ (depth + 1) = 2 * 2 ^ depth := pow_succ' 2 depth
  have full : point ^ 2 ^ (depth + 1) = 1 := by
    rw [pow_succ, pow_mul, isRoot, neg_one_sq]
  obtain ⟨power, powerBound, isPower⟩ := primitive.eq_pow_of_pow_eq_one full
  have odd : power % 2 = 1 := by
    cases Nat.mod_two_eq_zero_or_one power with
    | inr odd => exact odd
    | inl even =>
        exfalso
        apply two
        have square : point ^ 2 ^ depth = 1 := by
          calc point ^ 2 ^ depth = (root ^ 2 ^ depth) ^ power := by
                rw [← isPower, ← pow_mul, ← pow_mul, mul_comm]
            _ = ((-1) ^ 2) ^ (power / 2) := by
                rw [half, ← pow_mul]
                congr 1
                omega
            _ = 1 := by rw [neg_one_sq, one_pow]
        rw [isRoot] at square
        linear_combination -square
  have indexBound : power / 2 < 2 ^ depth := by omega
  refine ⟨⟨reversed depth (power / 2), reversed_lt depth _⟩, ?_, ?_⟩
  · simp only [leafPoint]
    rw [reversed_reversed depth _ indexBound, ← isPower]
    congr 1
    omega
  · intro leaf same
    apply Fin.ext
    have leafBound := reversed_lt depth leaf
    rw [leafPoint, ← isPower] at same
    have powers := primitive.pow_inj (by omega) powerBound same
    calc leaf.val = reversed depth (reversed depth leaf) :=
          (reversed_reversed depth leaf leaf.isLt).symm
      _ = reversed depth (power / 2) := by
          congr 1
          omega

end Points

end LedgerQrl.Foundation
