import Mathlib.Data.Int.Bitwise
import Mathlib.Tactic.Ring
import Mathlib.Tactic.Linarith

namespace LedgerQrl.Foundation

/-! # C integers as mathematical integers

A signed machine word is an `Int` kept in its range by an explicit conversion
after every operation that may leave it. Bit operations are the two's
complement ones of `Int`, which agree with the machine's on that range. -/

/-- Conversion to `int32_t`: the representative in `[-2^31, 2^31)`. -/
def i32 (value : Int) : Int :=
  (value + 2147483648) % 4294967296 - 2147483648

/-- Conversion to `uint32_t`. -/
def u32 (value : Int) : Nat := (value % 4294967296).toNat

/-- Conversion to `uint8_t`. -/
def u8 (value : Int) : UInt8 := UInt8.ofNat (value % 256).toNat

/-- The values an `int32_t` can hold. -/
def InInt32 (value : Int) : Prop :=
  -2147483648 ≤ value ∧ value < 2147483648

theorem i32_inInt32 (value : Int) : InInt32 (i32 value) := by
  unfold InInt32 i32
  omega

theorem i32_of_inInt32 {value : Int} (bound : InInt32 value) :
    i32 value = value := by
  unfold InInt32 at bound
  unfold i32
  omega

theorem i32_of_abs_lt {value : Int} (bound : |value| < 2147483648) :
    i32 value = value := by
  rw [abs_lt] at bound
  exact i32_of_inInt32 ⟨by omega, by omega⟩

theorem i32_emod (value : Int) : i32 value % 4294967296 = value % 4294967296 := by
  unfold i32
  omega

@[simp] theorem u32_natCast {value : Nat} (bound : value < 4294967296) :
    u32 (value : Int) = value := by
  unfold u32
  omega

theorem toNat_u8 (value : Int) : (u8 value).toNat = (value % 256).toNat := by
  unfold u8
  rw [UInt8.toNat_ofNat']
  omega

/-! ## Shifts -/

/-- The arithmetic shift `value >> count` of a signed word. -/
def sar (value : Int) (count : Nat) : Int := value / 2 ^ count

/-- The shift `value << count` of an `int32_t`. -/
def shl (value : Int) (count : Nat) : Int := i32 (value * 2 ^ count)

theorem sar_31 {value : Int} (bound : InInt32 value) :
    sar value 31 = if value < 0 then -1 else 0 := by
  unfold InInt32 at bound
  unfold sar
  split <;> omega

/-! ## Masks

The branchless helpers select with masks that are all zeros or all ones. -/

@[simp] theorem land_zero (value : Int) : Int.land value 0 = 0 := by
  cases value with
  | ofNat magnitude =>
      change ((magnitude &&& 0 : Nat) : Int) = 0
      simp
  | negSucc magnitude =>
      change ((Nat.ldiff 0 magnitude : Nat) : Int) = 0
      simp [Nat.ldiff]

@[simp] theorem land_neg_one (value : Int) : Int.land value (-1) = value := by
  cases value with
  | ofNat magnitude =>
      change ((Nat.ldiff magnitude 0 : Nat) : Int) = magnitude
      congr 1
      apply Nat.eq_of_testBit_eq
      simp [Nat.testBit_ldiff]
  | negSucc magnitude =>
      change Int.negSucc (magnitude ||| 0) = Int.negSucc magnitude
      simp

@[simp] theorem zero_land (value : Int) : Int.land 0 value = 0 := by
  cases value with
  | ofNat magnitude =>
      change ((0 &&& magnitude : Nat) : Int) = 0
      simp
  | negSucc magnitude =>
      change ((Nat.ldiff 0 magnitude : Nat) : Int) = 0
      simp [Nat.ldiff]

@[simp] theorem neg_one_land (value : Int) : Int.land (-1) value = value := by
  cases value with
  | ofNat magnitude =>
      change ((Nat.ldiff magnitude 0 : Nat) : Int) = magnitude
      congr 1
      apply Nat.eq_of_testBit_eq
      simp [Nat.testBit_ldiff]
  | negSucc magnitude =>
      change Int.negSucc (0 ||| magnitude) = Int.negSucc magnitude
      simp

@[simp] theorem lor_zero (value : Int) : Int.lor value 0 = value := by
  cases value with
  | ofNat magnitude =>
      change ((magnitude ||| 0 : Nat) : Int) = magnitude
      simp
  | negSucc magnitude =>
      change Int.negSucc (Nat.ldiff magnitude 0) = Int.negSucc magnitude
      congr 1
      apply Nat.eq_of_testBit_eq
      simp [Nat.testBit_ldiff]

@[simp] theorem zero_lor (value : Int) : Int.lor 0 value = value := by
  cases value with
  | ofNat magnitude =>
      change ((0 ||| magnitude : Nat) : Int) = magnitude
      simp
  | negSucc magnitude =>
      change Int.negSucc (Nat.ldiff magnitude 0) = Int.negSucc magnitude
      congr 1
      apply Nat.eq_of_testBit_eq
      simp [Nat.testBit_ldiff]

@[simp] theorem land_natCast (left right : Nat) :
    Int.land (left : Int) (right : Int) = ((left &&& right : Nat) : Int) := rfl

@[simp] theorem lor_natCast (left right : Nat) :
    Int.lor (left : Int) (right : Int) = ((left ||| right : Nat) : Int) := rfl

theorem land_mask {value : Int} (nonneg : 0 ≤ value) (count : Nat) :
    Int.land value ((2 ^ count - 1 : Nat) : Int) = value % 2 ^ count := by
  obtain ⟨magnitude, rfl⟩ := Int.eq_ofNat_of_zero_le nonneg
  rw [land_natCast, Nat.and_two_pow_sub_one_eq_mod]
  push_cast
  rfl

/-- `value | -value` is negative unless `value` is zero: the branchless test
for a non-zero word. -/
theorem lor_neg_self_neg_iff (value : Int) :
    Int.lor value (-value) < 0 ↔ value ≠ 0 := by
  rcases value with magnitude | magnitude
  · cases magnitude with
    | zero => decide
    | succ magnitude =>
        constructor
        · intro _ zero
          exact absurd zero (by simp; omega)
        · intro _
          exact Int.negSucc_lt_zero _
  · constructor
    · intro _ zero
      exact absurd zero (by simp)
    · intro _
      exact Int.negSucc_lt_zero _

theorem lor_neg_self_inInt32 {value : Int} (bound : |value| < 2147483648) :
    InInt32 (Int.lor value (-value)) := by
  have ldiffLe : ∀ left right : Nat, Nat.ldiff left right ≤ left := by
    intro left right
    apply Nat.le_of_testBit
    intro index set
    rw [Nat.testBit_ldiff, Bool.and_eq_true] at set
    exact set.1
  rw [abs_lt] at bound
  rcases value with magnitude | magnitude
  · cases magnitude with
    | zero =>
        change InInt32 0
        exact ⟨by omega, by omega⟩
    | succ magnitude =>
        have small := ldiffLe magnitude (magnitude + 1)
        change InInt32 (Int.negSucc (Nat.ldiff magnitude (magnitude + 1)))
        rw [InInt32]
        simp only [Int.ofNat_eq_natCast] at bound
        omega
  · have small := ldiffLe magnitude (magnitude + 1)
    change InInt32 (Int.negSucc (Nat.ldiff magnitude (magnitude + 1)))
    rw [InInt32]
    omega

theorem u32_shiftRight_31 {value : Int} (bound : InInt32 value) :
    u32 value >>> 31 = if value < 0 then 1 else 0 := by
  rw [InInt32] at bound
  rw [u32, Nat.shiftRight_eq_div_pow]
  split <;> omega

end LedgerQrl.Foundation
