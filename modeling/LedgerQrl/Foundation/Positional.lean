import Mathlib.Data.Nat.Digits.Lemmas

namespace LedgerQrl.Foundation

/-! # Positional notation, most significant digit first

The digits of Mathlib start at the low end; numerals that are read, printed or
transmitted start at the high end. -/

def positional (base : ℕ) (digits : List ℕ) : ℕ := Nat.ofDigits base digits.reverse

def numeral (base number : ℕ) : List ℕ := (Nat.digits base number).reverse

section Numeral

variable {base : ℕ}

@[simp] theorem positional_nil : positional base [] = 0 := by
  simp [positional]

theorem positional_append (high low : List ℕ) :
    positional base (high ++ low) =
      positional base high * base ^ low.length + positional base low := by
  rw [positional, positional, positional, List.reverse_append, Nat.ofDigits_append,
    List.length_reverse, Nat.mul_comm, Nat.add_comm]

theorem positional_concat (high : List ℕ) (digit : ℕ) :
    positional base (high ++ [digit]) = positional base high * base + digit := by
  have last : positional base [digit] = digit := by
    rw [positional, List.reverse_singleton, Nat.ofDigits_singleton]
  rw [positional_append, last, List.length_singleton, pow_one]

theorem positional_cons (digit : ℕ) (low : List ℕ) :
    positional base (digit :: low) =
      digit * base ^ low.length + positional base low := by
  have split : positional base ([digit] ++ low) = _ := positional_append [digit] low
  rwa [List.singleton_append, ← List.nil_append [digit], positional_concat,
    positional_nil, Nat.zero_mul, Nat.zero_add] at split

theorem positional_replicate_zero (count : ℕ) (low : List ℕ) :
    positional base (List.replicate count 0 ++ low) = positional base low := by
  induction count with
  | zero => rfl
  | succ count induction =>
      rw [List.replicate_succ, List.cons_append, positional_cons, Nat.zero_mul,
        Nat.zero_add, induction]

theorem positional_lt (large : 1 < base) {digits : List ℕ}
    (each : ∀ digit ∈ digits, digit < base) :
    positional base digits < base ^ digits.length := by
  have bound := Nat.ofDigits_lt_base_pow_length large
    (l := digits.reverse) fun digit member => each digit (List.mem_reverse.mp member)
  rwa [List.length_reverse] at bound

theorem le_positional (digit : ℕ) (low : List ℕ) (nonzero : digit ≠ 0) :
    base ^ low.length ≤ positional base (digit :: low) := by
  rw [positional_cons]
  calc base ^ low.length = 1 * base ^ low.length := (Nat.one_mul _).symm
    _ ≤ digit * base ^ low.length := Nat.mul_le_mul_right _ (Nat.one_le_iff_ne_zero.mpr nonzero)
    _ ≤ digit * base ^ low.length + positional base low := Nat.le_add_right _ _

theorem positional_set (base value : ℕ) : ∀ {digits : List ℕ} {index : ℕ}
    (inside : index < digits.length),
      positional base (digits.set index value) +
          digits[index] * base ^ (digits.length - 1 - index) =
        positional base digits + value * base ^ (digits.length - 1 - index) := by
  intro digits
  induction digits with
  | nil => exact fun inside => absurd inside (Nat.not_lt_zero _)
  | cons digit low induction =>
      intro index inside
      rw [List.length_cons, Nat.add_sub_cancel]
      cases index with
      | zero =>
          rw [List.set_cons_zero, positional_cons, positional_cons, List.getElem_cons_zero,
            Nat.sub_zero]
          ring
      | succ index =>
          have exponent : low.length - (index + 1) = low.length - 1 - index := by omega
          have later := induction (Nat.lt_of_succ_lt_succ inside)
          rw [List.set_cons_succ, positional_cons, positional_cons, List.getElem_cons_succ,
            List.length_set, exponent, Nat.add_assoc, later, Nat.add_assoc]

@[simp] theorem positional_numeral (number : ℕ) :
    positional base (numeral base number) = number := by
  rw [positional, numeral, List.reverse_reverse, Nat.ofDigits_digits]

theorem numeral_positional (large : 1 < base) {digits : List ℕ}
    (each : ∀ digit ∈ digits, digit < base) (leading : digits.head? ≠ some 0) :
    numeral base (positional base digits) = digits := by
  have low := Nat.digits_ofDigits base large digits.reverse
    (fun digit member => each digit (List.mem_reverse.mp member)) (by
      intro nonempty zero
      apply leading
      rw [List.getLast_reverse] at zero
      rw [List.head?_eq_some_head (List.reverse_ne_nil_iff.mp nonempty), zero])
  rw [numeral, positional, low, List.reverse_reverse]

theorem numeral_zero : numeral base 0 = [] := by
  simp [numeral]

theorem numeral_lt (large : 1 < base) (number : ℕ) :
    ∀ digit ∈ numeral base number, digit < base :=
  fun _ member => Nat.digits_lt_base large (List.mem_reverse.mp member)

theorem numeral_head (number : ℕ) : (numeral base number).head? ≠ some 0 := by
  intro zero
  rw [numeral, List.head?_reverse] at zero
  have nonzero : number ≠ 0 := by
    intro none
    rw [none, Nat.digits_zero] at zero
    exact absurd zero (by simp)
  have nonempty := Nat.digits_ne_nil_iff_ne_zero (b := base).mpr nonzero
  rw [List.getLast?_eq_some_getLast nonempty, Option.some.injEq] at zero
  exact Nat.getLast_digit_ne_zero base nonzero zero

theorem length_numeral_le (large : 1 < base) {number count : ℕ} :
    (numeral base number).length ≤ count ↔ number < base ^ count := by
  rw [numeral, List.length_reverse]
  exact Nat.digits_length_le_iff large number

theorem positional_inj (large : 1 < base) {left right : List ℕ}
    (leftEach : ∀ digit ∈ left, digit < base) (leftLeading : left.head? ≠ some 0)
    (rightEach : ∀ digit ∈ right, digit < base) (rightLeading : right.head? ≠ some 0)
    (equal : positional base left = positional base right) : left = right := by
  rw [← numeral_positional large leftEach leftLeading, equal,
    numeral_positional large rightEach rightLeading]

end Numeral

/-! ## Bytes -/

/-- The number whose big-endian encoding is `bytes`. -/
def bigEndian (bytes : List UInt8) : ℕ := positional 256 (bytes.map UInt8.toNat)

/-- The shortest big-endian encoding. -/
def minimalBytes (number : ℕ) : List UInt8 := (numeral 256 number).map UInt8.ofNat

private theorem toNat_lt_base (bytes : List UInt8) :
    ∀ digit ∈ bytes.map UInt8.toNat, digit < 256 := by
  intro digit member
  obtain ⟨byte, _, rfl⟩ := List.mem_map.mp member
  exact byte.toNat_lt

private theorem map_toNat_minimalBytes (number : ℕ) :
    (minimalBytes number).map UInt8.toNat = numeral 256 number := by
  rw [minimalBytes, List.map_map]
  conv_rhs => rw [← List.map_id (numeral 256 number)]
  apply List.map_congr_left
  intro digit member
  have small := numeral_lt (by norm_num : 1 < 256) number digit member
  rw [Function.comp_apply, UInt8.toNat_ofNat', Nat.mod_eq_of_lt small, id]

@[simp] theorem bigEndian_nil : bigEndian [] = 0 := positional_nil

theorem bigEndian_append (high low : List UInt8) :
    bigEndian (high ++ low) = bigEndian high * 256 ^ low.length + bigEndian low := by
  rw [bigEndian, List.map_append, positional_append, List.length_map]
  rfl

theorem bigEndian_concat (high : List UInt8) (byte : UInt8) :
    bigEndian (high ++ [byte]) = bigEndian high * 256 + byte.toNat := by
  rw [bigEndian, List.map_append, List.map_singleton, positional_concat]
  rfl

theorem bigEndian_cons (byte : UInt8) (rest : List UInt8) :
    bigEndian (byte :: rest) = byte.toNat * 256 ^ rest.length + bigEndian rest := by
  rw [bigEndian, List.map_cons, positional_cons, List.length_map]
  rfl

theorem bigEndian_lt (bytes : List UInt8) : bigEndian bytes < 256 ^ bytes.length := by
  have bound := positional_lt (by norm_num : 1 < 256) (toNat_lt_base bytes)
  rwa [List.length_map] at bound

@[simp] theorem bigEndian_minimalBytes (number : ℕ) :
    bigEndian (minimalBytes number) = number := by
  rw [bigEndian, map_toNat_minimalBytes, positional_numeral]

theorem length_minimalBytes_le {number count : ℕ} :
    (minimalBytes number).length ≤ count ↔ number < 256 ^ count := by
  rw [minimalBytes, List.length_map]
  exact length_numeral_le (by norm_num)

@[simp] theorem minimalBytes_zero : minimalBytes 0 = [] := by
  rw [minimalBytes, numeral_zero, List.map_nil]

private theorem head_map_toNat {bytes : List UInt8} (leading : bytes.head? ≠ some 0) :
    (bytes.map UInt8.toNat).head? ≠ some 0 := by
  cases bytes with
  | nil => simp
  | cons byte rest =>
      intro zero
      apply leading
      rw [List.map_cons, List.head?_cons, Option.some.injEq] at zero
      rw [List.head?_cons, Option.some.injEq]
      exact UInt8.toNat_inj.mp zero

theorem minimalBytes_head (number : ℕ) : (minimalBytes number).head? ≠ some 0 := by
  intro zero
  have head : (numeral 256 number).head? ≠ some 0 := numeral_head number
  rw [← map_toNat_minimalBytes, List.head?_map, zero] at head
  exact head rfl

theorem minimalBytes_bigEndian {bytes : List UInt8} (leading : bytes.head? ≠ some 0) :
    minimalBytes (bigEndian bytes) = bytes := by
  rw [minimalBytes, bigEndian, numeral_positional (by norm_num) (toNat_lt_base bytes)
    (head_map_toNat leading), List.map_map]
  conv_rhs => rw [← List.map_id bytes]
  apply List.map_congr_left
  intro byte _
  exact UInt8.ofNat_toNat

end LedgerQrl.Foundation
