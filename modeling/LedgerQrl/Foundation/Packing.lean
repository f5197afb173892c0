import Mathlib.Algebra.Order.Ring.Nat
import Mathlib.Data.Nat.ModEq
import Mathlib.Tactic.Ring
import Mathlib.Tactic.Linarith

namespace LedgerQrl.Foundation

/-! # Little-endian bit packing

Fields of one width, written one after the other from the low end, are a
number; a byte string is the same with width eight. Packing fields into bytes
is reading one number in the two ways. -/

/-- The number with fields `fields 0`, ..., `fields (count - 1)`. -/
def packedNumber (width : ℕ) (fields : ℕ → ℕ) : (count : ℕ) → ℕ
  | 0 => 0
  | count + 1 =>
      packedNumber width fields count + fields count * 2 ^ (width * count)

section Number

variable {width : ℕ} {fields : ℕ → ℕ}

theorem packedNumber_lt (small : ∀ k, fields k < 2 ^ width) (count : ℕ) :
    packedNumber width fields count < 2 ^ (width * count) := by
  induction count with
  | zero => simp [packedNumber]
  | succ count induction =>
      have field := Nat.mul_le_mul_right (2 ^ (width * count)) (small count)
      rw [packedNumber, Nat.mul_succ, pow_add]
      rw [Nat.succ_mul] at field
      rw [Nat.mul_comm (2 ^ (width * count))]
      omega

theorem packedNumber_congr {other : ℕ → ℕ} {count : ℕ}
    (equal : ∀ k < count, fields k = other k) :
    packedNumber width fields count = packedNumber width other count := by
  induction count with
  | zero => rfl
  | succ count induction =>
      rw [packedNumber, packedNumber, induction fun k bound => equal k (by omega),
        equal count (by omega)]

theorem packedNumber_add (low high : ℕ) :
    packedNumber width fields (low + high) =
      packedNumber width fields low +
        2 ^ (width * low) * packedNumber width (fun k => fields (low + k)) high := by
  induction high with
  | zero => simp [packedNumber]
  | succ high induction =>
      rw [← Nat.add_assoc, packedNumber, packedNumber, induction, Nat.mul_add,
        pow_add]
      ring

theorem packedNumber_window (small : ∀ k, fields k < 2 ^ width)
    (first group rest : ℕ) {start size : ℕ} (within : start + size ≤ width * group) :
    packedNumber width fields (first + group + rest) /
        2 ^ (width * first + start) % 2 ^ size =
      packedNumber width (fun k => fields (first + k)) group / 2 ^ start %
        2 ^ size := by
  have below := packedNumber_lt small first
  rw [Nat.add_assoc, packedNumber_add first, packedNumber_add group, pow_add,
    ← Nat.div_div_eq_div_mul, Nat.add_comm (packedNumber width fields first),
    Nat.mul_add_div (Nat.two_pow_pos _), Nat.div_eq_of_lt below, Nat.add_zero]
  obtain ⟨extra, total⟩ := Nat.exists_eq_add_of_le within
  have aligned : 2 ^ (width * group) = 2 ^ start * (2 ^ size * 2 ^ extra) := by
    rw [total, pow_add, pow_add]
    ring
  rw [aligned, Nat.mul_assoc, Nat.add_comm, Nat.mul_add_div (Nat.two_pow_pos _),
    Nat.mul_assoc, Nat.mul_add_mod]

theorem packedNumber_field (small : ∀ k, fields k < 2 ^ width) {count k : ℕ}
    (bound : k < count) :
    packedNumber width fields count / 2 ^ (width * k) % 2 ^ width = fields k := by
  obtain ⟨rest, rfl⟩ := Nat.exists_eq_add_of_le (Nat.succ_le_of_lt bound)
  have window := packedNumber_window small k 1 rest
    (show 0 + width ≤ width * 1 by omega)
  simpa [packedNumber, Nat.mod_eq_of_lt (small k)] using window

theorem packedNumber_digits (width number count : ℕ) :
    packedNumber width (fun k => number / 2 ^ (width * k) % 2 ^ width) count =
      number % 2 ^ (width * count) := by
  induction count with
  | zero => simp [packedNumber, Nat.mod_one]
  | succ count induction =>
      rw [packedNumber, induction, Nat.mul_succ, pow_add, Nat.mod_mul,
        Nat.mul_comm (_ % 2 ^ width)]

end Number

/-! ## Bytes -/

def byteValue (bytes : List UInt8) (index : ℕ) : ℕ :=
  (bytes[index]?.getD 0).toNat

theorem byteValue_lt (bytes : List UInt8) (index : ℕ) :
    byteValue bytes index < 2 ^ 8 :=
  UInt8.toNat_lt _

def bytesOfNumber (count number : ℕ) : List UInt8 :=
  (List.range count).map fun k => UInt8.ofNat (number / 2 ^ (8 * k))

def numberOfBytes (bytes : List UInt8) : ℕ :=
  packedNumber 8 (byteValue bytes) bytes.length

@[simp] theorem length_bytesOfNumber (count number : ℕ) :
    (bytesOfNumber count number).length = count := by
  simp [bytesOfNumber]

theorem byteValue_bytesOfNumber (number : ℕ) {count k : ℕ} (bound : k < count) :
    byteValue (bytesOfNumber count number) k = number / 2 ^ (8 * k) % 2 ^ 8 := by
  simp [byteValue, bytesOfNumber, bound]

theorem numberOfBytes_bytesOfNumber (count number : ℕ) :
    numberOfBytes (bytesOfNumber count number) = number % 2 ^ (8 * count) := by
  rw [numberOfBytes, length_bytesOfNumber, ← packedNumber_digits]
  exact packedNumber_congr fun k bound => byteValue_bytesOfNumber number bound

/-! ## Fields in bytes -/

def bitPack (width : ℕ) (fields : ℕ → ℕ) (count : ℕ) : List UInt8 :=
  bytesOfNumber (width * count / 8) (packedNumber width fields count)

/-- The field at a position of a byte string. -/
def bitField (width : ℕ) (bytes : List UInt8) (k : ℕ) : ℕ :=
  numberOfBytes bytes / 2 ^ (width * k) % 2 ^ width

theorem bitField_lt (width : ℕ) (bytes : List UInt8) (k : ℕ) :
    bitField width bytes k < 2 ^ width :=
  Nat.mod_lt _ (Nat.two_pow_pos _)

@[simp] theorem length_bitPack (width : ℕ) (fields : ℕ → ℕ) (count : ℕ) :
    (bitPack width fields count).length = width * count / 8 := by
  simp [bitPack]

theorem bitPack_congr {width : ℕ} {fields other : ℕ → ℕ} {count : ℕ}
    (equal : ∀ k < count, fields k = other k) :
    bitPack width fields count = bitPack width other count := by
  rw [bitPack, bitPack, packedNumber_congr equal]

section Fields

variable {width : ℕ} {fields : ℕ → ℕ} {count : ℕ}

/-- Unpacking returns what was packed. -/
theorem bitField_bitPack (small : ∀ k, fields k < 2 ^ width)
    (aligned : 8 ∣ width * count) {k : ℕ} (bound : k < count) :
    bitField width (bitPack width fields count) k = fields k := by
  have number := packedNumber_lt small count
  rw [bitField, bitPack, numberOfBytes_bytesOfNumber, Nat.mul_div_cancel' aligned,
    Nat.mod_eq_of_lt number]
  exact packedNumber_field small bound

/-- When groups of fields fill whole bytes, a byte only depends on the fields of
its group. -/
theorem byteValue_bitPack (small : ∀ k, fields k < 2 ^ width) {group bytes : ℕ}
    (aligned : width * group = 8 * bytes) {blocks block offset : ℕ}
    (blockBound : block < blocks) (offsetBound : offset < bytes) :
    byteValue (bitPack width fields (group * blocks)) (bytes * block + offset) =
      packedNumber width (fun k => fields (group * block + k)) group /
        2 ^ (8 * offset) % 2 ^ 8 := by
  obtain ⟨rest, rfl⟩ := Nat.exists_eq_add_of_le (Nat.succ_le_of_lt blockBound)
  have inRange : bytes * block + offset <
      width * (group * (block + 1 + rest)) / 8 := by
    rw [← Nat.mul_assoc, aligned, Nat.mul_assoc, Nat.mul_div_cancel_left _ (by omega),
      Nat.mul_add, Nat.mul_add, Nat.mul_one]
    omega
  have position : 8 * (bytes * block + offset) =
      width * (group * block) + 8 * offset := by
    rw [← Nat.mul_assoc, aligned]
    ring
  have window := packedNumber_window small (group * block) group (group * rest)
    (show 8 * offset + 8 ≤ width * group by omega)
  rw [bitPack, byteValue_bytesOfNumber _ inRange, position, Nat.mul_add,
    Nat.mul_succ]
  exact window

/-- When groups of fields fill whole bytes, a field only depends on the bytes of
its group. -/
theorem bitField_group {group bytes : ℕ} (aligned : width * group = 8 * bytes)
    {data : List UInt8} {block offset rest : ℕ}
    (total : data.length = bytes * block + bytes + rest)
    (offsetBound : offset < group) :
    bitField width data (group * block + offset) =
      packedNumber 8 (fun k => byteValue data (bytes * block + k)) bytes /
        2 ^ (width * offset) % 2 ^ width := by
  have position : width * (group * block + offset) =
      8 * (bytes * block) + width * offset := by
    rw [Nat.mul_add, ← Nat.mul_assoc, aligned]
    ring
  have within : width * offset + width ≤ 8 * bytes := by
    rw [← aligned, ← Nat.mul_succ]
    exact Nat.mul_le_mul_left _ offsetBound
  rw [bitField, numberOfBytes, total, position]
  exact packedNumber_window (byteValue_lt data) (bytes * block) bytes rest within

end Fields

theorem bitField_append {width : ℕ} {first second : List UInt8} {k : ℕ}
    (within : width * (k + 1) ≤ 8 * first.length) :
    bitField width (first ++ second) k = bitField width first k := by
  have number : numberOfBytes (first ++ second) =
      numberOfBytes first + 2 ^ (8 * first.length) *
        packedNumber 8 (byteValue second) second.length := by
    rw [numberOfBytes, numberOfBytes, List.length_append, packedNumber_add]
    congr 1
    · apply packedNumber_congr
      intro index bound
      rw [byteValue, byteValue, List.getElem?_append_left bound]
    · congr 1
      apply packedNumber_congr
      intro index bound
      rw [byteValue, byteValue, List.getElem?_append_right (Nat.le_add_right _ _),
        Nat.add_sub_cancel_left]
  obtain ⟨extra, total⟩ := Nat.exists_eq_add_of_le within
  have aligned : 2 ^ (8 * first.length) = 2 ^ (width * k) * (2 ^ width * 2 ^ extra) := by
    rw [total, Nat.mul_succ, pow_add, pow_add]
    ring
  rw [bitField, bitField, number, aligned, Nat.mul_assoc, Nat.add_comm,
    Nat.mul_add_div (Nat.two_pow_pos _), Nat.mul_assoc, Nat.mul_add_mod]

/-! ## Rows of equal length -/

section Rows

variable {Item : Type} {rows length : ℕ} {row : Fin rows → List Item}

theorem length_flatMap_rows {indices : List (Fin rows)}
    (each : ∀ i, (row i).length = length) :
    (indices.flatMap row).length = indices.length * length := by
  induction indices with
  | nil => simp
  | cons i rest induction =>
      rw [List.flatMap_cons, List.length_append, each, induction, List.length_cons,
        Nat.succ_mul, Nat.add_comm]

theorem drop_flatMap_rows (each : ∀ i, (row i).length = length) (i : Fin rows) :
    ∃ rest, ((List.finRange rows).flatMap row).drop (i * length) = row i ++ rest := by
  have inRange : i.val < (List.finRange rows).length := by simp
  have split : List.finRange rows = (List.finRange rows).take i ++
      i :: (List.finRange rows).drop (i + 1) := by
    conv_lhs => rw [← List.take_append_drop i.val (List.finRange rows),
      List.drop_eq_getElem_cons inRange]
    simp
  have before : (((List.finRange rows).take i).flatMap row).length = i * length := by
    rw [length_flatMap_rows each]
    simp
  refine ⟨((List.finRange rows).drop (i + 1)).flatMap row, ?_⟩
  conv_lhs => rw [split]
  rw [List.flatMap_append, ← before, List.drop_left, List.flatMap_cons]

end Rows

theorem ext_byteValue {left right : List UInt8} (length : left.length = right.length)
    (equal : ∀ index < right.length, byteValue left index = byteValue right index) :
    left = right := by
  apply List.ext_getElem length
  intro index leftBound rightBound
  have same := equal index rightBound
  simp only [byteValue, List.getElem?_eq_getElem leftBound,
    List.getElem?_eq_getElem rightBound, Option.getD_some] at same
  exact UInt8.toNat_inj.mp same

/-- Packing returns the bytes that were unpacked. -/
theorem bitPack_bitField {width count : ℕ} {data : List UInt8}
    (total : width * count = 8 * data.length) :
    bitPack width (bitField width data) count = data := by
  have number : packedNumber width (bitField width data) count = numberOfBytes data := by
    have below : numberOfBytes data < 2 ^ (width * count) := by
      rw [total]
      exact packedNumber_lt (byteValue_lt data) data.length
    have digits := packedNumber_digits width (numberOfBytes data) count
    rw [Nat.mod_eq_of_lt below] at digits
    exact digits
  apply ext_byteValue
  · rw [length_bitPack, total, Nat.mul_div_cancel_left _ (by norm_num)]
  · intro index bound
    rw [bitPack, total, Nat.mul_div_cancel_left _ (by norm_num),
      byteValue_bytesOfNumber _ bound, number]
    exact packedNumber_field (byteValue_lt data) bound

end LedgerQrl.Foundation
