import LedgerQrl.Foundation.Packing
import Mathlib.Data.Nat.Bitwise

namespace LedgerQrl.Foundation

/-! # Fields that span several parts

Whoever unpacks by hand shifts the parts that a field lies in to their places and
masks the result; whoever packs by hand does the same with the fields of a byte. -/

/-- The parts from `first` on, the first one without its low `start` bits. -/
def spanned (width : ℕ) (parts : ℕ → ℕ) (first start : ℕ) : (more : ℕ) → ℕ
  | 0 => parts first >>> start
  | more + 1 =>
      spanned width parts first start more |||
        parts (first + (more + 1)) <<< (width * (more + 1) - start)

section Spanned

variable {width : ℕ} {parts : ℕ → ℕ}

theorem spanned_eq (small : ∀ k, parts k < 2 ^ width) (first : ℕ) {start : ℕ}
    (within : start ≤ width) (more : ℕ) :
    spanned width parts first start more =
      packedNumber width (fun k => parts (first + k)) (more + 1) / 2 ^ start := by
  induction more with
  | zero => simp [spanned, packedNumber, Nat.shiftRight_eq_div_pow]
  | succ more induction =>
      have low := packedNumber_lt (fun k => small (first + k)) (more + 1)
      have reach : start ≤ width * (more + 1) :=
        within.trans (Nat.le_mul_of_pos_right width (Nat.succ_pos more))
      obtain ⟨rest, total⟩ := Nat.exists_eq_add_of_le reach
      rw [total, pow_add] at low
      have fits := Nat.div_lt_of_lt_mul low
      have next : packedNumber width (fun k => parts (first + k)) (more + 1 + 1) =
          packedNumber width (fun k => parts (first + k)) (more + 1) +
            2 ^ start * (2 ^ rest * parts (first + (more + 1))) := by
        rw [packedNumber, total, pow_add]
        ring
      rw [spanned, induction, next, total, Nat.add_sub_cancel_left, Nat.shiftLeft_eq,
        Nat.add_mul_div_left _ _ (Nat.two_pow_pos _), Nat.lor_comm, Nat.mul_comm (parts _),
        ← Nat.two_pow_add_eq_or_of_lt fits, Nat.add_comm]

theorem packedNumber_spanned (small : ∀ k, parts k < 2 ^ width)
    (count size first start more : ℕ) (fits : first + more < count ∧ start ≤ width ∧
      start + size ≤ width * (more + 1)) :
    packedNumber width parts count / 2 ^ (width * first + start) % 2 ^ size =
      spanned width parts first start more % 2 ^ size := by
  obtain ⟨inside, within, covered⟩ := fits
  obtain ⟨rest, total⟩ := Nat.exists_eq_add_of_le (Nat.succ_le_of_lt inside)
  have order : count = first + (more + 1) + rest := total
  rw [order, packedNumber_window small first (more + 1) rest covered,
    spanned_eq small first within]

end Spanned

/-! ## Groups of equal length -/

section Groups

variable {Item : Type} {group : ℕ → List Item}

theorem flatMap_range_eq_map {item : ℕ → Item} (size count : ℕ)
    (each : ∀ block, group block = (List.range size).map fun offset =>
      item (size * block + offset)) :
    (List.range count).flatMap group = (List.range (size * count)).map item := by
  induction count with
  | zero => simp
  | succ count induction =>
      rw [List.range_succ, List.flatMap_append, induction, Nat.mul_succ, List.range_add,
        List.map_append, List.map_map, List.flatMap_singleton, each]
      rfl

variable {size : ℕ}

theorem length_flatMap_range (each : ∀ block, (group block).length = size) (count : ℕ) :
    ((List.range count).flatMap group).length = size * count := by
  induction count with
  | zero => simp
  | succ count induction =>
      rw [List.range_succ, List.flatMap_append, List.length_append, induction,
        List.flatMap_singleton, each, Nat.mul_succ]

theorem getElem?_flatMap_range (each : ∀ block, (group block).length = size)
    {block offset : ℕ} (inside : offset < size) : ∀ {count : ℕ}, block < count →
      ((List.range count).flatMap group)[size * block + offset]? = (group block)[offset]? := by
  intro count
  induction count with
  | zero => exact fun bound => absurd bound (Nat.not_lt_zero block)
  | succ count induction =>
      intro bound
      have length := length_flatMap_range each count
      rw [List.range_succ, List.flatMap_append, List.flatMap_singleton]
      rcases Nat.lt_succ_iff_lt_or_eq.mp bound with earlier | last
      · have next := Nat.mul_le_mul_left size (Nat.succ_le_of_lt earlier)
        rw [Nat.mul_succ] at next
        rw [List.getElem?_append_left (by omega), induction earlier]
      · subst last
        rw [List.getElem?_append_right (by omega), length, Nat.add_sub_cancel_left]

end Groups

theorem flatMap_range_eq_bitPack {width : ℕ} {fields : ℕ → ℕ} {group : ℕ → List UInt8}
    {parts size : ℕ} (small : ∀ k, fields k < 2 ^ width) (aligned : width * parts = 8 * size)
    (each : ∀ block, (group block).length = size)
    (bytes : ∀ block, ∀ offset < size, byteValue (group block) offset =
      packedNumber width (fun k => fields (parts * block + k)) parts / 2 ^ (8 * offset) %
        2 ^ 8) (count : ℕ) :
    (List.range count).flatMap group = bitPack width fields (parts * count) := by
  have length : (bitPack width fields (parts * count)).length = size * count := by
    rw [length_bitPack, ← Nat.mul_assoc, aligned, Nat.mul_assoc,
      Nat.mul_div_cancel_left _ (by norm_num)]
  apply ext_byteValue
  · rw [length_flatMap_range each, length]
  · intro index bound
    rw [length] at bound
    have positive : 0 < size := Nat.pos_of_mul_pos_right (Nat.zero_lt_of_lt bound)
    have block := Nat.div_lt_of_lt_mul bound
    have offset := Nat.mod_lt index positive
    rw [← Nat.div_add_mod index size, byteValue_bitPack small aligned block offset,
      ← bytes _ _ offset, byteValue, getElem?_flatMap_range each offset block]
    rfl

end LedgerQrl.Foundation
