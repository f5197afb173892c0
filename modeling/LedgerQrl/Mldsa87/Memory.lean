import LedgerQrl.Foundation.Packing
import LedgerQrl.Mldsa87.Ring
import LedgerQrl.Mldsa87.Storage

namespace LedgerQrl.Mldsa87

open Foundation Poly

/-! # Bytes written to the storage

Chunks that are written one behind the other leave their concatenation, both in
a byte array and in the bytes of a polynomial. -/

section Bytes

variable {size : ℕ}

theorem getElem_writeBytes (offset : ℕ) (bytes : List UInt8)
    (memory : Vector UInt8 size) {index : ℕ} (bound : index < size) :
    (writeBytes offset bytes memory)[index] =
      if offset ≤ index then (bytes[index - offset]?).getD memory[index]
      else memory[index] := by
  simp [writeBytes]

theorem writeBytes_append (start : ℕ) (before bytes : List UInt8)
    (memory : Vector UInt8 size) :
    writeBytes (start + before.length) bytes (writeBytes start before memory) =
      writeBytes start (before ++ bytes) memory := by
  ext1 index bound
  simp only [getElem_writeBytes _ _ _ bound]
  rcases Nat.lt_or_ge index start with below | above
  · rw [if_neg (by omega), if_neg (by omega), if_neg (by omega)]
  · rw [if_pos above, if_pos above]
    rcases Nat.lt_or_ge index (start + before.length) with inside | behind
    · rw [if_neg (by omega), List.getElem?_append_left (by omega)]
    · rw [if_pos behind, List.getElem?_append_right (by omega),
        List.getElem?_eq_none (l := before) (by omega), Option.getD_none,
        Nat.sub_add_eq]

theorem take_writeBytes {bytes : List UInt8} (within : bytes.length ≤ size)
    (memory : Vector UInt8 size) :
    (writeBytes 0 bytes memory).toList.take bytes.length = bytes := by
  apply List.ext_getElem
  · simpa using within
  · intro index leftBound rightBound
    have inRange : index < size := by
      simp only [List.length_take, Vector.length_toList] at leftBound
      omega
    rw [List.getElem_take, Vector.getElem_toList, getElem_writeBytes _ _ _ inRange]
    simp [rightBound]

theorem toList_writeBytes {bytes : List UInt8} (full : bytes.length = size)
    (memory : Vector UInt8 size) : (writeBytes 0 bytes memory).toList = bytes := by
  have taken := take_writeBytes full.le memory
  rwa [full, List.take_of_length_le (by simp)] at taken

theorem writeBytes_cover (offset : ℕ) {first second : List UInt8}
    (cover : first.length ≤ second.length) (memory : Vector UInt8 size) :
    writeBytes offset second (writeBytes offset first memory) =
      writeBytes offset second memory := by
  ext1 index bound
  simp only [getElem_writeBytes _ _ _ bound]
  split
  · rcases Nat.lt_or_ge (index - offset) second.length with inside | behind
    · simp [inside]
    · simp [behind, cover.trans behind]
  · rfl

end Bytes

/-! ## The bytes of words -/

@[simp] theorem length_wordBytes (word : Int) : (wordBytes word).length = 4 := by
  simp [wordBytes]

theorem byteValue_wordBytes (word : Int) {k : ℕ} (bound : k < 4) :
    byteValue (wordBytes word) k = u32 word / 2 ^ (8 * k) % 2 ^ 8 := by
  simp [byteValue, wordBytes, bound, Nat.shiftRight_eq_div_pow]

theorem polyBytes_eq (a : Poly) :
    polyBytes a = (List.finRange 256).flatMap fun i => wordBytes a[i] := by
  have rows : a.toList = (List.finRange 256).map fun i => a[i] := by
    apply List.ext_getElem
    · simp
    · intro index _ _
      simp
  rw [polyBytes, rows, List.flatMap_map]

@[simp] theorem length_polyBytes (a : Poly) : (polyBytes a).length = 1024 := by
  rw [polyBytes_eq, length_flatMap_rows (fun i => length_wordBytes a[i]),
    List.length_finRange]

theorem byteValue_polyBytes (a : Poly) {i k : ℕ} (word : i < 256) (byte : k < 4) :
    byteValue (polyBytes a) (i * 4 + k) =
      u32 (a.coeff i) / 2 ^ (8 * k) % 2 ^ 8 := by
  obtain ⟨rest, split⟩ := drop_flatMap_rows
    (fun i => length_wordBytes a[i]) (⟨i, word⟩ : Fin 256)
  rw [← polyBytes_eq] at split
  have within : k < (wordBytes a[i]).length := by simpa using byte
  have position : (polyBytes a)[i * 4 + k]? = (wordBytes a[i])[k]? := by
    rw [← List.getElem?_drop, split]
    exact List.getElem?_append_left within
  rw [byteValue, position, a.coeff_of_lt word]
  exact byteValue_wordBytes _ byte

theorem u32_wordOfBytes (bytes : List UInt8) (offset : ℕ) :
    u32 (wordOfBytes bytes offset) =
      byteAt bytes offset + 256 * (byteAt bytes (offset + 1) +
        256 * (byteAt bytes (offset + 2) + 256 * byteAt bytes (offset + 3))) := by
  have first := byteAt_lt bytes offset
  have second := byteAt_lt bytes (offset + 1)
  have third := byteAt_lt bytes (offset + 2)
  have fourth := byteAt_lt bytes (offset + 3)
  have number : (List.range 4).foldr (fun index high =>
      byteAt bytes (offset + index) + 256 * high) 0 =
      byteAt bytes offset + 256 * (byteAt bytes (offset + 1) +
        256 * (byteAt bytes (offset + 2) + 256 * byteAt bytes (offset + 3))) := rfl
  rw [wordOfBytes, number, u32, i32]
  omega

theorem polyBytes_polyOfBytes {bytes : List UInt8} (length : bytes.length = 1024) :
    polyBytes (polyOfBytes bytes) = bytes := by
  apply ext_byteValue (by simp [length])
  intro index bound
  rw [length] at bound
  have word : index / 4 < 256 := by omega
  have split : index = index / 4 * 4 + index % 4 := by omega
  have stored : (polyOfBytes bytes).coeff (index / 4) =
      wordOfBytes bytes (4 * (index / 4)) := coeff_ofFn _ word
  have value : byteValue (polyBytes (polyOfBytes bytes)) index =
      u32 (wordOfBytes bytes (4 * (index / 4))) / 2 ^ (8 * (index % 4)) % 2 ^ 8 := by
    conv_lhs => rw [split]
    rw [byteValue_polyBytes _ word (Nat.mod_lt _ (by omega)), stored]
  have first := byteAt_lt bytes (4 * (index / 4))
  have second := byteAt_lt bytes (4 * (index / 4) + 1)
  have third := byteAt_lt bytes (4 * (index / 4) + 2)
  have fourth := byteAt_lt bytes (4 * (index / 4) + 3)
  rw [value, u32_wordOfBytes]
  have byte : byteValue bytes index = byteAt bytes (4 * (index / 4) + index % 4) := by
    rw [byteAt, byteValue, Nat.div_add_mod]
  have cases : index % 4 = 0 ∨ index % 4 = 1 ∨ index % 4 = 2 ∨ index % 4 = 3 := by
    omega
  rw [byte]
  rcases cases with offset | offset | offset | offset <;> rw [offset] <;> norm_num <;>
    omega

@[simp] theorem polyBytes_writePolyBytes {offset : ℕ} {bytes : List UInt8}
    (within : offset + bytes.length ≤ 1024) (a : Poly) :
    polyBytes (writePolyBytes offset bytes a) =
      (polyBytes a).take offset ++ bytes ++
        (polyBytes a).drop (offset + bytes.length) := by
  apply polyBytes_polyOfBytes
  simp
  omega

theorem writePolyBytes_append {start : ℕ} {before bytes : List UInt8}
    (within : start + before.length + bytes.length ≤ 1024) (a : Poly) :
    writePolyBytes (start + before.length) bytes (writePolyBytes start before a) =
      writePolyBytes start (before ++ bytes) a := by
  have before_length : ((polyBytes a).take start ++ before).length =
      start + before.length := by
    simp
    omega
  have beyond : start + before.length + (start + before.length + bytes.length -
      (start + before.length)) = start + (before ++ bytes).length := by
    rw [List.length_append]
    omega
  rw [writePolyBytes, polyBytes_writePolyBytes (by omega), writePolyBytes,
    List.take_left' before_length, List.drop_append,
    List.drop_eq_nil_of_le (by omega), before_length, List.drop_drop, beyond,
    List.nil_append, List.append_assoc ((polyBytes a).take start)]

theorem polyBytes_writePolyBytes_full {bytes : List UInt8}
    (full : bytes.length = 1024) (a : Poly) :
    polyBytes (writePolyBytes 0 bytes a) = bytes := by
  rw [polyBytes_writePolyBytes (by omega), full,
    List.drop_eq_nil_of_le (by simp)]
  simp

end LedgerQrl.Mldsa87
