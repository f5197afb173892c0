import LedgerQrl.Mldsa87.Specification
import LedgerQrl.Mldsa87.Memory
import LedgerQrl.Mldsa87.SampledRange

namespace LedgerQrl.Mldsa87

open Foundation Poly

/-! # Packed coefficients

The packing functions put together bytes by shifts; the bytes are those of one
number whose fields are the coefficients. -/

theorem sar_natCast (value count : ℕ) :
    sar (value : ℤ) count = ((value / 2 ^ count : ℕ) : ℤ) := by
  rw [sar]
  push_cast
  rfl

theorem lor_eq_add {low high count : ℕ} (fits : low < 2 ^ count) :
    low ||| high * 2 ^ count = low + high * 2 ^ count := by
  rw [Nat.lor_comm, Nat.mul_comm, ← Nat.two_pow_add_eq_or_of_lt fits, Nat.add_comm]

theorem toNat_u8_join {low high count : ℕ} (fits : low < 2 ^ count)
    (range : high * 2 ^ count < 2147483648) :
    (u8 (Int.lor (low : ℤ) (shl (high : ℤ) count))).toNat =
      (low + high * 2 ^ count) % 256 := by
  have shifted : shl (high : ℤ) count = ((high * 2 ^ count : ℕ) : ℤ) := by
    rw [shl]
    push_cast
    apply i32_of_inInt32
    have cast : ((high * 2 ^ count : ℕ) : ℤ) < 2147483648 := by exact_mod_cast range
    push_cast at cast
    have nonneg : (0 : ℤ) ≤ (high : ℤ) * 2 ^ count := by positivity
    exact ⟨by linarith, cast⟩
  rw [shifted, lor_natCast, lor_eq_add fits, toNat_u8]
  omega

theorem toNat_u8_natCast (value : ℕ) : (u8 (value : ℤ)).toNat = value % 256 := by
  rw [toNat_u8]
  omega

theorem coeff_of_ge (a : Poly) {n : ℕ} (beyond : 256 ≤ n) : a.coeff n = 0 := by
  simp [coeff, beyond]

theorem toNat_coeff_lt {a : Poly} {limit : ℕ} (positive : 0 < limit)
    (range : ∀ n < 256, 0 ≤ a.coeff n ∧ a.coeff n < limit) (n : ℕ) :
    (a.coeff n).toNat < limit := by
  rcases Nat.lt_or_ge n 256 with bound | beyond
  · have inRange := range n bound
    omega
  · rw [coeff_of_ge a beyond]
    exact positive

/-! ## Packing -/

@[simp] theorem length_polyT1Pack (a : Poly) : (polyT1Pack a).length = 320 := by
  simp [polyT1Pack]

@[simp] theorem length_polyW1Pack (a : Poly) : (polyW1Pack a).length = 128 := by
  simp [polyW1Pack]

@[simp] theorem length_polyZPack (a : Poly) : (polyZPack a).length = 640 := by
  simp [polyZPack]

section Packing

variable {a : Poly}

private theorem exists_natCast {limit : ℕ} (positive : 0 < limit)
    (range : ∀ n < 256, 0 ≤ a.coeff n ∧ a.coeff n < limit) (n : ℕ) :
    ∃ value : ℕ, a.coeff n = value ∧ value < limit := by
  refine ⟨(a.coeff n).toNat, ?_, toNat_coeff_lt positive range n⟩
  rcases Nat.lt_or_ge n 256 with bound | beyond
  · rw [Int.toNat_of_nonneg (range n bound).1]
  · rw [coeff_of_ge a beyond]
    rfl

theorem polyT1Pack_eq (range : ∀ n < 256, 0 ≤ a.coeff n ∧ a.coeff n < 1024) :
    polyT1Pack a = bitPack 10 (fun n => (a.coeff n).toNat) 256 := by
  have positive : 0 < 1024 := by norm_num
  have small := toNat_coeff_lt positive range
  apply ext_byteValue (by simp [polyT1Pack])
  intro index bound
  simp only [length_bitPack, Nat.reduceMul, Nat.reduceDiv] at bound
  have split : index = 5 * (index / 5) + index % 5 := by omega
  have aligned : 10 * 4 = 8 * 5 := rfl
  have packed := byteValue_bitPack small aligned (show index / 5 < 64 by omega)
    (Nat.mod_lt index (show 0 < 5 by omega))
  rw [← split] at packed
  rw [packed]
  obtain ⟨n0, equal0, c0⟩ := exists_natCast positive range (4 * (index / 5) + 0)
  obtain ⟨n1, equal1, c1⟩ := exists_natCast positive range (4 * (index / 5) + 1)
  obtain ⟨n2, equal2, c2⟩ := exists_natCast positive range (4 * (index / 5) + 2)
  obtain ⟨n3, equal3, c3⟩ := exists_natCast positive range (4 * (index / 5) + 3)
  simp only [byteValue, polyT1Pack, List.getElem?_map, List.getElem?_range bound,
    Option.map_some, Option.getD_some, packedNumber, equal0, equal1, equal2, equal3,
    Int.toNat_natCast]
  have cases : index % 5 = 0 ∨ index % 5 = 1 ∨ index % 5 = 2 ∨ index % 5 = 3 ∨
      index % 5 = 4 := by omega
  rcases cases with offset | offset | offset | offset | offset <;>
    simp only [offset]
  · rw [toNat_u8_natCast]
    omega
  · rw [sar_natCast, toNat_u8_join] <;> omega
  · rw [sar_natCast, toNat_u8_join] <;> omega
  · rw [sar_natCast, toNat_u8_join] <;> omega
  · rw [sar_natCast, toNat_u8_natCast]
    omega

theorem polyW1Pack_eq (range : ∀ n < 256, 0 ≤ a.coeff n ∧ a.coeff n < 16) :
    polyW1Pack a = bitPack 4 (fun n => (a.coeff n).toNat) 256 := by
  have positive : 0 < 16 := by norm_num
  have small := toNat_coeff_lt positive range
  apply ext_byteValue (by simp [polyW1Pack])
  intro index bound
  simp only [length_bitPack, Nat.reduceMul, Nat.reduceDiv] at bound
  have aligned : 4 * 2 = 8 * 1 := rfl
  have packed := byteValue_bitPack small aligned (show index < 128 by omega)
    (show 0 < 1 by omega)
  rw [Nat.one_mul, Nat.add_zero] at packed
  rw [packed]
  obtain ⟨n0, equal0, c0⟩ := exists_natCast positive range (2 * index + 0)
  obtain ⟨n1, equal1, c1⟩ := exists_natCast positive range (2 * index + 1)
  have even : a.coeff (2 * index) = n0 := equal0
  simp only [byteValue, polyW1Pack, List.getElem?_map, List.getElem?_range bound,
    Option.map_some, Option.getD_some, packedNumber, equal0, equal1, even,
    Int.toNat_natCast]
  rw [toNat_u8_join (by omega) (by omega)]
  omega

private theorem toNat_join {low high : ℕ} (fits : low < 2 ^ 4) :
    (UInt8.ofNat low ||| UInt8.ofNat (high <<< 4)).toNat =
      low + high % 16 * 2 ^ 4 := by
  rw [UInt8.toNat_or, UInt8.toNat_ofNat', UInt8.toNat_ofNat', Nat.shiftLeft_eq]
  have first : low % 2 ^ 8 = low := by omega
  have second : high * 2 ^ 4 % 2 ^ 8 = high % 16 * 2 ^ 4 := by omega
  rw [first, second, lor_eq_add fits]

theorem polyZPack_eq (range : ∀ n < 256, -gamma1 < a.coeff n ∧ a.coeff n ≤ gamma1) :
    polyZPack a = bitPack 20 (fun n => (gamma1 - a.coeff n).toNat) 256 := by
  have inRange : ∀ n, -gamma1 < a.coeff n ∧ a.coeff n ≤ gamma1 := by
    intro n
    rcases Nat.lt_or_ge n 256 with bound | beyond
    · exact range n bound
    · rw [coeff_of_ge a beyond]
      decide
  have field : ∀ n, u32 (i32 (gamma1 - a.coeff n)) = (gamma1 - a.coeff n).toNat ∧
      (gamma1 - a.coeff n).toNat < 2 ^ 20 := by
    intro n
    have bound := inRange n
    rw [gamma1] at bound
    rw [gamma1, u32, i32]
    omega
  apply ext_byteValue (by simp [polyZPack])
  intro index bound
  simp only [length_bitPack, Nat.reduceMul, Nat.reduceDiv] at bound
  have split : index = 5 * (index / 5) + index % 5 := by omega
  have aligned : 20 * 2 = 8 * 5 := rfl
  have packed := byteValue_bitPack (fun n => (field n).2) aligned
    (show index / 5 < 128 by omega) (Nat.mod_lt index (show 0 < 5 by omega))
  rw [← split] at packed
  rw [packed]
  have even := field (2 * (index / 5))
  have odd := field (2 * (index / 5) + 1)
  simp only [byteValue, polyZPack, List.getElem?_map, List.getElem?_range bound,
    Option.map_some, Option.getD_some, packedNumber, Nat.add_zero, even.1, odd.1]
  generalize (gamma1 - a.coeff (2 * (index / 5))).toNat = t0 at *
  generalize (gamma1 - a.coeff (2 * (index / 5) + 1)).toNat = t1 at *
  have evenBound := even.2
  have oddBound := odd.2
  have cases : index % 5 = 0 ∨ index % 5 = 1 ∨ index % 5 = 2 ∨ index % 5 = 3 ∨
      index % 5 = 4 := by omega
  rcases cases with offset | offset | offset | offset | offset <;>
    simp only [offset]
  · rw [UInt8.toNat_ofNat']
    omega
  · rw [UInt8.toNat_ofNat', Nat.shiftRight_eq_div_pow]
    omega
  · rw [Nat.shiftRight_eq_div_pow, toNat_join] <;> omega
  · rw [UInt8.toNat_ofNat', Nat.shiftRight_eq_div_pow]
    omega
  · rw [UInt8.toNat_ofNat', Nat.shiftRight_eq_div_pow]
    omega

end Packing

/-! ## Unpacking -/

theorem zFields_eq {buf : List UInt8} {block rest : ℕ}
    (total : buf.length = 5 * block + 5 + rest) :
    zFields buf block =
      (bitField 20 buf (2 * block), bitField 20 buf (2 * block + 1)) := by
  have aligned : 20 * 2 = 8 * 5 := rfl
  have first := bitField_group aligned total (show 0 < 2 by omega)
  have second := bitField_group aligned total (show 1 < 2 by omega)
  rw [Nat.add_zero] at first
  rw [zFields, first, second]
  have b0 := byteAt_lt buf (5 * block)
  have b1 := byteAt_lt buf (5 * block + 1)
  have b2 := byteAt_lt buf (5 * block + 2)
  have b3 := byteAt_lt buf (5 * block + 3)
  have b4 := byteAt_lt buf (5 * block + 4)
  have mask : (0xFFFFF : ℕ) = 2 ^ 20 - 1 := rfl
  have same : ∀ index, byteValue buf index = byteAt buf index := fun _ => rfl
  simp only [packedNumber, Nat.add_zero, same, Nat.shiftLeft_eq,
    Nat.shiftRight_eq_div_pow, mask, Nat.and_two_pow_sub_one_eq_mod]
  generalize byteAt buf (5 * block) = n0 at *
  generalize byteAt buf (5 * block + 1) = n1 at *
  generalize byteAt buf (5 * block + 2) = n2 at *
  generalize byteAt buf (5 * block + 3) = n3 at *
  generalize byteAt buf (5 * block + 4) = n4 at *
  rw [lor_eq_add (show n0 < 2 ^ 8 by omega),
    lor_eq_add (show n0 + n1 * 2 ^ 8 < 2 ^ 16 by omega),
    lor_eq_add (show n2 / 2 ^ 4 < 2 ^ 4 by omega),
    lor_eq_add (show n2 / 2 ^ 4 + n3 * 2 ^ 4 < 2 ^ 12 by omega)]
  refine Prod.ext ?_ ?_ <;> dsimp only <;> omega

theorem coeff_polyZUnpack {buf : List UInt8} (enough : 640 ≤ buf.length) {n : ℕ}
    (bound : n < 256) :
    (polyZUnpack buf).coeff n = gamma1 - bitField 20 buf n := by
  obtain ⟨rest, total⟩ := Nat.exists_eq_add_of_le
    (show 5 * (n / 2) + 5 ≤ buf.length by omega)
  rw [polyZUnpack, coeff_ofFn _ bound]
  dsimp only
  rw [zFields_eq total]
  rcases Nat.mod_two_eq_zero_or_one n with even | odd
  · rw [if_pos even, show 2 * (n / 2) = n by omega]
  · rw [if_neg (by omega), show 2 * (n / 2) + 1 = n by omega]

theorem coeff_polyZUnpack_range {buf : List UInt8} (enough : 640 ≤ buf.length) {n : ℕ}
    (bound : n < 256) :
    -gamma1 < (polyZUnpack buf).coeff n ∧ (polyZUnpack buf).coeff n ≤ gamma1 := by
  have field := bitField_lt 20 buf n
  rw [coeff_polyZUnpack enough bound, gamma1]
  omega

theorem polyZPack_polyZUnpack {buf : List UInt8} (enough : 640 ≤ buf.length) :
    polyZPack (polyZUnpack buf) = buf.take 640 := by
  have taken : (buf.take 640).length = 640 := List.length_take_of_le enough
  rw [polyZPack_eq fun n bound => coeff_polyZUnpack_range enough bound,
    ← bitPack_bitField (show 20 * 256 = 8 * (buf.take 640).length by rw [taken])]
  apply bitPack_congr
  intro n bound
  have initial : bitField 20 (buf.take 640 ++ buf.drop 640) n =
      bitField 20 (buf.take 640) n := bitField_append (by omega)
  rw [List.take_append_drop] at initial
  rw [coeff_polyZUnpack enough bound, initial]
  omega

theorem polyZUnpack_polyZPack {a : Poly}
    (range : ∀ n < 256, -gamma1 < a.coeff n ∧ a.coeff n ≤ gamma1) (rest : List UInt8) :
    polyZUnpack (polyZPack a ++ rest) = a := by
  have small : ∀ n, (gamma1 - a.coeff n).toNat < 2 ^ 20 := by
    intro n
    rcases Nat.lt_or_ge n 256 with bound | beyond
    · have inRange := range n bound
      rw [gamma1] at inRange ⊢
      omega
    · rw [coeff_of_ge a beyond]
      decide
  have length := length_polyZPack a
  apply ext_coeff
  intro n bound
  have inRange := range n bound
  rw [coeff_polyZUnpack (by rw [List.length_append]; omega) bound,
    bitField_append (by omega), polyZPack_eq range, bitField_bitPack small ⟨640, rfl⟩ bound]
  omega

/-! ## Rows -/

theorem bitField_packRows {rows width : ℕ} {fields : Fin rows → ℕ → ℕ}
    (small : ∀ i, ∀ k < 256, fields i k < 2 ^ width) (before behind : List UInt8)
    (i : Fin rows) {n : ℕ} (bound : n < 256) :
    bitField width ((before ++ Spec.packRows width fields ++ behind).drop
      (before.length + i * (width * 32))) n = fields i n := by
  have lengths : ∀ i, (bitPack width (fields i) 256).length = width * 32 := by
    intro i
    rw [length_bitPack]
    omega
  have inRange : ∀ k, (if k < 256 then fields i k else 0) < 2 ^ width := by
    intro k
    split
    · exact small i k ‹_›
    · exact Nat.two_pow_pos _
  have row : bitPack width (fields i) 256 =
      bitPack width (fun k => if k < 256 then fields i k else 0) 256 :=
    bitPack_congr fun k within => (if_pos within).symm
  have aligned : 8 ∣ width * 256 := ⟨width * 32, by ring⟩
  have whole : width * (n + 1) ≤ 8 * (bitPack width (fields i) 256).length := by
    rw [lengths]
    calc width * (n + 1) ≤ width * 256 := Nat.mul_le_mul_left _ bound
      _ = 8 * (width * 32) := by ring
  obtain ⟨rest, split⟩ := drop_flatMap_rows lengths i
  have inside : i * (width * 32) ≤ (Spec.packRows width fields).length := by
    rw [Spec.packRows, length_flatMap_rows lengths, List.length_finRange]
    exact Nat.mul_le_mul_right _ i.isLt.le
  rw [List.append_assoc, ← List.drop_drop, List.drop_left,
    List.drop_append_of_le_length inside, Spec.packRows, split, List.append_assoc,
    bitField_append whole, row, bitField_bitPack inRange aligned bound, if_pos bound]

theorem flatMap_polyW1Pack {w1 : PolyVecK} {value : Fin 8 → ℕ → ℤ}
    (agrees : ∀ i : Fin 8, ∀ n < 256, w1[i].coeff n = value i n)
    (range : ∀ i, ∀ n < 256, 0 ≤ value i n ∧ value i n < 16) :
    ((List.finRange 8).flatMap fun i => polyW1Pack w1[i]) = Spec.w1Encode value := by
  have rows : ∀ i : Fin 8,
      polyW1Pack w1[i] = bitPack 4 (fun n => (value i n).toNat) 256 := by
    intro i
    rw [polyW1Pack_eq fun n bound => by
      rw [agrees i n bound]
      exact range i n bound]
    exact bitPack_congr fun n bound => by rw [agrees i n bound]
  simp only [rows, Spec.w1Encode, Spec.packRows]

theorem flatMap_polyZPack {z : PolyVecL} {value : Fin 7 → ℕ → ℤ}
    (agrees : ∀ j : Fin 7, ∀ n < 256, z[j].coeff n = value j n)
    (range : ∀ j, ∀ n < 256, |value j n| < gamma1) :
    ((List.finRange 7).flatMap fun j => polyZPack z[j]) =
      Spec.packRows 20 fun j n => (gamma1 - value j n).toNat := by
  have rows : ∀ j : Fin 7,
      polyZPack z[j] = bitPack 20 (fun n => (gamma1 - value j n).toNat) 256 := by
    intro j
    rw [polyZPack_eq fun n bound => by
      have small := abs_lt.mp (range j n bound)
      rw [agrees j n bound]
      exact ⟨small.1, small.2.le⟩]
    exact bitPack_congr fun n bound => by rw [agrees j n bound]
  simp only [rows, Spec.packRows]

theorem messageDigest_eq (shake : Shake) (pk message : List UInt8) :
    messageDigest shake pk message = Spec.digest shake pk message := by
  have pre : messagePre = [0, 8] ++ ctx := rfl
  simp only [messageDigest, Spec.digest, pre, List.append_assoc]

end LedgerQrl.Mldsa87
