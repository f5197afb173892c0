import LedgerQrl.Mldsa87.Encoding
import LedgerQrl.Mldsa87.HintEncoding

namespace LedgerQrl.Mldsa87

open Foundation Poly InternalStorage

/-! # The encoding of signatures

Packing and unpacking are inverse to each other between triples in range and
accepted byte strings. -/

namespace InternalStorage

def sigRegion : Region InternalStorage (Vector UInt8 4627) where
  read storage := storage.sig
  write content storage := { storage with sig := content }
  read_write _ _ := rfl
  write_read := Eq.refl
  write_write _ _ _ := rfl

end InternalStorage

/-! ## Packing -/

def packedSignature (c : List UInt8) (z : PolyVecL) (h : PolyVecK) : List UInt8 :=
  c ++ ((List.finRange 7).flatMap fun j => polyZPack z[j]) ++ packHints h

theorem length_packedRows (z : PolyVecL) :
    ((List.finRange 7).flatMap fun j => polyZPack z[j]).length = 4480 := by
  rw [length_flatMap_rows fun j : Fin 7 => length_polyZPack z[j], List.length_finRange]

theorem length_packedSignature {c : List UInt8} (length : c.length = 64) (z : PolyVecL)
    (h : PolyVecK) : (packedSignature c z h).length = 4627 := by
  rw [packedSignature, List.length_append, List.length_append, length, length_packedRows,
    length_packHints]

theorem finish_packSigVolatile {c : List UInt8} (length : c.length = 64)
    (storage : InternalStorage) :
    (packSigVolatile c zRegion.read hRegion.read).finish storage =
      { storage with
        sig := writeBytes 0 (packedSignature c storage.z storage.h) storage.sig } := by
  have each : ∀ (j : Fin 7) (storage : InternalStorage),
      (polyZPack (zRegion.read storage)[j]).length = 640 :=
    fun j storage => length_polyZPack _
  have rows := Program.finish_forRows_put sigRegion writeBytes
    (fun start before bytes content _ => writeBytes_append start before bytes content)
    each (fun i content storage => rfl) (show 64 + 7 * 640 ≤ 4627 by norm_num)
    (sigRegion.write (writeBytes 0 c storage.sig) storage)
  have joined := writeBytes_append 0 c
    ((List.finRange 7).flatMap fun j => polyZPack storage.z[j]) storage.sig
  have body : (c ++ (List.finRange 7).flatMap fun j => polyZPack storage.z[j]).length =
      4544 := by
    rw [List.length_append, length, length_packedRows]
  have hints := writeBytes_append 0 (c ++
    (List.finRange 7).flatMap fun j => polyZPack storage.z[j]) (packHints storage.h)
    storage.sig
  have cover : (List.replicate 83 (0 : UInt8)).length ≤ (packHints storage.h).length := by
    rw [List.length_replicate, length_packHints]
  rw [length, Nat.zero_add] at joined
  rw [body, Nat.zero_add] at hints
  have unchanged : ∀ content, zRegion.read (sigRegion.write content storage) =
      storage.z := fun _ => rfl
  simp only [Region.read_write, Region.write_write, unchanged] at rows
  rw [packSigVolatile]
  simp only [Program.finish_bind, Program.finish_update]
  have packed : (Program.forRows 7 fun b => Program.update fun storage : InternalStorage =>
      { storage with
        sig := writeBytes (64 + b * 640) (polyZPack (zRegion.read storage)[b])
          storage.sig }).finish
        { storage with sig := writeBytes 0 c storage.sig } =
      { storage with
        sig := writeBytes 64 ((List.finRange 7).flatMap fun j => polyZPack storage.z[j])
          (writeBytes 0 c storage.sig) } := rows
  rw [packed]
  simp only [read_hRegion, writeBytes_cover 4544 cover, joined, hints, packedSignature]

theorem toList_packSigVolatile {c : List UInt8} (length : c.length = 64)
    (storage : InternalStorage) :
    ((packSigVolatile c zRegion.read hRegion.read).finish storage).sig.toList =
      packedSignature c storage.z storage.h := by
  rw [finish_packSigVolatile length]
  exact toList_writeBytes (length_packedSignature length _ _) storage.sig

/-! ## Unpacking what was packed -/

section Packed

variable {c : List UInt8} (length : c.length = 64) (z : PolyVecL) (h : PolyVecK)

include length

theorem take_packedSignature : (packedSignature c z h).take 64 = c := by
  rw [packedSignature, List.append_assoc, ← length, List.take_left]

theorem drop_packedSignature_hints : (packedSignature c z h).drop 4544 = packHints h := by
  have body : (c ++ (List.finRange 7).flatMap fun j => polyZPack z[j]).length = 4544 := by
    rw [List.length_append, length, length_packedRows]
  rw [packedSignature, ← body, List.drop_left]

theorem drop_packedSignature_row (j : Fin 7) :
    ∃ rest, (packedSignature c z h).drop (64 + j * 640) = polyZPack z[j] ++ rest := by
  obtain ⟨rest, split⟩ := drop_flatMap_rows (fun j : Fin 7 => length_polyZPack z[j]) j
  have inside : j * 640 ≤ ((List.finRange 7).flatMap fun j => polyZPack z[j]).length := by
    rw [length_packedRows]
    omega
  refine ⟨rest ++ packHints h, ?_⟩
  rw [packedSignature, List.append_assoc, ← List.drop_drop, ← length, List.drop_left,
    List.drop_append_of_le_length inside, split, List.append_assoc]

end Packed

def hintsOf (h : PolyVecK) : Spec.Hints := fun i n => h[i].coeff n = 1

/-- A triple that a signature can hold. -/
structure ValidTriple (c : List UInt8) (z : PolyVecL) (h : PolyVecK) : Prop where
  length : c.length = 64
  response : ∀ j : Fin 7, ∀ n < 256, -gamma1 < z[j].coeff n ∧ z[j].coeff n ≤ gamma1
  hints : ∀ i : Fin 8, ∀ n < 256, h[i].coeff n = 0 ∨ h[i].coeff n = 1
  few : Spec.hintCount (hintsOf h) ≤ omegaMax

namespace ValidTriple

variable {c : List UInt8} {z : PolyVecL} {h : PolyVecK} (valid : ValidTriple c z h)

include valid

theorem packHints_eq : packHints h = Spec.hintEncode (hintsOf h) := by
  apply Mldsa87.packHints_eq
  · intro i n bound
    rw [hintsOf, decide_eq_true_iff]
    rcases valid.hints i n bound with zero | one
    · rw [zero]
      decide
    · rw [one]
      decide
  · exact valid.few

theorem hintWords_eq : hintWords (packHints h) = h := by
  ext1 i bound
  apply ext_coeff
  intro n inRange
  rw [hintWords, Vector.getElem_ofFn, hintRow, coeff_ofFn _ inRange, valid.packHints_eq,
    hintAt_hintEncode valid.few ⟨i, bound⟩ inRange, hintsOf]
  have word := valid.hints ⟨i, bound⟩ n inRange
  rw [getElem_index] at word ⊢
  rcases word with zero | one
  · simp only [zero]
    decide
  · simp only [one]
    decide

theorem unpack_packed (storage : InternalStorage) :
    (unpackSigVolatile zRegion hRegion (packedSignature c z h)).value storage = true ∧
      (unpackSigVolatile zRegion hRegion (packedSignature c z h)).finish storage =
        { storage with z := z, h := h } := by
  have wellFormed : Spec.WellFormedHints ((packedSignature c z h).drop 4544) := by
    rw [drop_packedSignature_hints valid.length, valid.packHints_eq]
    exact wellFormed_hintEncode valid.few
  refine ⟨(unpackSigVolatile_value _ _ _ _).mpr wellFormed, ?_⟩
  have rows : (Vector.ofFn fun j : Fin 7 =>
      polyZUnpack ((packedSignature c z h).drop (64 + j * 640))) = z := by
    ext1 j bound
    obtain ⟨rest, split⟩ := drop_packedSignature_row valid.length z h ⟨j, bound⟩
    rw [Vector.getElem_ofFn, split, polyZUnpack_polyZPack (valid.response ⟨j, bound⟩)]
    rfl
  rw [unpackSigVolatile_finish _ storage wellFormed, rows,
    drop_packedSignature_hints valid.length, valid.hintWords_eq]

end ValidTriple

/-! ## Packing what was unpacked -/

namespace Spec

variable {bytes : List UInt8} (wellFormed : WellFormedHints bytes)

include wellFormed

theorem WellFormedHints.lt_of_lt {i : ℕ} (bound : i < 8) {first : ℕ}
    (above : hintStart bytes i ≤ first) :
    ∀ {second : ℕ}, first < second → second < hintEnd bytes i →
      byteAt bytes first < byteAt bytes second := by
  intro second
  induction second with
  | zero => exact fun before => absurd before (Nat.not_lt_zero first)
  | succ second induction =>
      intro before within
      have next := wellFormed.increasing i bound (second + 1) (by omega) within
      rw [Nat.add_sub_cancel] at next
      rcases Nat.eq_or_lt_of_le (Nat.le_of_lt_succ before) with rfl | earlier
      · exact next
      · exact (induction earlier (by omega)).trans next

theorem WellFormedHints.rowPositions_eq (i : Fin 8) :
    rowPositions (hintAt bytes i) =
      (List.range' (hintStart bytes i) (hintEnd bytes i - hintStart bytes i)).map
        (byteAt bytes) := by
  apply List.Pairwise.eq_of_mem_iff (rowPositions_increasing _)
  · rw [List.pairwise_map]
    refine List.Pairwise.imp_of_mem ?_ List.pairwise_lt_range'
    intro first second firstIn secondIn before
    rw [List.mem_range'_1] at firstIn secondIn
    exact wellFormed.lt_of_lt i.isLt firstIn.1 before (by omega)
  · intro n
    rw [mem_rowPositions, hintAt, List.any_eq_true, List.mem_map]
    simp only [decide_eq_true_eq]
    constructor
    · exact fun found => found.2
    · intro found
      obtain ⟨j, _, rfl⟩ := id found
      exact ⟨byteAt_lt bytes j, found⟩

theorem WellFormedHints.positions_eq : ∀ {i : ℕ}, i ≤ 8 →
    positions (hintAt bytes) i = (List.range (hintStart bytes i)).map (byteAt bytes) := by
  intro i
  induction i with
  | zero => exact fun _ => rfl
  | succ i induction =>
      intro bound
      have ends := (wellFormed.ends i bound).1
      have next := positions_succ (hintAt bytes) ⟨i, bound⟩
      have parts : List.range (hintStart bytes i) ++
          List.range' (hintStart bytes i) (hintEnd bytes i - hintStart bytes i) =
            List.range (hintEnd bytes i) := by
        have appended : List.range' 0 (hintStart bytes i) ++
            List.range' (0 + hintStart bytes i) (hintEnd bytes i - hintStart bytes i) =
              List.range' 0 (hintStart bytes i + (hintEnd bytes i - hintStart bytes i)) :=
          List.range'_append_1
        rw [Nat.zero_add, Nat.add_sub_cancel' ends] at appended
        rw [List.range_eq_range', List.range_eq_range', appended]
      rw [wellFormed.rowPositions_eq ⟨i, bound⟩] at next
      dsimp only at next
      rw [next, induction (by omega), ← List.map_append, parts]
      rfl

theorem WellFormedHints.length_positions {i : ℕ} (bound : i ≤ 8) :
    (positions (hintAt bytes) i).length = hintStart bytes i := by
  rw [wellFormed.positions_eq bound, List.length_map, List.length_range]

theorem WellFormedHints.few : hintCount (hintAt bytes) ≤ 75 := by
  rw [hintCount, wellFormed.length_positions le_rfl]
  exact (wellFormed.ends 7 (by norm_num)).2

theorem WellFormedHints.hintEncode_hintAt (length : bytes.length = 83) :
    hintEncode (hintAt bytes) = bytes := by
  have few := wellFormed.few
  apply ext_byteValue (by rw [length_hintEncode few, length])
  intro index bound
  change byteAt (hintEncode (hintAt bytes)) index = byteAt bytes index
  rcases Nat.lt_or_ge index 75 with low | high
  · rw [byteAt_hintEncode few low, wellFormed.positions_eq le_rfl, List.getElem?_map]
    rcases Nat.lt_or_ge index (hintStart bytes 8) with used | free
    · rw [List.getElem?_range used]
      rfl
    · rw [List.getElem?_eq_none (by rwa [List.length_range])]
      exact (wellFormed.unused index free low).symm
  · obtain ⟨i, rfl⟩ := Nat.exists_eq_add_of_le high
    have ending := hintEnd_hintEncode few (show i < 8 by omega)
    rw [wellFormed.length_positions (by omega)] at ending
    exact ending

end Spec

section Unpacked

variable {sig : List UInt8} (length : sig.length = 4627)
  (wellFormed : Spec.WellFormedHints (sig.drop 4544))

theorem hintsOf_hintWords (bytes : List UInt8) (i : Fin 8) {n : ℕ} (bound : n < 256) :
    hintsOf (hintWords bytes) i n = Spec.hintAt bytes i n := by
  have word : (hintWords bytes)[i] = hintRow bytes i := by
    rw [hintWords, getElem_index, Vector.getElem_ofFn]
  rw [hintsOf, word, hintRow, coeff_ofFn _ bound]
  cases Spec.hintAt bytes i n
  · rfl
  · rfl

theorem hintCount_hintsOf_hintWords (bytes : List UInt8) :
    Spec.hintCount (hintsOf (hintWords bytes)) = Spec.hintCount (Spec.hintAt bytes) := by
  have rows : ∀ i, Spec.rowPositions (hintsOf (hintWords bytes) i) =
      Spec.rowPositions (Spec.hintAt bytes i) := by
    intro i
    apply List.filter_congr
    intro n inRange
    rw [hintsOf_hintWords bytes i (List.mem_range.mp inRange)]
  simp only [Spec.hintCount, Spec.positions, rows]

include length

theorem flatMap_polyZPack_unpacked :
    ((List.finRange 7).flatMap fun j : Fin 7 =>
      polyZPack (polyZUnpack (sig.drop (64 + j * 640)))) = (sig.drop 64).take 4480 := by
  have row : ∀ j : Fin 7, polyZPack (polyZUnpack (sig.drop (64 + j * 640))) =
      ((sig.drop 64).drop (j * 640)).take 640 := by
    intro j
    rw [polyZPack_polyZUnpack (by rw [List.length_drop]; omega), List.drop_drop]
  simp only [row]
  have rows : ∀ count ≤ 7, (((List.finRange 7).take count).flatMap fun j : Fin 7 =>
      ((sig.drop 64).drop (j * 640)).take 640) = (sig.drop 64).take (count * 640) := by
    intro count
    induction count with
    | zero => exact fun _ => by simp
    | succ count induction =>
        intro bound
        have items : (List.finRange 7).take (count + 1) =
            (List.finRange 7).take count ++ [⟨count, bound⟩] := by
          rw [List.take_add_one, List.getElem?_eq_getElem (by simp; omega)]
          simp
        rw [items, List.flatMap_append, induction (by omega), List.flatMap_singleton,
          Nat.succ_mul, List.take_add]
  have whole := rows 7 le_rfl
  rwa [List.take_of_length_le (by simp)] at whole

include wellFormed

theorem packedSignature_unpacked :
    packedSignature (sig.take 64)
      (Vector.ofFn fun j : Fin 7 => polyZUnpack (sig.drop (64 + j * 640)))
      (hintWords (sig.drop 4544)) = sig := by
  have hints : packHints (hintWords (sig.drop 4544)) = sig.drop 4544 := by
    have size : (sig.drop 4544).length = 83 := by
      rw [List.length_drop, length]
    have packed : packHints (hintWords (sig.drop 4544)) =
        Spec.hintEncode (Spec.hintAt (sig.drop 4544)) := by
      apply packHints_eq
      · intro i n bound
        rw [hintWords, getElem_index, Vector.getElem_ofFn, hintRow, coeff_ofFn _ bound]
        cases Spec.hintAt (sig.drop 4544) i n <;> decide
      · exact wellFormed.few
    rw [packed, wellFormed.hintEncode_hintAt size]
  have rows := flatMap_polyZPack_unpacked length
  have first : sig.take 64 ++ (sig.drop 64).take 4480 = sig.take 4544 := by
    rw [← List.take_add]
  rw [packedSignature, hints]
  simp only [getElem_index, Vector.getElem_ofFn]
  rw [rows, first, List.take_append_drop]

end Unpacked

/-- The encoding is a bijection between valid triples and accepted signatures. -/
theorem signature_bijection :
    (∀ (c : List UInt8) (storage prior : InternalStorage),
      ValidTriple c storage.z storage.h →
        let sig := ((packSigVolatile c zRegion.read hRegion.read).finish storage).sig.toList
        let unpacked := unpackSigVolatile zRegion hRegion sig
        unpacked.value prior = true ∧ sig.take 64 = c ∧
          (unpacked.finish prior).z = storage.z ∧ (unpacked.finish prior).h = storage.h) ∧
    ∀ (sig : Vector UInt8 4627) (prior : InternalStorage),
      (unpackSigVolatile zRegion hRegion sig.toList).value prior = true →
        let decoded := (unpackSigVolatile zRegion hRegion sig.toList).finish prior
        ValidTriple (sig.toList.take 64) decoded.z decoded.h ∧
          ((packSigVolatile (sig.toList.take 64) zRegion.read hRegion.read).finish
            decoded).sig = sig := by
  constructor
  · intro c storage prior valid
    dsimp only
    rw [toList_packSigVolatile valid.length]
    obtain ⟨accepted, stored⟩ := valid.unpack_packed prior
    rw [stored]
    exact ⟨accepted, take_packedSignature valid.length _ _, rfl, rfl⟩
  · intro sig prior accepted
    have length : sig.toList.length = 4627 := sig.length_toList
    have first : (sig.toList.take 64).length = 64 := by
      rw [List.length_take, length]
      rfl
    have wellFormed := (unpackSigVolatile_value _ _ _ _).mp accepted
    dsimp only
    constructor
    · rw [unpackSigVolatile_finish _ prior wellFormed]
      refine ⟨first, ?_, ?_, ?_⟩
      · intro j n bound
        rw [getElem_index, Vector.getElem_ofFn]
        exact coeff_polyZUnpack_range (by rw [List.length_drop, length]; omega) bound
      · intro i n bound
        rw [hintWords, getElem_index, Vector.getElem_ofFn, hintRow, coeff_ofFn _ bound]
        split
        · exact .inr rfl
        · exact .inl rfl
      · rw [hintCount_hintsOf_hintWords]
        exact wellFormed.few
    · apply Vector.toList_inj.mp
      rw [toList_packSigVolatile first, unpackSigVolatile_finish _ prior wellFormed]
      exact packedSignature_unpacked length wellFormed

def hinted : InternalStorage where
  __ := InternalStorage.zeroed
  z := Vector.ofFn fun j => falling (524288 - j) 4096
  h := Vector.ofFn fun i => Vector.ofFn fun n => if n.val = 36 * i.val then 1 else 0

theorem coeff_hinted (i : Fin 8) {n : ℕ} (bound : n < 256) :
    hinted.h[i].coeff n = if n = 36 * i.val then 1 else 0 := by
  rw [hinted, getElem_index, Vector.getElem_ofFn, coeff_ofFn _ bound]

theorem hintCount_hinted : Spec.hintCount (hintsOf hinted.h) = 8 := by
  have row : ∀ i : Fin 8, Spec.rowPositions (hintsOf hinted.h i) =
      (List.range 256).filter (· = 36 * i.val) := by
    intro i
    apply List.filter_congr
    intro n member
    rw [hintsOf, coeff_hinted i (List.mem_range.mp member)]
    split
    · rename_i same
      simp [same]
    · rename_i other
      simp [other]
  rw [Spec.hintCount, Spec.positions]
  simp only [row]
  decide +kernel

theorem validTriple_hinted : ValidTriple (List.replicate 64 7) hinted.z hinted.h where
  length := List.length_replicate
  response := by
    intro j n bound
    rw [hinted, getElem_index, Vector.getElem_ofFn, coeff_falling _ _ bound, gamma1]
    omega
  hints := by
    intro i n bound
    rw [coeff_hinted i bound]
    split
    · exact .inr rfl
    · exact .inl rfl
  few := by
    rw [hintCount_hinted]
    decide

theorem signature_bijection_hinted :
    let sig := ((packSigVolatile (List.replicate 64 7) zRegion.read hRegion.read).finish
      hinted).sig
    let unpacked := unpackSigVolatile zRegion hRegion sig.toList
    unpacked.value .zeroed = true ∧ sig.toList.take 64 = List.replicate 64 7 ∧
      (unpacked.finish .zeroed).z = hinted.z ∧ (unpacked.finish .zeroed).h = hinted.h ∧
      ((packSigVolatile (sig.toList.take 64) zRegion.read hRegion.read).finish
        (unpacked.finish .zeroed)).sig = sig := by
  obtain ⟨accepted, challenge, response, hints⟩ :=
    signature_bijection.1 (List.replicate 64 7) hinted .zeroed validTriple_hinted
  have packed := (signature_bijection.2 _ .zeroed accepted).2
  exact ⟨accepted, challenge, response, hints, packed⟩

end LedgerQrl.Mldsa87
