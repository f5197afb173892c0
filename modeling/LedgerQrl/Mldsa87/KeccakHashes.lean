import LedgerQrl.Mldsa87.Keccakf
import LedgerQrl.Mldsa87.Sponges

namespace LedgerQrl.Mldsa87

open Foundation

/-! # The hash functions of the device

With `keccakf`, the sponges over bytes are the sponges over the bits of the
Keccak permutation. -/

def byteBits (byte : UInt8) : List (ZMod 2) :=
  (List.range 8).map fun index => if byte.toBitVec.getLsbD index then 1 else 0

def byteOfBits (bits : List (ZMod 2)) : UInt8 :=
  UInt8.ofNat (bits.foldr (fun bit rest => bit.val + 2 * rest) 0)

theorem length_byteBits (byte : UInt8) : (byteBits byte).length = 8 := by
  rw [byteBits, List.length_map, List.length_range]

theorem byteOfBits_byteBits (byte : UInt8) : byteOfBits (byteBits byte) = byte := by
  have all : ∀ vector : BitVec 8, byteOfBits (byteBits (UInt8.ofBitVec vector)) =
      UInt8.ofBitVec vector := by decide +kernel
  exact all byte.toBitVec

theorem getElem?_byteBits (byte : UInt8) {index : ℕ} (within : index < 8) :
    (byteBits byte)[index]? = some (if byte.toBitVec.getLsbD index then 1 else 0) := by
  rw [byteBits, List.getElem?_map, List.getElem?_range within, Option.map_some]

theorem getD_byteBits (byte : UInt8) (index : ℕ) :
    (byteBits byte)[index]?.getD 0 = if byte.toBitVec.getLsbD index then 1 else 0 := by
  by_cases within : index < 8
  · rw [getElem?_byteBits byte within, Option.getD_some]
  · have beyond : byte.toBitVec.getLsbD index = false :=
      BitVec.getLsbD_of_ge _ _ (Nat.le_of_not_lt within)
    rw [List.getElem?_eq_none (by rw [length_byteBits]; omega), beyond]
    rfl

/-! ## Bytes of words -/

theorem wordAt_of_lt {size index : ℕ} (words : Vector UInt64 size) (bound : index < size) :
    wordAt words index = words[index] := by
  rw [wordAt, Vector.getElem?_eq_getElem bound, Option.getD_some]

theorem bit_shiftedByte (byte : UInt8) {n : ℕ} (small : n < 64) (z : Lane) :
    bit (byte.toUInt64 <<< UInt64.ofNat n) z =
      if n ≤ z.val then (byteBits byte)[z.val - n]?.getD 0 else 0 := by
  have bound : z.val < 64 := ZMod.val_lt z
  rw [bit, UInt64.toBitVec_shiftLeft, shiftAmount small, BitVec.shiftLeft_eq',
    BitVec.toNat_ofNat, Nat.mod_eq_of_lt (by omega), BitVec.getLsbD_shiftLeft,
    decide_eq_true bound, Bool.true_and, getD_byteBits]
  by_cases above : n ≤ z.val
  · rw [if_pos above, decide_eq_false (Nat.not_lt.mpr above), Bool.not_false, Bool.true_and,
      UInt8.toBitVec_toUInt64, BitVec.getLsbD_setWidth, decide_eq_true (by omega),
      Bool.true_and]
  · rw [if_neg above, decide_eq_true (Nat.lt_of_not_le above)]
    rfl

theorem getLsbD_stateByte (s : Vector UInt64 25) (pos : ℕ) {index : ℕ} (within : index < 8) :
    (Keccak256Ctx.stateByte s pos).toBitVec.getLsbD index =
      (wordAt s (pos / 8)).toBitVec.getLsbD (8 * (pos % 8) + index) := by
  have small : 8 * (pos % 8) < 64 := by omega
  have mask : ((0xFF : UInt64).toBitVec).getLsbD index = true := by
    revert within
    revert index
    decide
  rw [Keccak256Ctx.stateByte, UInt64.toBitVec_toUInt8, BitVec.getLsbD_setWidth,
    decide_eq_true within, Bool.true_and, UInt64.toBitVec_and, BitVec.getLsbD_and, mask,
    Bool.and_true, UInt64.toBitVec_shiftRight, shiftAmount small, BitVec.ushiftRight_eq',
    BitVec.toNat_ofNat, Nat.mod_eq_of_lt (by omega), BitVec.getLsbD_ushiftRight]
  rfl

/-! ## The two sponges -/

section Regroups

theorem keccakBits_xorByte (s : Vector UInt64 25) (pos : ℕ) (byte : UInt8) {bits : ℕ}
    (room : 0 < bits) :
    keccakBits (Keccak256Ctx.xorByte s pos byte) =
      (Keccak.sponge 6 bits room).mixFrom (keccakBits s) (8 * pos) (byteBits byte) := by
  funext x y z
  have bound : z.val < 64 := ZMod.val_lt z
  have place : Keccak.place x y z = 64 * (x.val + 5 * y.val) + z.val := by
    rw [Keccak.place, Nat.add_comm x.val]
    rfl
  have word : wordAt (Keccak256Ctx.xorByte s pos byte) (x.val + 5 * y.val) =
      if x.val + 5 * y.val = pos / 8 then
        wordAt s (x.val + 5 * y.val) ^^^ byte.toUInt64 <<< UInt64.ofNat (8 * (pos % 8))
      else wordAt s (x.val + 5 * y.val) := by
    rw [Keccak256Ctx.xorByte, wordAt_ofFn _ (place_lt x y), wordAt_of_lt s (place_lt x y)]
    rfl
  rw [Keccak.mixFrom_apply, keccakBits, word, place]
  by_cases here : x.val + 5 * y.val = pos / 8
  · have offset : 64 * (x.val + 5 * y.val) + z.val - 8 * pos = z.val - 8 * (pos % 8) := by
      omega
    rw [if_pos here, bit_xor, bit_shiftedByte byte (by omega), offset]
    by_cases above : 8 * (pos % 8) ≤ z.val
    · rw [if_pos above, if_pos (by omega)]
      rfl
    · rw [if_neg above, if_neg (by omega)]
      rfl
  · rw [if_neg here]
    by_cases before : 8 * pos ≤ 64 * (x.val + 5 * y.val) + z.val
    · rw [if_pos before, List.getElem?_eq_none (by rw [length_byteBits]; omega),
        Option.getD_none, add_zero]
      rfl
    · rw [if_neg before, add_zero]
      rfl

theorem getLsbD_keccakBits (s : Vector UInt64 25) {word place : ℕ} (inside : word < 25)
    (bound : place < 64) :
    keccakBits s (word : ℕ) (word / 5 : ℕ) (place : ℕ) =
      if (wordAt s word).toBitVec.getLsbD place then 1 else 0 := by
  have row : ((word : ℕ) : ZMod 5).val = word % 5 := ZMod.val_natCast 5 word
  have column : ((word / 5 : ℕ) : ZMod 5).val = word / 5 := by
    rw [ZMod.val_natCast, Nat.mod_eq_of_lt (by omega)]
  have depth : ((place : ℕ) : Lane).val = place := by
    rw [ZMod.val_natCast]
    exact Nat.mod_eq_of_lt bound
  have index : word % 5 + 5 * (word / 5) = word := Nat.mod_add_div word 5
  rw [keccakBits, row, column, index, bit, depth]

variable (uninitialised : ℕ → Vector UInt64 25) {rate : ℕ} (positive : 0 < rate)
  (bitsPositive : 0 < 8 * rate)

theorem keccakSponge_regroups (small : rate ≤ 200) :
    (keccakSponge (keccakf uninitialised) rate positive).Regroups
      (Keccak.sponge 6 (8 * rate) bitsPositive) keccakBits byteBits 8 where
  length := length_byteBits
  rate := rfl
  permute := keccakBits_keccakf uninitialised
  mix s pos byte _ := by
    rw [keccakSponge_mix]
    exact keccakBits_xorByte s pos byte bitsPositive
  readAt s pos inside index within := by
    have free : pos < rate := inside
    have word : (8 * pos + index) / 2 ^ 6 = pos / 8 := by omega
    have place : ((8 * pos + index : ℕ) : Lane) = ((8 * (pos % 8) + index : ℕ) : Lane) := by
      rw [← ZMod.natCast_mod (8 * pos + index) (2 ^ 6)]
      congr 1
      omega
    rw [keccakSponge_readAt]
    have read : (Keccak.sponge 6 (8 * rate) bitsPositive).readAt (keccakBits s)
        (8 * pos + index) = Keccak.bitAt (keccakBits s) (8 * pos + index) := rfl
    rw [read, Keccak.bitAt, word, place,
      getLsbD_keccakBits s (by omega) (by omega), ← getLsbD_stateByte s pos within]
    exact getElem?_byteBits _ within

end Regroups

/-! ## Padding

The suffix brings the bits that separate the functions, and the first bit of the
padding. -/

theorem byteBits_padding {suffix : UInt8} {domain : List (ZMod 2)} (short : domain.length ≤ 5)
    (bits : byteBits suffix = domain ++ 1 :: List.replicate (7 - domain.length) 0)
    (last : byteBits (suffix ^^^ 0x80) =
      domain ++ 1 :: (List.replicate (6 - domain.length) 0 ++ [1])) :
    ∀ free, 0 < free → (padding suffix free).flatMap byteBits =
      domain ++ 1 :: (List.replicate (8 * free - domain.length - 2) 0 ++ [1])
  | 1, _ => by
      have count : 8 * 1 - domain.length - 2 = 6 - domain.length := by omega
      rw [padding, List.flatMap_singleton, last, count]
  | free + 2, _ => by
      have zeros : ∀ count, (List.replicate count (0 : UInt8)).flatMap byteBits =
          List.replicate (8 * count) 0 := by
        intro count
        induction count with
        | zero => rfl
        | succ count induction =>
            have zero : byteBits 0 = List.replicate 8 0 := by decide
            rw [List.replicate_succ, List.flatMap_cons, induction, zero,
              ← List.replicate_add]
            congr 1
            omega
      have final : byteBits 0x80 = List.replicate 7 0 ++ [1] := by decide
      have count : 8 * (free + 2) - domain.length - 2 =
          7 - domain.length + (8 * free + 7) := by omega
      rw [padding, List.flatMap_cons, List.flatMap_append, zeros, List.flatMap_singleton,
        final, bits, count, List.replicate_add, List.replicate_add]
      simp only [List.append_assoc, List.cons_append]

theorem byteBits_padded {rate : ℕ} (positive : 0 < rate) {suffix : UInt8}
    {domain : List (ZMod 2)} (short : domain.length ≤ 5)
    (bits : byteBits suffix = domain ++ 1 :: List.replicate (7 - domain.length) 0)
    (last : byteBits (suffix ^^^ 0x80) =
      domain ++ 1 :: (List.replicate (6 - domain.length) 0 ++ [1])) (message : List UInt8) :
    (padded rate suffix message).flatMap byteBits =
      message.flatMap byteBits ++ domain ++
        Keccak.padding (8 * rate) (message.flatMap byteBits ++ domain).length := by
  have count : ∀ bytes : List UInt8, (bytes.flatMap byteBits).length = 8 * bytes.length := by
    intro bytes
    induction bytes with
    | nil => rfl
    | cons byte rest induction =>
        rw [List.flatMap_cons, List.length_append, induction, length_byteBits,
          List.length_cons, Nat.mul_succ, Nat.add_comm]
  have left := Nat.mod_lt message.length positive
  have zeros : 8 * (rate - message.length % rate) - domain.length - 2 =
      (8 * rate - (8 * message.length + domain.length + 2) % (8 * rate)) % (8 * rate) := by
    have whole : (8 * message.length + domain.length + 2) % (8 * rate) =
        8 * (message.length % rate) + (domain.length + 2) := by
      have split := Nat.div_add_mod message.length rate
      have sum : 8 * message.length + domain.length + 2 =
          8 * (message.length % rate) + (domain.length + 2) +
            8 * rate * (message.length / rate) := by
        rw [Nat.mul_assoc]
        omega
      rw [sum, Nat.add_mul_mod_self_left]
      exact Nat.mod_eq_of_lt (by omega)
    have fits : 8 * rate - (8 * (message.length % rate) + (domain.length + 2)) <
        8 * rate := by omega
    rw [whole, Nat.mod_eq_of_lt fits]
    omega
  rw [padded, List.flatMap_append, byteBits_padding short bits last _ (by omega),
    List.append_assoc, Keccak.padding, List.length_append, count, zeros]

/-! ## The outputs -/

/-- Byte `n` of the output for the bits of a message and of the function. -/
def hashByte (rate : ℕ) (bitsPositive : 0 < 8 * rate) (domain : List (ZMod 2))
    (message : List UInt8) (n : ℕ) : UInt8 :=
  byteOfBits ((List.range 8).map fun index =>
    Keccak.output 6 (8 * rate) bitsPositive (message.flatMap byteBits ++ domain)
      (8 * n + index))

theorem spongeStream_keccakf (uninitialised : ℕ → Vector UInt64 25) {rate : ℕ}
    (positive : 0 < rate) (bitsPositive : 0 < 8 * rate) (small : rate ≤ 200) {suffix : UInt8}
    {domain : List (ZMod 2)} (short : domain.length ≤ 5)
    (bits : byteBits suffix = domain ++ 1 :: List.replicate (7 - domain.length) 0)
    (last : byteBits (suffix ^^^ 0x80) =
      domain ++ 1 :: (List.replicate (6 - domain.length) 0 ++ [1])) :
    spongeStream (keccakf uninitialised) rate positive suffix =
      hashByte rate bitsPositive domain := by
  funext message n
  have regroups := keccakSponge_regroups uninitialised positive bitsPositive small
  have zero : keccakBits (Vector.replicate 25 0) = fun _ _ _ => 0 := by
    funext x y z
    have word : wordAt (Vector.replicate 25 (0 : UInt64)) (x.val + 5 * y.val) = 0 := by
      rw [wordAt_of_lt _ (place_lt x y), Vector.getElem_replicate]
    rw [keccakBits, word, bit]
    simp
  have output : byteBits (spongeStream (keccakf uninitialised) rate positive suffix message n) =
      (List.range 8).map fun index =>
        Keccak.output 6 (8 * rate) bitsPositive (message.flatMap byteBits ++ domain)
          (8 * n + index) := by
    apply List.ext_getElem?
    intro index
    by_cases within : index < 8
    · rw [spongeStream, regroups.output _ _ within, regroups.absorbAll, zero,
        byteBits_padded positive short bits last, List.getElem?_map,
        List.getElem?_range within]
      rfl
    · rw [List.getElem?_eq_none (by rw [length_byteBits]; omega),
        List.getElem?_eq_none (by rw [List.length_map, List.length_range]; omega)]
  rw [hashByte, ← output, byteOfBits_byteBits]

theorem shake128Bits_positive : 0 < 8 * 168 := by decide

theorem shake256Bits_positive : 0 < 8 * 136 := by decide

/-- With `keccakf`, the three files compute the sponges of the Keccak permutation over
bits: four bits `1` separate SHAKE-128 and SHAKE-256, none Keccak-256. -/
theorem hashes_writeBits (uninitialised : ℕ → Vector UInt64 25) :
    WritesStream 168 (hashByte 168 shake128Bits_positive [1, 1, 1, 1]) shake128Init
        (shake128Absorb (keccakf uninitialised)) (shake128Finalize (keccakf uninitialised))
        (shake128Squeeze (keccakf uninitialised))
        (SpongeCtx.squeezeBytes (keccakf uninitialised) shake128Rate) SpongeCtx.pos
        (fun _ => True) ∧
      WritesStream 136 (hashByte 136 shake256Bits_positive [1, 1, 1, 1]) shake256Init
        (shake256Absorb (keccakf uninitialised)) (shake256Finalize (keccakf uninitialised))
        (shake256Squeeze (keccakf uninitialised))
        (SpongeCtx.squeezeBytes (keccakf uninitialised) shake256Rate) SpongeCtx.pos
        (fun _ => True) ∧
      WritesStream 136 (hashByte 136 shake256Bits_positive []) Keccak256Ctx.init
        (fun ctx bytes => Keccak256Ctx.absorb (keccakf uninitialised) bytes ctx)
        (Keccak256Ctx.finalize (keccakf uninitialised))
        (fun ctx _ => Keccak256Ctx.squeeze (keccakf uninitialised) ctx)
        (Keccak256Ctx.squeezeBytes (keccakf uninitialised)) Keccak256Ctx.pos
        fun outlens => ∀ outlen ∈ outlens, outlen = 32 := by
  have short : ([1, 1, 1, 1] : List (ZMod 2)).length ≤ 5 := by decide
  have shakeBits : byteBits 0x1F = [1, 1, 1, 1] ++ 1 :: List.replicate 3 0 := by decide
  have shakeLast : byteBits (0x1F ^^^ 0x80) =
      [1, 1, 1, 1] ++ 1 :: (List.replicate 2 0 ++ [1]) := by decide
  have onlyBits : byteBits 0x01 = [] ++ 1 :: List.replicate 7 0 := by decide
  have onlyLast : byteBits (0x01 ^^^ 0x80) = [] ++ 1 :: (List.replicate 6 0 ++ [1]) := by
    decide
  have shake128 : spongeStream (keccakf uninitialised) 168 shake128Rate_positive 0x1F =
      hashByte 168 shake128Bits_positive [1, 1, 1, 1] :=
    spongeStream_keccakf uninitialised _ _ (by decide) short shakeBits shakeLast
  have shake256 : spongeStream (keccakf uninitialised) 136 shake256Rate_positive 0x1F =
      hashByte 136 shake256Bits_positive [1, 1, 1, 1] :=
    spongeStream_keccakf uninitialised _ _ (by decide) short shakeBits shakeLast
  have keccak : spongeStream (keccakf uninitialised) 136 keccak256Rate_positive 0x01 =
      hashByte 136 shake256Bits_positive [] :=
    spongeStream_keccakf uninitialised _ _ (by decide) (Nat.zero_le _) onlyBits onlyLast
  refine ⟨?_, ?_, ?_⟩
  · rw [← shake128]
    exact SpongeCtx.writesStream (keccakf uninitialised) shake128Rate_positive 0x1F
  · rw [← shake256]
    exact SpongeCtx.writesStream (keccakf uninitialised) shake256Rate_positive 0x1F
  · rw [← keccak]
    exact Keccak256Ctx.writesStream (keccakf uninitialised)

/-- The digest of `abc` in `test_hash_kat.c`. -/
example : (keccak256 (keccakf fun _ => Vector.replicate 25 0) [0x61, 0x62, 0x63]).toList =
    [0x4e, 0x03, 0x65, 0x7a, 0xea, 0x45, 0xa9, 0x4f, 0xc7, 0xd4, 0x7b, 0xa8, 0x26, 0xc8,
      0xd6, 0x67, 0xc0, 0xd1, 0xe6, 0xe3, 0x3a, 0x64, 0xa0, 0x36, 0xec, 0x44, 0xf5, 0x8f,
      0xa1, 0x2d, 0x6c, 0x45] := by
  decide +kernel

end LedgerQrl.Mldsa87
