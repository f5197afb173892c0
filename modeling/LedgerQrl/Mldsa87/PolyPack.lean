import LedgerQrl.Foundation.Spanning
import LedgerQrl.Mldsa87.Encoding
import LedgerQrl.Mldsa87.Halting
import LedgerQrl.Mldsa87.Volatile

namespace LedgerQrl.Mldsa87

open Foundation Poly

/-! # The packers of `poly.c`

Every round of their loops handles a group of coefficients that fills whole bytes: it
fills an array `t` with numbers and stores the bytes of these, or the other way round. -/

namespace PolyPack

def eta : Int := 2

/-- `1 << (D - 1)`. -/
def halfD : Int := 4096

/-- The bytes of a loop over groups of `size` coefficients. -/
def packGroups (size : ℕ) (number : Int → ℕ) (group : (ℕ → ℕ) → List UInt8) (a : Poly) :
    List UInt8 :=
  (List.range (256 / size)).flatMap fun i => group fun k => number (a.coeff (size * i + k))

/-- The coefficients of a loop over groups of `bytes` bytes. -/
def unpackGroups (bytes size : ℕ) (group : (ℕ → ℕ) → List ℕ) (number : ℕ → Int)
    (a : List UInt8) : Poly :=
  Vector.ofFn fun index =>
    number ((group fun k => byteAt a (bytes * (index / size) + k)).getD (index % size) 0)

def etaBytes (t : ℕ → ℕ) : List UInt8 :=
  [UInt8.ofNat (t 0 >>> 0 ||| t 1 <<< 3 ||| t 2 <<< 6),
    UInt8.ofNat (t 2 >>> 2 ||| t 3 <<< 1 ||| t 4 <<< 4 ||| t 5 <<< 7),
    UInt8.ofNat (t 5 >>> 1 ||| t 6 <<< 2 ||| t 7 <<< 5)]

def polyEtaPack (a : Poly) : List UInt8 :=
  packGroups 8 (fun value => (u8 (i32 (eta - value))).toNat) etaBytes a

def etaFields (a : ℕ → ℕ) : List ℕ :=
  [(a 0 >>> 0) &&& 7, (a 0 >>> 3) &&& 7, (a 0 >>> 6 ||| a 1 <<< 2) &&& 7, (a 1 >>> 1) &&& 7,
    (a 1 >>> 4) &&& 7, (a 1 >>> 7 ||| a 2 <<< 1) &&& 7, (a 2 >>> 2) &&& 7, (a 2 >>> 5) &&& 7]

def polyEtaUnpack (a : List UInt8) : Poly :=
  unpackGroups 3 8 etaFields (fun field => i32 (eta - field)) a

def polyT1Pack (a : Poly) : List UInt8 :=
  (List.range 64).flatMap fun i =>
    let c := fun k => a.coeff (4 * i + k)
    [u8 (sar (c 0) 0), u8 (Int.lor (sar (c 0) 8) (shl (c 1) 2)),
      u8 (Int.lor (sar (c 1) 6) (shl (c 2) 4)), u8 (Int.lor (sar (c 2) 4) (shl (c 3) 6)),
      u8 (sar (c 3) 2)]

def t1Fields (a : ℕ → ℕ) : List ℕ :=
  [(a 0 >>> 0 ||| a 1 <<< 8) &&& 0x3FF, (a 1 >>> 2 ||| a 2 <<< 6) &&& 0x3FF,
    (a 2 >>> 4 ||| a 3 <<< 4) &&& 0x3FF, (a 3 >>> 6 ||| a 4 <<< 2) &&& 0x3FF]

def polyT1Unpack (a : List UInt8) : Poly :=
  unpackGroups 5 4 t1Fields (fun field => (field : Int)) a

def t0Bytes (t : ℕ → ℕ) : List UInt8 :=
  [UInt8.ofNat (t 0), UInt8.ofNat (t 0 >>> 8) ||| UInt8.ofNat (t 1 <<< 5),
    UInt8.ofNat (t 1 >>> 3), UInt8.ofNat (t 1 >>> 11) ||| UInt8.ofNat (t 2 <<< 2),
    UInt8.ofNat (t 2 >>> 6) ||| UInt8.ofNat (t 3 <<< 7), UInt8.ofNat (t 3 >>> 1),
    UInt8.ofNat (t 3 >>> 9) ||| UInt8.ofNat (t 4 <<< 4), UInt8.ofNat (t 4 >>> 4),
    UInt8.ofNat (t 4 >>> 12) ||| UInt8.ofNat (t 5 <<< 1),
    UInt8.ofNat (t 5 >>> 7) ||| UInt8.ofNat (t 6 <<< 6), UInt8.ofNat (t 6 >>> 2),
    UInt8.ofNat (t 6 >>> 10) ||| UInt8.ofNat (t 7 <<< 3), UInt8.ofNat (t 7 >>> 5)]

def polyT0Pack (a : Poly) : List UInt8 :=
  packGroups 8 (fun value => u32 (i32 (halfD - value))) t0Bytes a

def t0Fields (a : ℕ → ℕ) : List ℕ :=
  [(a 0 ||| a 1 <<< 8) &&& 0x1FFF, (a 1 >>> 5 ||| a 2 <<< 3 ||| a 3 <<< 11) &&& 0x1FFF,
    (a 3 >>> 2 ||| a 4 <<< 6) &&& 0x1FFF, (a 4 >>> 7 ||| a 5 <<< 1 ||| a 6 <<< 9) &&& 0x1FFF,
    (a 6 >>> 4 ||| a 7 <<< 4 ||| a 8 <<< 12) &&& 0x1FFF, (a 8 >>> 1 ||| a 9 <<< 7) &&& 0x1FFF,
    (a 9 >>> 6 ||| a 10 <<< 2 ||| a 11 <<< 10) &&& 0x1FFF, (a 11 >>> 3 ||| a 12 <<< 5) &&& 0x1FFF]

def polyT0Unpack (a : List UInt8) : Poly :=
  unpackGroups 13 8 t0Fields (fun field => i32 (halfD - field)) a

def zBytes (t : ℕ → ℕ) : List UInt8 :=
  [UInt8.ofNat (t 0), UInt8.ofNat (t 0 >>> 8),
    UInt8.ofNat (t 0 >>> 16) ||| UInt8.ofNat (t 1 <<< 4), UInt8.ofNat (t 1 >>> 4),
    UInt8.ofNat (t 1 >>> 12)]

def polyZPack (a : Poly) : List UInt8 :=
  packGroups 2 (fun value => u32 (i32 (gamma1 - value))) zBytes a

/-- The mask of the even coefficients is applied twice, that of the odd ones never. -/
def zFields (a : ℕ → ℕ) : List ℕ :=
  [(a 0 ||| a 1 <<< 8 ||| a 2 <<< 16) &&& 0xFFFFF &&& 0xFFFFF,
    a 2 >>> 4 ||| a 3 <<< 4 ||| a 4 <<< 12]

def polyZUnpack (a : List UInt8) : Poly :=
  unpackGroups 5 2 zFields (fun field => i32 (gamma1 - field)) a

/-! ## The bytes and the fields of one group -/

section Group

variable {t a : ℕ → ℕ}

theorem toNat_ofNat_or (low high : ℕ) :
    (UInt8.ofNat low ||| UInt8.ofNat high).toNat = (low ||| high) % 2 ^ 8 := by
  rw [← UInt8.ofNat_or, UInt8.toNat_ofNat']

theorem masked (number width : ℕ) : number &&& (2 ^ width - 1) = number % 2 ^ width :=
  Nat.and_two_pow_sub_one_eq_mod number width

theorem etaBytes_eq (small : ∀ k, t k < 2 ^ 3) : ∀ offset < 3,
    byteValue (etaBytes t) offset = packedNumber 3 t 8 / 2 ^ (8 * offset) % 2 ^ 8 := by
  have bits := packedNumber_spanned small 8 8
  intro offset bound
  interval_cases offset
  · exact (UInt8.toNat_ofNat' ..).trans (bits 0 0 2 (by decide)).symm
  · exact (UInt8.toNat_ofNat' ..).trans (bits 2 2 3 (by decide)).symm
  · exact (UInt8.toNat_ofNat' ..).trans (bits 5 1 2 (by decide)).symm

theorem t0Bytes_eq (small : ∀ k, t k < 2 ^ 13) : ∀ offset < 13,
    byteValue (t0Bytes t) offset = packedNumber 13 t 8 / 2 ^ (8 * offset) % 2 ^ 8 := by
  have bits := packedNumber_spanned small 8 8
  intro offset bound
  interval_cases offset
  · exact (UInt8.toNat_ofNat' ..).trans (bits 0 0 0 (by decide)).symm
  · exact (toNat_ofNat_or ..).trans (bits 0 8 1 (by decide)).symm
  · exact (UInt8.toNat_ofNat' ..).trans (bits 1 3 0 (by decide)).symm
  · exact (toNat_ofNat_or ..).trans (bits 1 11 1 (by decide)).symm
  · exact (toNat_ofNat_or ..).trans (bits 2 6 1 (by decide)).symm
  · exact (UInt8.toNat_ofNat' ..).trans (bits 3 1 0 (by decide)).symm
  · exact (toNat_ofNat_or ..).trans (bits 3 9 1 (by decide)).symm
  · exact (UInt8.toNat_ofNat' ..).trans (bits 4 4 0 (by decide)).symm
  · exact (toNat_ofNat_or ..).trans (bits 4 12 1 (by decide)).symm
  · exact (toNat_ofNat_or ..).trans (bits 5 7 1 (by decide)).symm
  · exact (UInt8.toNat_ofNat' ..).trans (bits 6 2 0 (by decide)).symm
  · exact (toNat_ofNat_or ..).trans (bits 6 10 1 (by decide)).symm
  · exact (UInt8.toNat_ofNat' ..).trans (bits 7 5 0 (by decide)).symm

theorem etaFields_eq (small : ∀ k, a k < 2 ^ 8) : ∀ offset < 8,
    (etaFields a).getD offset 0 = packedNumber 8 a 3 / 2 ^ (3 * offset) % 2 ^ 3 := by
  have bits := packedNumber_spanned small 3 3
  intro offset bound
  interval_cases offset
  · exact (masked _ 3).trans (bits 0 0 0 (by decide)).symm
  · exact (masked _ 3).trans (bits 0 3 0 (by decide)).symm
  · exact (masked _ 3).trans (bits 0 6 1 (by decide)).symm
  · exact (masked _ 3).trans (bits 1 1 0 (by decide)).symm
  · exact (masked _ 3).trans (bits 1 4 0 (by decide)).symm
  · exact (masked _ 3).trans (bits 1 7 1 (by decide)).symm
  · exact (masked _ 3).trans (bits 2 2 0 (by decide)).symm
  · exact (masked _ 3).trans (bits 2 5 0 (by decide)).symm

theorem zBytes_eq (small : ∀ k, t k < 2 ^ 20) : ∀ offset < 5,
    byteValue (zBytes t) offset = packedNumber 20 t 2 / 2 ^ (8 * offset) % 2 ^ 8 := by
  have bits := packedNumber_spanned small 2 8
  intro offset bound
  interval_cases offset
  · exact (UInt8.toNat_ofNat' ..).trans (bits 0 0 0 (by decide)).symm
  · exact (UInt8.toNat_ofNat' ..).trans (bits 0 8 0 (by decide)).symm
  · exact (toNat_ofNat_or ..).trans (bits 0 16 1 (by decide)).symm
  · exact (UInt8.toNat_ofNat' ..).trans (bits 1 4 0 (by decide)).symm
  · exact (UInt8.toNat_ofNat' ..).trans (bits 1 12 0 (by decide)).symm

theorem t1Fields_eq (small : ∀ k, a k < 2 ^ 8) : ∀ offset < 4,
    (t1Fields a).getD offset 0 = packedNumber 8 a 5 / 2 ^ (10 * offset) % 2 ^ 10 := by
  have bits := packedNumber_spanned small 5 10
  intro offset bound
  interval_cases offset
  · exact (masked _ 10).trans (bits 0 0 1 (by decide)).symm
  · exact (masked _ 10).trans (bits 1 2 1 (by decide)).symm
  · exact (masked _ 10).trans (bits 2 4 1 (by decide)).symm
  · exact (masked _ 10).trans (bits 3 6 1 (by decide)).symm

theorem t0Fields_eq (small : ∀ k, a k < 2 ^ 8) : ∀ offset < 8,
    (t0Fields a).getD offset 0 = packedNumber 8 a 13 / 2 ^ (13 * offset) % 2 ^ 13 := by
  have bits := packedNumber_spanned small 13 13
  intro offset bound
  interval_cases offset
  · exact (masked _ 13).trans (bits 0 0 1 (by decide)).symm
  · exact (masked _ 13).trans (bits 1 5 2 (by decide)).symm
  · exact (masked _ 13).trans (bits 3 2 1 (by decide)).symm
  · exact (masked _ 13).trans (bits 4 7 2 (by decide)).symm
  · exact (masked _ 13).trans (bits 6 4 2 (by decide)).symm
  · exact (masked _ 13).trans (bits 8 1 1 (by decide)).symm
  · exact (masked _ 13).trans (bits 9 6 2 (by decide)).symm
  · exact (masked _ 13).trans (bits 11 3 1 (by decide)).symm

/-- The odd field needs no mask: it is made of the last twenty bits of a group. -/
theorem zFields_eq (small : ∀ k, a k < 2 ^ 8) : ∀ offset < 2,
    (zFields a).getD offset 0 = packedNumber 8 a 5 / 2 ^ (20 * offset) % 2 ^ 20 := by
  have bits := packedNumber_spanned small 5 20
  intro offset bound
  interval_cases offset
  · have twice : (zFields a).getD 0 0 = spanned 8 a 0 0 2 % 2 ^ 20 :=
      (masked _ 20).trans ((congrArg (· % 2 ^ 20) (masked _ 20)).trans (Nat.mod_mod _ _))
    exact twice.trans (bits 0 0 2 (by decide)).symm
  · have below : spanned 8 a 2 4 2 < 2 ^ 20 := by
      rw [spanned_eq small 2 (by decide)]
      exact Nat.div_lt_of_lt_mul (packedNumber_lt (fun k => small (2 + k)) 3)
    exact (Nat.mod_eq_of_lt below).symm.trans (bits 2 4 2 (by decide)).symm

end Group

/-! ## Whole polynomials -/

theorem packGroups_eq {width size bytes : ℕ} {number : Int → ℕ}
    {group : (ℕ → ℕ) → List UInt8}
    (each : ∀ t : ℕ → ℕ, (∀ k, t k < 2 ^ width) → ∀ offset < bytes,
      byteValue (group t) offset = packedNumber width t size / 2 ^ (8 * offset) % 2 ^ 8)
    (length : ∀ t, (group t).length = bytes) (aligned : width * size = 8 * bytes)
    (whole : size * (256 / size) = 256) {a : Poly} (small : ∀ n, number (a.coeff n) < 2 ^ width) :
    packGroups size number group a = bitPack width (fun n => number (a.coeff n)) 256 := by
  have packed := flatMap_range_eq_bitPack small aligned
    (fun block => length fun k => number (a.coeff (size * block + k)))
    (fun block => each _ fun k => small (size * block + k)) (256 / size)
  rwa [whole] at packed

theorem coeff_unpackGroups {width size bytes : ℕ} {number : ℕ → Int}
    {group : (ℕ → ℕ) → List ℕ}
    (each : ∀ a : ℕ → ℕ, (∀ k, a k < 2 ^ 8) → ∀ offset < size,
      (group a).getD offset 0 = packedNumber 8 a bytes / 2 ^ (width * offset) % 2 ^ width)
    (aligned : width * size = 8 * bytes) (whole : size * (256 / size) = 256)
    {r : List UInt8} (length : r.length = bytes * (256 / size)) {n : ℕ} (bound : n < 256) :
    (unpackGroups bytes size group number r).coeff n = number (bitField width r n) := by
  have positive : 0 < size := Nat.pos_of_ne_zero fun none => by simp [none] at whole
  have block : n / size < 256 / size := Nat.div_lt_of_lt_mul (by rwa [whole])
  have reach := Nat.mul_le_mul_left bytes (Nat.succ_le_of_lt block)
  obtain ⟨rest, total⟩ := Nat.exists_eq_add_of_le reach
  rw [Nat.mul_succ] at total
  have field := bitField_group aligned (length.trans total) (Nat.mod_lt n positive)
  rw [Nat.div_add_mod] at field
  rw [unpackGroups, coeff_ofFn _ bound, field]
  exact congrArg number (each _ (fun k => byteAt_lt r _) _ (Nat.mod_lt n positive))

/-- A packer and an unpacker of fields of `width` bits: a coefficient in `range` is packed
as `field` of it, and a field is unpacked as `value` of it. -/
structure PacksFields (width : ℕ) (range : Int → Prop) (field : Int → ℕ) (value : ℕ → Int)
    (pack : Poly → List UInt8) (unpack : List UInt8 → Poly) : Prop where
  zero : range 0
  small : ∀ x, range x → field x < 2 ^ width
  value_field : ∀ x, range x → value (field x) = x
  field_value : ∀ k < 2 ^ width, field (value k) = k
  packed : ∀ a : Poly, (∀ n, range (a.coeff n)) →
    pack a = bitPack width (fun n => field (a.coeff n)) 256
  unpacked : ∀ r : List UInt8, r.length = width * 32 → ∀ n < 256,
    (unpack r).coeff n = value (bitField width r n)

section PacksFields

variable {width : ℕ} {range : Int → Prop} {field : Int → ℕ} {value : ℕ → Int}
  {pack : Poly → List UInt8} {unpack : List UInt8 → Poly}
  (packs : PacksFields width range field value pack unpack)

include packs

theorem PacksFields.everywhere {a : Poly} (inRange : ∀ n < 256, range (a.coeff n)) (n : ℕ) :
    range (a.coeff n) := by
  rcases Nat.lt_or_ge n 256 with bound | beyond
  · exact inRange n bound
  · rw [coeff_of_ge a beyond]
    exact packs.zero

theorem PacksFields.unpack_pack {a : Poly} (inRange : ∀ n < 256, range (a.coeff n)) :
    unpack (pack a) = a := by
  have every := packs.everywhere inRange
  have fields : ∀ n, field (a.coeff n) < 2 ^ width := fun n => packs.small _ (every n)
  have length : (pack a).length = width * 32 := by
    rw [packs.packed a every, length_bitPack]
    omega
  apply ext_coeff
  intro n bound
  rw [packs.unpacked _ length n bound, packs.packed a every,
    bitField_bitPack fields ⟨width * 32, by ring⟩ bound, packs.value_field _ (every n)]

theorem PacksFields.pack_unpack (full : ∀ k < 2 ^ width, range (value k)) {r : List UInt8}
    (length : r.length = width * 32) : pack (unpack r) = r := by
  have total : width * 256 = 8 * r.length := by
    rw [length]
    ring
  have every := packs.everywhere fun n bound => by
    rw [packs.unpacked r length n bound]
    exact full _ (bitField_lt width r n)
  have same : ∀ n < 256, field ((unpack r).coeff n) = bitField width r n := fun n bound => by
    rw [packs.unpacked r length n bound, packs.field_value _ (bitField_lt width r n)]
  rw [packs.packed _ every, bitPack_congr same, bitPack_bitField total]

end PacksFields

/-! ## The copies of `sign.c` -/

theorem polyT1Pack_eq : polyT1Pack = Mldsa87.polyT1Pack := by
  funext a
  rw [polyT1Pack, Mldsa87.polyT1Pack]
  apply flatMap_range_eq_map 5 64
  intro block
  simp [List.range_succ, Nat.mul_add_div, sar]

theorem polyZPack_eq : polyZPack = Mldsa87.polyZPack := by
  funext a
  rw [polyZPack, Mldsa87.polyZPack]
  apply flatMap_range_eq_map 5 128
  intro block
  simp [List.range_succ, zBytes, Nat.mul_add_div]

theorem polyZUnpack_eq : polyZUnpack = Mldsa87.polyZUnpack := by
  funext buf
  apply ext_coeff
  intro n bound
  have fields := zFields_lt buf (n / 2)
  rw [polyZUnpack, unpackGroups, Mldsa87.polyZUnpack, coeff_ofFn _ bound, coeff_ofFn _ bound]
  dsimp only
  rcases Nat.mod_two_eq_zero_or_one n with even | odd
  · have same : (zFields fun k => byteAt buf (5 * (n / 2) + k)).getD 0 0 =
        (Mldsa87.zFields buf (n / 2)).1 := by
      rw [Mldsa87.zFields, zFields, List.getD_cons_zero, Nat.and_assoc, Nat.and_self]
      rfl
    rw [even, same, if_pos rfl, gamma1, i32]
    omega
  · have same : (zFields fun k => byteAt buf (5 * (n / 2) + k)).getD 1 0 =
        (Mldsa87.zFields buf (n / 2)).2 := rfl
    rw [odd, same, if_neg Nat.one_ne_zero, gamma1, i32]
    omega

theorem polyZUnpack_take (buf : List UInt8) :
    polyZUnpack (buf.take 640) = Mldsa87.polyZUnpack buf := by
  have bytes : ∀ i < 640, byteAt (buf.take 640) i = byteAt buf i := by
    intro i bound
    rw [byteAt, byteAt, List.getElem?_take_of_lt bound]
  apply ext_coeff
  intro n bound
  have block : n / 2 < 128 := by omega
  rw [← polyZUnpack_eq, polyZUnpack, polyZUnpack, unpackGroups, unpackGroups, coeff_ofFn _ bound,
    coeff_ofFn _ bound]
  simp only [zFields]
  rw [bytes _ (by omega), bytes _ (by omega), bytes _ (by omega), bytes _ (by omega),
    bytes _ (by omega)]

/-- The loops of `sign.c` write what the packers of `poly.c` do. -/
structure CopiesAgree (shake : Shake) : Prop where
  packPk : ∀ (rho : List UInt8) (t1 : InternalStorage → PolyVecK),
    packPkVolatile rho t1 = do
      Program.update fun storage => { storage with pk := writeBytes 0 rho storage.pk }
      Program.forRows 8 fun b => Program.update fun storage =>
        { storage with pk := writeBytes (32 + b * 320) (polyT1Pack (t1 storage)[b]) storage.pk }
  packSig : ∀ (c : List UInt8) (z : InternalStorage → PolyVecL)
      (h : InternalStorage → PolyVecK), packSigVolatile c z h = do
    Program.update fun storage => { storage with sig := writeBytes 0 c storage.sig }
    Program.forRows 7 fun b => Program.update fun storage =>
      { storage with sig := writeBytes (64 + b * 640) (polyZPack (z storage)[b]) storage.sig }
    Program.update fun storage =>
      { storage with sig := writeBytes 4544 (List.replicate 83 0) storage.sig }
    Program.update fun storage =>
      { storage with sig := writeBytes 4544 (packHints (h storage)) storage.sig }
  unpackSig : ∀ (z : Region InternalStorage PolyVecL) (h : Region InternalStorage PolyVecK)
      (sig : List UInt8), unpackSigVolatile z h sig = do
    writeRows z fun b _ => polyZUnpack ((sig.drop (64 + b * 640)).take 640)
    let used ← unpackHintRows h sig (List.finRange 8) 0
    match used with
    | none => pure false
    | some k => pure ((List.range' k (75 - k)).all fun j => byteAt sig (4544 + j) = 0)
  uniformGamma1 : ∀ (v : Region InternalStorage PolyVecL) (seed : List UInt8) (nonce : ℕ),
    polyVecLUniformGamma1Volatile shake v seed nonce =
      writeRows v fun j _ => polyZUnpack ((shakeOnce shake.shake256
        (seed ++ nonceBytes ((7 * nonce + j) % 65536)) 680).take 640)

theorem copiesAgree (shake : Shake) : CopiesAgree shake where
  packPk rho t1 := by
    rw [polyT1Pack_eq]
    rfl
  packSig c z h := by
    rw [polyZPack_eq]
    rfl
  unpackSig z h sig := by
    simp only [polyZUnpack_take]
    unfold unpackSigVolatile
    apply bind_congr
    intro _
    apply bind_congr
    intro used
    cases used with
    | none => rfl
    | some k => rfl
  uniformGamma1 v seed nonce := by
    simp only [polyZUnpack_take]
    rw [polyVecLUniformGamma1Volatile]
    rfl

/-! ## The packers -/

section Codecs

theorem packsFields_eta : PacksFields 3 (fun x => -2 ≤ x ∧ x ≤ 2)
    (fun x => (u8 (i32 (eta - x))).toNat) (fun field => i32 (eta - field)) polyEtaPack
    polyEtaUnpack := by
  have number : ∀ x, -2 ≤ x ∧ x ≤ 2 → ((u8 (i32 (eta - x))).toNat : ℤ) = 2 - x := by
    intro x range
    rw [toNat_u8, eta, i32]
    omega
  refine ⟨by decide, fun x range => ?_, fun x range => ?_, fun k bound => ?_, ?_, ?_⟩
  · have same := number x range
    omega
  · rw [number x range, eta, i32]
    omega
  · rw [toNat_u8, eta, i32, i32]
    omega
  · intro a inRange
    apply packGroups_eq (fun t => etaBytes_eq) (fun _ => rfl) rfl rfl
    intro n
    have same := number _ (inRange n)
    have range := inRange n
    omega
  · intro r length n bound
    exact coeff_unpackGroups (fun a => etaFields_eq) rfl rfl length bound

theorem packsFields_t1 : PacksFields 10 (fun x => 0 ≤ x ∧ x < 1024) Int.toNat
    (fun field => (field : Int)) polyT1Pack polyT1Unpack where
  zero := by decide
  small x range := by omega
  value_field x range := by omega
  field_value k _ := Int.toNat_natCast k
  packed a inRange := by
    rw [polyT1Pack_eq, Mldsa87.polyT1Pack_eq fun n _ => inRange n]
  unpacked r length n bound := coeff_unpackGroups (fun a => t1Fields_eq) rfl rfl length bound

section Word

variable {width : ℕ} {top : Int} (half : 2 * top = 2 ^ width) (few : width ≤ 20)

include half few

theorem top_range : 0 ≤ top ∧ top ≤ 524288 := by
  have power : (2 : ℤ) ^ width ≤ 2 ^ 20 := pow_le_pow_right₀ (by norm_num) few
  have positive : (0 : ℤ) ≤ 2 ^ width := by positivity
  omega

theorem word_eq {x : Int} (range : -top < x ∧ x ≤ top) :
    (u32 (i32 (top - x)) : ℤ) = top - x := by
  have bounds := top_range half few
  rw [u32, i32]
  omega

theorem packsFields_word {pack : Poly → List UInt8} {unpack : List UInt8 → Poly}
    (positive : 0 < top)
    (packed : ∀ a : Poly, (∀ n, u32 (i32 (top - a.coeff n)) < 2 ^ width) →
      pack a = bitPack width (fun n => u32 (i32 (top - a.coeff n))) 256)
    (unpacked : ∀ r : List UInt8, r.length = width * 32 → ∀ n < 256,
      (unpack r).coeff n = i32 (top - bitField width r n)) :
    PacksFields width (fun x => -top < x ∧ x ≤ top) (fun x => u32 (i32 (top - x)))
      (fun field => i32 (top - field)) pack unpack := by
  have bounds := top_range half few
  have small : ∀ x, -top < x ∧ x ≤ top → u32 (i32 (top - x)) < 2 ^ width := by
    intro x range
    have same := word_eq half few range
    have power : ((2 ^ width : ℕ) : ℤ) = 2 * top := by
      rw [half]
      push_cast
      rfl
    omega
  have inverse : ∀ x, -top < x ∧ x ≤ top → i32 (top - (u32 (i32 (top - x)) : ℤ)) = x := by
    intro x range
    rw [word_eq half few range, i32]
    omega
  refine ⟨⟨by omega, by omega⟩, small, inverse, fun k bound => ?_,
    fun a inRange => packed a fun n => small _ (inRange n), unpacked⟩
  have power : (k : ℤ) < 2 * top := by
    rw [half]
    exact_mod_cast bound
  have back : i32 (top - k) = top - k := by
    rw [i32]
    omega
  have same := word_eq half few (x := top - k) (by omega)
  rw [back]
  omega

end Word

theorem packsFields_t0 : PacksFields 13 (fun x => -halfD < x ∧ x ≤ halfD)
    (fun x => u32 (i32 (halfD - x))) (fun field => i32 (halfD - field)) polyT0Pack
    polyT0Unpack :=
  packsFields_word rfl (by decide) (by decide)
    (fun _ small => packGroups_eq (fun t => t0Bytes_eq) (fun _ => rfl) rfl rfl small)
    fun _ length _ bound => coeff_unpackGroups (fun a => t0Fields_eq) rfl rfl length bound

theorem packsFields_z : PacksFields 20 (fun x => -gamma1 < x ∧ x ≤ gamma1)
    (fun x => u32 (i32 (gamma1 - x))) (fun field => i32 (gamma1 - field)) polyZPack
    polyZUnpack :=
  packsFields_word rfl (by decide) (by decide)
    (fun _ small => packGroups_eq (fun t => zBytes_eq) (fun _ => rfl) rfl rfl small)
    fun _ length _ bound => coeff_unpackGroups (fun a => zFields_eq) rfl rfl length bound

end Codecs

/-- On their ranges the packers are inverted by the unpackers, every byte string of the
right length is what the packer makes of its unpacking, and the copies in `sign.c` pack and
unpack the same. -/
theorem polyPackers_inverse (shake : Shake) :
    (∀ a : Poly, (∀ n < 256, 0 ≤ a.coeff n ∧ a.coeff n < 2 ^ 10) →
        polyT1Unpack (polyT1Pack a) = a) ∧
      (∀ a : Poly, (∀ n < 256, -2 ^ 12 < a.coeff n ∧ a.coeff n ≤ 2 ^ 12) →
        polyT0Unpack (polyT0Pack a) = a) ∧
      (∀ a : Poly, (∀ n < 256, -2 ^ 19 < a.coeff n ∧ a.coeff n ≤ 2 ^ 19) →
        polyZUnpack (polyZPack a) = a) ∧
      (∀ a : Poly, (∀ n < 256, -2 ≤ a.coeff n ∧ a.coeff n ≤ 2) →
        polyEtaUnpack (polyEtaPack a) = a) ∧
      (∀ r : List UInt8, r.length = 320 → polyT1Pack (polyT1Unpack r) = r) ∧
      (∀ r : List UInt8, r.length = 416 → polyT0Pack (polyT0Unpack r) = r) ∧
      (∀ r : List UInt8, r.length = 640 → polyZPack (polyZUnpack r) = r) ∧
      CopiesAgree shake := by
  refine ⟨fun a range => packsFields_t1.unpack_pack range,
    fun a range => packsFields_t0.unpack_pack range,
    fun a range => packsFields_z.unpack_pack range,
    fun a range => packsFields_eta.unpack_pack range,
    fun r length => packsFields_t1.pack_unpack ?_ length,
    fun r length => packsFields_t0.pack_unpack ?_ length,
    fun r length => packsFields_z.pack_unpack ?_ length, copiesAgree shake⟩
  · intro k bound
    omega
  · intro k bound
    rw [halfD, i32]
    omega
  · intro k bound
    rw [gamma1, i32]
    omega

def turning : Poly := Vector.ofFn fun index => 2 - ((index.val % 5 : ℕ) : Int)

/-- Polynomials that run through the ranges, and constant bytes. -/
theorem polyPackers_inverse_falling :
    polyT1Unpack (polyT1Pack (falling 1023 4)) = falling 1023 4 ∧
      polyT0Unpack (polyT0Pack (falling 4096 32)) = falling 4096 32 ∧
      polyZUnpack (polyZPack (falling 524288 4096)) = falling 524288 4096 ∧
      polyEtaUnpack (polyEtaPack turning) = turning ∧
      polyT1Pack (polyT1Unpack (List.replicate 320 0xA5)) = List.replicate 320 0xA5 ∧
      polyT0Pack (polyT0Unpack (List.replicate 416 0xA5)) = List.replicate 416 0xA5 ∧
      polyZPack (polyZUnpack (List.replicate 640 0xA5)) = List.replicate 640 0xA5 := by
  obtain ⟨t1, t0, z, eta, t1Bytes, t0Bytes, zBytes, _⟩ := polyPackers_inverse constantShake
  refine ⟨t1 _ ?_, t0 _ ?_, z _ ?_, eta _ ?_, t1Bytes _ List.length_replicate,
    t0Bytes _ List.length_replicate, zBytes _ List.length_replicate⟩
  · intro n bound
    rw [coeff_falling _ _ bound]
    omega
  · intro n bound
    rw [coeff_falling _ _ bound]
    omega
  · intro n bound
    rw [coeff_falling _ _ bound]
    omega
  · intro n bound
    rw [turning, coeff_ofFn _ bound]
    omega

end PolyPack

end LedgerQrl.Mldsa87
