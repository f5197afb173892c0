import LedgerQrl.Mldsa87.Frame
import LedgerQrl.Mldsa87.Halting
import LedgerQrl.Mldsa87.HintEncoding
import LedgerQrl.Mldsa87.KeyGeneration

namespace LedgerQrl.Mldsa87

open Foundation Poly InternalStorage

/-! # Verification

`crypto_verify_optimized` computes the verification equation of the stored
public key. -/

namespace InternalStorage

def bufVerifyRegion : Region InternalStorage Poly where
  read storage := storage.pack1[(0 : Fin 8)]
  write content storage := { storage with pack1 := storage.pack1.set 0 content zero_lt_rows }
  read_write content storage := Vector.getElem_set_self zero_lt_rows
  write_read storage := by
    have same : storage.pack1.set 0 storage.pack1[(0 : Fin 8)] zero_lt_rows =
        storage.pack1 := Vector.set_getElem_self zero_lt_rows
    rw [same]
  write_write first second storage := by
    simp

end InternalStorage

/-! ## The commitment -/

theorem finish_polyVecKUseHintVolatile (storage : InternalStorage) :
    (polyVecKUseHintVolatile w1Region w1Region.read hRegion.read).finish storage =
      { storage with
        w1 := Vector.zipWith (Vector.zipWith useHint) storage.w1 storage.h } := by
  rw [polyVecKUseHintVolatile, finish_writeRows, write_w1Region]
  · congr 1
    ext index bound : 1
    simp
  · intro index other storage value different
    rw [read_setRow_other w1Region different, w1_h_independent.setRow]

theorem bufVerify_packW1 (storage : InternalStorage) :
    ((polyVecKPackW1VolatileVerify w1Region.read).finish storage).bufVerify =
      (List.finRange 8).flatMap fun i => polyW1Pack storage.w1[i] := by
  have each : ∀ (i : Fin 8) (storage : InternalStorage),
      (polyW1Pack (w1Region.read storage)[i]).length = 128 :=
    fun i storage => length_polyW1Pack _
  have rows := Program.finish_forRows_put bufVerifyRegion writePolyBytes
    (fun start before bytes content within => writePolyBytes_append within content)
    each (fun i content storage => rfl) (show 0 + 8 * 128 ≤ 1024 by norm_num) storage
  simp only [Nat.zero_add] at rows
  have packed : (polyVecKPackW1VolatileVerify w1Region.read).finish storage =
      bufVerifyRegion.write (writePolyBytes 0 ((List.finRange 8).flatMap fun i =>
        polyW1Pack storage.w1[i]) storage.pack1[(0 : Fin 8)]) storage := rows
  have length : ((List.finRange 8).flatMap fun i =>
      polyW1Pack storage.w1[i]).length = 1024 := by
    rw [length_flatMap_rows fun i => length_polyW1Pack storage.w1[i]]
    simp
  have first := bufVerifyRegion.read_write (writePolyBytes 0
    ((List.finRange 8).flatMap fun i => polyW1Pack storage.w1[i])
    storage.pack1[(0 : Fin 8)]) storage
  rw [packed, InternalStorage.bufVerify]
  change polyBytes (bufVerifyRegion.read _) = _
  rw [first, polyBytes_writePolyBytes_full length]

theorem take_bufVerify (storage : InternalStorage) :
    storage.bufVerify.take (8 * 128) = storage.bufVerify := by
  rw [InternalStorage.bufVerify]
  exact List.take_of_length_le (length_polyBytes _).le

theorem stands_polyShiftL {t1 : PolyVecK} {high : Fin 8 → ℕ → ℤ}
    (agrees : ∀ i : Fin 8, ∀ n < 256, t1[i].coeff n = high i n)
    (range : ∀ i, ∀ n < 256, 0 ≤ high i n ∧ high i n < 1024) :
    Stands (t1.map polyShiftL) qConst fun i => Spec.element (high i) * 2 ^ 13 := by
  have shifted : ∀ i : Fin 8, ∀ n < 256,
      (t1.map polyShiftL)[i].coeff n = 8192 * high i n := by
    intro i n bound
    have inRange := range i n bound
    rw [getElem_index, Vector.getElem_map, polyShiftL, coeff_map _ _ bound]
    rw [← getElem_index t1 i, agrees i n bound, shl, i32_of_inInt32] <;>
      norm_num [InInt32] <;> omega
  constructor
  · intro i n bound
    have inRange := range i n bound
    rw [shifted i n bound, qConst, abs_le]
    omega
  · intro i
    have scaled := Negacyclic.ofCoeffs_mul_left (R := Zq) (n := 256) 8192
      fun n => (high i n : Zq)
    have scale : (AdjoinRoot.of _ (8192 : Zq) : Rq) = 2 ^ 13 := by
      rw [map_ofNat]
      norm_num
    rw [scale, mul_comm] at scaled
    rw [Spec.element, ← scaled]
    apply Negacyclic.ofCoeffs_congr
    intro n bound
    rw [residues, shifted i n bound]
    push_cast
    rfl

noncomputable def approximation (shake : Shake) (rho c : List UInt8)
    (z : Fin 7 → Rq) (high : Fin 8 → ℕ → ℤ) (i : Fin 8) : Rq :=
  Spec.times shake rho z i - Spec.challenge shake c * (Spec.element (high i) * 2 ^ 13)

section Commit

variable (shake : Shake) (rho c : List UInt8) {storage : InternalStorage}
  {z : Fin 7 → Rq} {high : Fin 8 → ℕ → ℤ} {hints : Spec.Hints}

theorem approximation_canonical (zStands : Stands storage.z qConst z)
    (agrees : ∀ i : Fin 8, ∀ n < 256, storage.t1[i].coeff n = high i n)
    (range : ∀ i, ∀ n < 256, 0 ≤ high i n ∧ high i n < 1024)
    (before : Fin 8 → Poly) :
    (((Vector.zipWith polySub
        (Vector.ofFn fun i : Fin 8 =>
          rowProduct (fun j => shake.matrixEntry rho i j) (storage.z.map ntt) (before i))
        (((storage.t1.map polyShiftL).map ntt).map
          (polyPointwiseMontgomery (ntt (shake.polyChallenge c))))).map polyReduce).map
            invNttToMont).map polyCAddq =
      Vector.ofFn fun i => canonicalRow (approximation shake rho c z high i) := by
  have challengeBound := (polyChallenge_bounded shake c).mono (show 1 ≤ qConst by decide)
  have product : Hats _ (7 * qConst) radixInv (Spec.times shake rho z) :=
    (zStands.ntt le_rfl).times before
  have shifted := ((stands_polyShiftL agrees range).ntt le_rfl).pointwise
    (ntt_bounded challengeBound) (transforms_ntt challengeBound)
  exact (((product.sub shifted (by decide)).reduce (by decide)).invNtt
    (by decide)).cAddq (by decide)

theorem coeff_useHint (p : Fin 8 → Rq) {h : PolyVecK}
    (words : ∀ i : Fin 8, ∀ n < 256, h[i].coeff n = if hints i n then 1 else 0)
    (i : Fin 8) {n : ℕ} (bound : n < 256) :
    (Vector.zipWith (Vector.zipWith useHint)
        (Vector.ofFn fun i => canonicalRow (p i)) h : PolyVecK)[i].coeff n =
      Spec.useHint (hints i n) (Negacyclic.coeff (p i) n) := by
  have range := val_range (Negacyclic.coeff (p i) n)
  have word := words i n bound
  have bit : h[i].coeff n = 0 ∨ h[i].coeff n = 1 := by
    rw [word]
    split <;> simp
  have hint : decide (h[i].coeff n = 1) = hints i n := by
    rw [word]
    cases hints i n <;> rfl
  rw [getElem_index, Vector.getElem_zipWith, Vector.getElem_ofFn,
    coeff_zipWith _ _ _ bound, coeff_canonicalRow _ bound, ← getElem_index h i,
    useHint_eq range.1 range.2 bit, hint, cast_val]

theorem spec_useHint_range (hint : Bool) (x : Zq) :
    0 ≤ Spec.useHint hint x ∧ Spec.useHint hint x < 16 := by
  have high := spec_decompose_high_range x
  rw [Spec.useHint]
  split
  · split <;> omega
  · omega

theorem bufVerify_verifyCommit (storage : InternalStorage)
    (zStands : Stands storage.z qConst z)
    (agrees : ∀ i : Fin 8, ∀ n < 256, storage.t1[i].coeff n = high i n)
    (range : ∀ i, ∀ n < 256, 0 ≤ high i n ∧ high i n < 1024)
    (words : ∀ i : Fin 8, ∀ n < 256,
      storage.h[i].coeff n = if hints i n then 1 else 0) :
    ((verifyCommit shake rho c).finish storage).bufVerify =
      Spec.w1Encode fun i n => Spec.useHint (hints i n)
        (Negacyclic.coeff (approximation shake rho c z high i) n) := by
  have canonical := approximation_canonical shake rho c zStands agrees range
    fun i => storage.w1[i]
  rw [verifyCommit]
  simp only [polyChallengeVolatile, finish_polyNttVolatile, Program.finish_bind,
    Program.finish_update, finish_polyVecLNttVolatile, w1_z_independent,
    finish_combinedMethod, finish_polyVecKShiftLVolatile, finish_polyVecKNttVolatile,
    t1_cp_independent, finish_polyVecKPointwise_self, w1_t1_independent,
    finish_polyVecKSubVolatile, finish_polyVecKReduceVolatile,
    finish_polyVecKInvNttToMontVolatile, finish_polyVecKCAddqVolatile,
    finish_polyVecKUseHintVolatile, bufVerify_packW1, read_zRegion, read_t1Region,
    read_w1Region, write_zRegion, write_t1Region, write_w1Region]
  rw [canonical]
  exact flatMap_polyW1Pack (fun i n bound => coeff_useHint _ words i bound)
    fun i n _ => spec_useHint_range _ _

end Commit

/-! ## The verification equation -/

def responseRows (sig : List UInt8) : PolyVecL :=
  Vector.ofFn fun j => polyZUnpack (sig.drop (64 + j * 640))

section Equation

variable {sig : List UInt8}

theorem coeff_responseRows (length : sig.length = cryptoBytes) (j : Fin 7) {n : ℕ}
    (bound : n < 256) : (responseRows sig)[j].coeff n = Spec.responseAt sig j n := by
  have enough : 640 ≤ (sig.drop (64 + j * 640)).length := by
    rw [List.length_drop, length, cryptoBytes]
    omega
  rw [responseRows, getElem_index, Vector.getElem_ofFn]
  exact coeff_polyZUnpack enough bound

theorem responseRows_bounded (j : Fin 7) : (responseRows sig)[j].Bounded gamma1 := by
  rw [responseRows, getElem_index, Vector.getElem_ofFn]
  exact polyZUnpack_bounded _

theorem stands_responseRows (length : sig.length = cryptoBytes) :
    Stands (responseRows sig) qConst fun j => Spec.element (Spec.responseAt sig j) where
  bounded j := (responseRows_bounded j).mono (by decide)
  toRq j := by
    apply Negacyclic.ofCoeffs_congr
    intro n bound
    rw [residues, coeff_responseRows length j bound]

theorem responseRows_norm (length : sig.length = cryptoBytes) :
    polyVecLChkNorm (responseRows sig) (gamma1 - beta) = 0 ↔
      ∀ j, ∀ n < 256, |Spec.responseAt sig j n| < gamma1 - beta := by
  rw [polyVecLChkNorm, polyVecChkNorm_eq_zero_iff
    (fun j => (responseRows_bounded j).mono (by decide)) (by decide) (by decide)]
  constructor
  · intro norm j n bound
    rw [← coeff_responseRows length j bound]
    exact norm j n bound
  · intro norm j n bound
    rw [coeff_responseRows length j bound]
    exact norm j n bound

theorem approximation_eq (shake : Shake) (pk : List UInt8) (i : Fin 8) :
    approximation shake (pk.take 32) (sig.take 64)
        (fun j => Spec.element (Spec.responseAt sig j)) (Spec.publicHigh pk) i =
      Spec.verifyVector shake pk sig i := by
  rw [approximation, Spec.verifyVector, mul_assoc]

theorem publicHigh_range (pk : List UInt8) (i : Fin 8) (n : ℕ) :
    0 ≤ Spec.publicHigh pk i n ∧ Spec.publicHigh pk i n < 1024 := by
  have field := bitField_lt 10 (pk.drop (32 + i * 320)) n
  rw [Spec.publicHigh]
  omega

theorem coeff_hintWords (bytes : List UInt8) (i : Fin 8) {n : ℕ} (bound : n < 256) :
    (hintWords bytes)[i].coeff n = if Spec.hintAt bytes i n then 1 else 0 := by
  rw [hintWords, getElem_index, Vector.getElem_ofFn, hintRow, coeff_ofFn _ bound]

/-- With a stored key whose high parts are in `t1`, verification decides the
equation. -/
theorem verifyStored_spec (shake : Shake) (message : List UInt8)
    (length : sig.length = cryptoBytes) (storage : InternalStorage)
    (high : ∀ i : Fin 8, ∀ n < 256,
      storage.t1[i].coeff n = Spec.publicHigh storage.pk.toList i n) :
    (verifyStored shake (storage.pk.toList.take 32) sig message).value storage = true ↔
      Spec.Verifies shake storage.pk.toList sig message := by
  have unpacked := unpackSigVolatile_value hRegion sig zRegion storage
  rw [verifyStored, Spec.Verifies]
  simp only [Program.value_bind]
  by_cases wellFormed : Spec.WellFormedHints (sig.drop 4544)
  · have norm := responseRows_norm length
    have hashed := bufVerify_verifyCommit shake (storage.pk.toList.take 32) (sig.take 64)
      { storage with z := responseRows sig, h := hintWords (sig.drop 4544) }
      (stands_responseRows length) high
      (fun i n _ => publicHigh_range _ i n)
      (fun i n bound => coeff_hintWords (sig.drop 4544) i bound)
    rw [unpacked.mpr wellFormed, unpackSigVolatile_finish sig storage wellFormed]
    rw [responseRows] at norm hashed
    by_cases small : ∀ j, ∀ n < 256, |Spec.responseAt sig j n| < gamma1 - beta
    · simp only [Bool.not_true, Bool.false_eq_true, if_false, Program.value_bind,
        Program.value_read, Program.finish_read, norm.mpr small, ne_eq, not_true_eq_false,
        Program.value_pure]
      rw [take_bufVerify, hashed, messageDigest_eq, decide_eq_true_eq]
      simp only [approximation_eq]
      exact ⟨fun equal => ⟨wellFormed, small, equal⟩, fun verifies => verifies.2.2⟩
    · have exceeds : ¬ polyVecLChkNorm
          (Vector.ofFn fun j => polyZUnpack (sig.drop (64 + j * 640)))
            (gamma1 - beta) = 0 := fun zero => small (norm.mp zero)
      simp only [Bool.not_true, Bool.false_eq_true, if_false, Program.value_bind,
        Program.value_read, Program.finish_read, ne_eq, exceeds, not_false_eq_true,
        if_true, Program.value_pure, false_iff]
      exact fun verifies => small verifies.2.1
  · have refused : (unpackSigVolatile zRegion hRegion sig).value storage = false := by
      rw [← Bool.not_eq_true, unpacked]
      exact wellFormed
    rw [refused]
    simp [wellFormed]

end Equation

/-! ## The public key of a seed -/

theorem take_publicKey (shake : Shake) (seed : Vector UInt8 32) :
    (Spec.publicKey shake seed).take 32 = (expandSeed shake seed).rho :=
  List.take_left' (length_rho shake seed)

theorem publicHigh_publicKey (shake : Shake) (seed : Vector UInt8 32) (i : Fin 8) {n : ℕ}
    (bound : n < 256) :
    Spec.publicHigh (Spec.publicKey shake seed) i n =
      Spec.keyHigh shake (expandSeed shake seed) i n := by
  have range : ∀ i n, 0 ≤ Spec.keyHigh shake (expandSeed shake seed) i n ∧
      Spec.keyHigh shake (expandSeed shake seed) i n < 1024 := by
    intro i n
    rw [Spec.keyHigh]
    exact (Spec.power2Round_spec _).2.2.2
  have small : ∀ i, ∀ n < 256,
      (Spec.keyHigh shake (expandSeed shake seed) i n).toNat < 2 ^ 10 := by
    intro i n _
    have inRange := range i n
    omega
  have field := bitField_packRows small (expandSeed shake seed).rho [] i bound
  have inRange := range i n
  rw [List.append_nil, length_rho] at field
  rw [Spec.publicHigh, Spec.publicKey,
    show 32 + i.val * 320 = 32 + i * (10 * 32) from rfl, field]
  omega

theorem verifyWithSeed_spec (shake : Shake) (seed : Vector UInt8 32)
    (sig message : List UInt8) (length : sig.length = cryptoBytes)
    (storage : InternalStorage) :
    (verifyWithSeed shake seed sig message).value storage = true ↔
      Spec.Verifies shake (Spec.publicKey shake seed) sig message := by
  have stored := verifyStored_spec shake message length
    { storage with
      t1 := keyHighRows shake (expandSeed shake seed)
      pack1 := keyLowRows shake (expandSeed shake seed)
      pk := publicKeyBytes shake seed }
    (fun i n bound => by
      rw [coeff_keyHighRows shake _ i bound, toList_publicKeyBytes,
        publicHigh_publicKey shake seed i bound])
  rw [toList_publicKeyBytes, take_publicKey] at stored
  rw [verifyWithSeed, Program.value_bind, value_verifyKeyPrefix,
    finish_verifyKeyPrefix]
  exact stored

theorem verifyWithSeed_pk (shake : Shake) (seed : Vector UInt8 32)
    (sig message : List UInt8) (storage : InternalStorage) :
    ((verifyWithSeed shake seed sig message).finish storage).pk =
      publicKeyBytes shake seed := by
  have outside : OutsideScratch InternalStorage.pk :=
    ⟨⟨fun _ _ => rfl, fun _ _ => rfl, fun _ _ => rfl, fun _ _ => rfl, fun _ _ => rfl,
      fun _ _ => rfl⟩, fun _ _ => rfl, fun _ _ => rfl⟩
  rw [verifyWithSeed, Program.finish_bind, value_verifyKeyPrefix,
    (keeps_verifyStored outside shake _ sig message).finish, finish_verifyKeyPrefix]

section Verify

variable (shake : Shake) (derive : Derivation) (path : List UInt32)
  {rawSeed : Vector UInt8 64} (derived : derive path = some rawSeed)
  {sig message : List UInt8} (length : sig.length = cryptoBytes) (nonempty : message ≠ [])

include derived length nonempty

theorem cryptoVerifyOptimized_eq :
    cryptoVerifyOptimized shake derive path sig message =
      (do
        let verified ← verifyWithSeed shake (seedOfRaw rawSeed) sig message
        pure (.none, verified)) := by
  have present : sig ≠ [] := by
    intro empty
    rw [empty] at length
    exact absurd length (by decide)
  have short : ¬ ctx.length > 255 := by decide
  rw [cryptoVerifyOptimized, if_neg present, if_neg nonempty, if_neg short,
    if_neg (not_not.mpr length), derived]

/-- Verification is exactly the verification equation of the stored key. -/
theorem cryptoVerifyOptimized_verifies (storage : InternalStorage) :
    (((cryptoVerifyOptimized shake derive path sig message).value storage).2 = true ↔
        Spec.Verifies shake
          ((cryptoVerifyOptimized shake derive path sig message).finish storage).pk.toList
          sig message) ∧
      ((cryptoVerifyOptimized shake derive path sig message).finish storage).pk.toList =
        Spec.publicKey shake (seedOfRaw rawSeed) := by
  rw [cryptoVerifyOptimized_eq shake derive path derived length nonempty]
  simp only [Program.value_bind, Program.value_pure, Program.finish_bind,
    Program.finish_pure, verifyWithSeed_pk, toList_publicKeyBytes, and_true]
  exact verifyWithSeed_spec shake _ sig message length storage

/-- A derived seed leaves its public key, whatever comes of the verification. -/
theorem cryptoVerifyOptimized_pk (storage : InternalStorage) :
    ((cryptoVerifyOptimized shake derive path sig message).finish storage).pk =
      publicKeyBytes shake (seedOfRaw rawSeed) := by
  rw [cryptoVerifyOptimized_eq shake derive path derived length nonempty,
    Program.finish_bind, Program.finish_pure, verifyWithSeed_pk]

end Verify

theorem cryptoVerifyOptimized_underived (shake : Shake) {derive : Derivation}
    {path : List UInt32} (underived : derive path = none) (sig message : List UInt8)
    (storage : InternalStorage) :
    (cryptoVerifyOptimized shake derive path sig message).finish storage = storage := by
  rw [cryptoVerifyOptimized, underived]
  simp only [Program.finish_ite, Program.finish_pure, ite_self]

theorem cryptoVerifyOptimized_verifies_zero :
    (((cryptoVerifyOptimized constantShake zeroDerivation []
          (List.replicate 4627 0) [1]).value zeroed).2 = true ↔
        Spec.Verifies constantShake
          ((cryptoVerifyOptimized constantShake zeroDerivation []
            (List.replicate 4627 0) [1]).finish zeroed).pk.toList
          (List.replicate 4627 0) [1]) ∧
      ((cryptoVerifyOptimized constantShake zeroDerivation []
          (List.replicate 4627 0) [1]).finish zeroed).pk.toList =
        Spec.publicKey constantShake (seedOfRaw (Vector.replicate 64 0)) :=
  cryptoVerifyOptimized_verifies constantShake zeroDerivation []
    rfl List.length_replicate (List.cons_ne_nil 1 []) zeroed

end LedgerQrl.Mldsa87
