import LedgerQrl.Mldsa87.Signing
import LedgerQrl.Mldsa87.Verification

namespace LedgerQrl.Mldsa87

open Foundation Poly InternalStorage
open scoped BigOperators

/-! # Released signatures verify

The verification vector of an acceptable attempt differs from the commitment by
less than the hints correct, so that verification recovers the commitment. -/

namespace Spec

/-! ## Elements from integers -/

theorem element_congr {f g : ℕ → ℤ} (equal : ∀ n < 256, f n = g n) :
    element f = element g :=
  Negacyclic.ofCoeffs_congr fun n bound => by rw [equal n bound]

theorem element_add (f g : ℕ → ℤ) :
    element (fun n => f n + g n) = element f + element g := by
  rw [element, element, element, ← Negacyclic.ofCoeffs_add]
  apply Negacyclic.ofCoeffs_congr
  intro n _
  push_cast
  rfl

theorem element_mul (f : ℕ → ℤ) (scale : ℤ) :
    element (fun n => f n * scale) = element f * (scale : Rq) := by
  have scaled := Negacyclic.ofCoeffs_mul_left (R := Zq) (n := 256) (scale : Zq)
    fun n => (f n : Zq)
  rw [map_intCast, mul_comm] at scaled
  rw [element, element, ← scaled]
  apply Negacyclic.ofCoeffs_congr
  intro n _
  push_cast
  rw [mul_comm]

theorem element_eq {f : ℕ → ℤ} {p : Rq}
    (equal : ∀ n < 256, (f n : Zq) = Negacyclic.coeff p n) : element f = p := by
  rw [element, ← Negacyclic.ofCoeffs_coeff p]
  exact Negacyclic.ofCoeffs_congr equal

theorem coeff_element (f : ℕ → ℤ) {n : ℕ} (bound : n < 256) :
    Negacyclic.coeff (element f) n = (f n : Zq) :=
  Negacyclic.coeff_ofCoeffs _ bound

theorem times_add_mul (shake : Shake) (rho : List UInt8) (u v : Fin 7 → Rq) (c : Rq)
    (i : Fin 8) :
    times shake rho (fun j => u j + c * v j) i =
      times shake rho u i + c * times shake rho v i := by
  rw [times, times, times, Finset.mul_sum, ← Finset.sum_add_distrib]
  apply Finset.sum_congr rfl
  intro j _
  ring

theorem keyVector_parts (shake : Shake) (expanded : ExpandedSeed) (i : Fin 8) :
    keyVector shake expanded i =
      element (keyHigh shake expanded i) * 2 ^ 13 + element (keyLow shake expanded i) := by
  have scaled := element_mul (keyHigh shake expanded i) 8192
  have shift : ((8192 : ℤ) : Rq) = 2 ^ 13 := by norm_num
  rw [shift] at scaled
  rw [← scaled, ← element_add]
  symm
  apply element_eq
  intro n _
  have parts := (power2Round_spec (Negacyclic.coeff (keyVector shake expanded i) n)).1
  rw [keyHigh, keyLow, ← parts]
  exact cast_val _

namespace Signer

variable (signer : Signer) (k : ℕ)

theorem commitment_parts (i : Fin 8) :
    signer.commitment k i =
      element (fun n => signer.high k i n * (2 * gamma2)) +
        element (signer.low k i) := by
  rw [← element_add]
  symm
  apply element_eq
  intro n _
  rw [high, low, Int.cast_add]
  exact (spec_decompose_sum _).symm

end Signer

/-! ## The parts of a signature -/

section Parts

variable {signer : Signer} {k : ℕ}

theorem length_packed_response :
    (packRows 20 fun (j : Fin 7) n =>
      (gamma1 - (Negacyclic.coeff (signer.response k j) n).valMinAbs).toNat).length =
        4480 := by
  rw [packRows, length_flatMap_rows fun j : Fin 7 => length_bitPack 20 _ 256,
    List.length_finRange]

theorem take_signature : (signer.signature k).take 64 = signer.ctilde k := by
  rw [Signer.signature, List.append_assoc]
  exact List.take_left' (length_ctilde signer k)

theorem drop_signature :
    (signer.signature k).drop 4544 = hintEncode (signer.hints k) := by
  rw [Signer.signature]
  apply List.drop_left'
  rw [List.length_append, length_ctilde, length_packed_response]

theorem length_signature (few : hintCount (signer.hints k) ≤ 75) :
    (signer.signature k).length = cryptoBytes := by
  rw [Signer.signature, List.length_append, List.length_append, length_ctilde,
    length_packed_response, length_hintEncode few, cryptoBytes]

theorem responseAt_signature (small : ∀ j, NormLt (signer.response k j) (gamma1 - beta))
    (j : Fin 7) {n : ℕ} (bound : n < 256) :
    responseAt (signer.signature k) j n =
      (Negacyclic.coeff (signer.response k j) n).valMinAbs := by
  have range : ∀ (j : Fin 7), ∀ n < 256,
      (gamma1 - (Negacyclic.coeff (signer.response k j) n).valMinAbs).toNat < 2 ^ 20 := by
    intro j n bound
    have norm := small j n bound
    rw [gamma1, beta, abs_lt] at norm
    rw [gamma1]
    omega
  have field := bitField_packRows range (signer.ctilde k) (hintEncode (signer.hints k))
    j bound
  rw [length_ctilde] at field
  have norm := small j n bound
  rw [responseAt, Signer.signature]
  change gamma1 - (bitField 20 (List.drop (64 + j * (20 * 32)) _) n : ℤ) = _
  rw [field, gamma1]
  rw [gamma1, beta, abs_lt] at norm
  omega

theorem element_responseAt
    (small : ∀ j, NormLt (signer.response k j) (gamma1 - beta)) (j : Fin 7) :
    element (responseAt (signer.signature k) j) = signer.response k j := by
  apply element_eq
  intro n bound
  rw [responseAt_signature small j bound]
  exact ZMod.coe_valMinAbs _

end Parts

/-! ## The verification vector of a signature -/

theorem w1Encode_congr {w1 other : Fin 8 → ℕ → ℤ}
    (equal : ∀ i, ∀ n < 256, w1 i n = other i n) : w1Encode w1 = w1Encode other := by
  have rows : ∀ i, bitPack 4 (fun n => (w1 i n).toNat) 256 =
      bitPack 4 (fun n => (other i n).toNat) 256 :=
    fun i => bitPack_congr fun n bound => by rw [equal i n bound]
  rw [w1Encode, w1Encode, packRows, packRows]
  simp only [rows]

section Honest

variable (shake : Shake) (seed rnd : Vector UInt8 32) (message : List UInt8) (k : ℕ)

theorem element_publicHigh (i : Fin 8) :
    element (publicHigh (publicKey shake seed) i) =
      element (keyHigh shake (expandSeed shake seed) i) :=
  element_congr fun _ bound => publicHigh_publicKey shake seed i bound

/-- The verification vector of an honest response, before rounding: the secret
vector cancels up to what the hints correct. -/
theorem verifyVector_cancels (shake : Shake) (expanded : ExpandedSeed) (c : Rq)
    (mask : Fin 7 → Rq) (i : Fin 8) :
    times shake expanded.rho (fun j => mask j + c * secretL shake expanded.rhoPrime j) i -
        c * element (keyHigh shake expanded i) * 2 ^ 13 =
      times shake expanded.rho mask i - c * secretK shake expanded.rhoPrime i +
        c * element (keyLow shake expanded i) := by
  have parts := keyVector_parts shake expanded i
  have product : times shake expanded.rho (secretL shake expanded.rhoPrime) i =
      element (keyHigh shake expanded i) * 2 ^ 13 + element (keyLow shake expanded i) -
        secretK shake expanded.rhoPrime i := by
    rw [← parts, keyVector, add_sub_cancel_right]
  rw [times_add_mul, product]
  ring

theorem signer_shake : (signer shake seed rnd message).shake = shake := by
  rw [signer]

theorem signer_rho : (signer shake seed rnd message).rho = (expandSeed shake seed).rho := by
  rw [signer]

theorem signer_mu : (signer shake seed rnd message).mu =
    digest shake (publicKey shake seed) message := by
  rw [signer]

theorem signer_s1 : (signer shake seed rnd message).s1 =
    secretL shake (expandSeed shake seed).rhoPrime := by
  rw [signer]

theorem signer_s2 : (signer shake seed rnd message).s2 =
    secretK shake (expandSeed shake seed).rhoPrime := by
  rw [signer]

theorem signer_t0 : (signer shake seed rnd message).t0 =
    keyLow shake (expandSeed shake seed) := by
  rw [signer]

/-- The verification vector is the rounded commitment and what the hints
correct. -/
theorem verifyVector_signature
    (small : ∀ j, NormLt ((signer shake seed rnd message).response k j) (gamma1 - beta))
    (i : Fin 8) :
    verifyVector shake (publicKey shake seed)
        ((signer shake seed rnd message).signature k) i =
      element (fun n => (signer shake seed rnd message).high k i n * (2 * gamma2)) +
        ((signer shake seed rnd message).residue k i +
          (signer shake seed rnd message).correction k i) := by
  have response : (fun j => element
      (responseAt ((signer shake seed rnd message).signature k) j)) =
      (signer shake seed rnd message).response k :=
    funext fun j => element_responseAt small j
  have sum := (signer shake seed rnd message).commitment_parts k i
  have cancels := verifyVector_cancels shake (expandSeed shake seed)
    ((signer shake seed rnd message).c k) ((signer shake seed rnd message).mask k) i
  have challenged : challenge shake ((signer shake seed rnd message).ctilde k) =
      (signer shake seed rnd message).c k := by
    rw [Signer.c, signer_shake]
  rw [Signer.commitment, signer_shake, signer_rho] at sum
  rw [sum] at cancels
  rw [verifyVector, take_publicKey, take_signature, element_publicHigh, response,
    challenged]
  have parts : (signer shake seed rnd message).response k = fun j =>
      (signer shake seed rnd message).mask k j +
        (signer shake seed rnd message).c k *
          secretL shake (expandSeed shake seed).rhoPrime j := by
    funext j
    rw [Signer.response, signer_s1]
  rw [parts, cancels, Signer.residue, Signer.correction, signer_s2, signer_t0]
  ring

variable {shake seed rnd message k}

/-- The hints recover the high parts of the commitment. -/
theorem useHint_signature
    (acceptable : (signer shake seed rnd message).Acceptable k) (i : Fin 8) {n : ℕ}
    (bound : n < 256) :
    useHint ((signer shake seed rnd message).hints k i n)
        (Negacyclic.coeff (verifyVector shake (publicKey shake seed)
          ((signer shake seed rnd message).signature k) i) n) =
      (signer shake seed rnd message).high k i n := by
  have vector := verifyVector_signature shake seed rnd message k acceptable.response i
  have residue := acceptable.residue i n bound
  have correction := acceptable.correction i n bound
  have high := spec_decompose_high_range
    (Negacyclic.coeff ((signer shake seed rnd message).commitment k i) n)
  have sum : ((((Negacyclic.coeff ((signer shake seed rnd message).residue k i)
        n).valMinAbs +
      (Negacyclic.coeff ((signer shake seed rnd message).correction k i) n).valMinAbs
        : ℤ)) : Zq) =
      Negacyclic.coeff ((signer shake seed rnd message).residue k i +
        (signer shake seed rnd message).correction k i) n := by
    rw [Int.cast_add, ZMod.coe_valMinAbs, ZMod.coe_valMinAbs, Negacyclic.coeff_add]
  have small : |(Negacyclic.coeff ((signer shake seed rnd message).residue k i)
        n).valMinAbs +
      (Negacyclic.coeff ((signer shake seed rnd message).correction k i) n).valMinAbs| <
        2 * gamma2 := by
    rw [abs_lt] at residue correction ⊢
    rw [gamma2, beta] at *
    omega
  have recovered := useHint_makeHint small high.1 high.2
  rw [sum] at recovered
  rw [vector, Negacyclic.coeff_add, coeff_element _ bound, Signer.hints, Signer.high]
  exact recovered

/-- An acceptable signature verifies under the public key of its seed. -/
theorem verifies_signature (acceptable : (signer shake seed rnd message).Acceptable k) :
    Verifies shake (publicKey shake seed) ((signer shake seed rnd message).signature k)
      message := by
  have few := acceptable.hintCount
  have recovered : w1Encode (fun i n =>
      useHint (hintAt (hintEncode ((signer shake seed rnd message).hints k)) i n)
        (Negacyclic.coeff (verifyVector shake (publicKey shake seed)
          ((signer shake seed rnd message).signature k) i) n)) =
      w1Encode ((signer shake seed rnd message).high k) :=
    w1Encode_congr fun i n bound => by
      rw [hintAt_hintEncode few i bound, useHint_signature acceptable i bound]
  refine ⟨?_, ?_, ?_⟩
  · rw [drop_signature]
    exact wellFormed_hintEncode few
  · intro j n bound
    rw [responseAt_signature acceptable.response j bound]
    exact acceptable.response j n bound
  · rw [take_signature, drop_signature, commitmentHash, recovered, Signer.ctilde,
      commitmentHash, signer_shake, signer_mu]

end Honest

end Spec

/-! ## The two functions together -/

/-- A signature released without an error is the signature of an acceptable
attempt. -/
theorem signWithSeed_released (shake : Shake) (seed rnd : Vector UInt8 32)
    (message : List UInt8) (storage : InternalStorage)
    (released : (signWithSeed shake seed rnd message).value storage = .none) :
    ∃ k, (Spec.signer shake seed rnd message).Acceptable k ∧
      ((signWithSeed shake seed rnd message).finish storage).sig.toList =
        (Spec.signer shake seed rnd message).signature k := by
  have loop := signWithSeed_spec shake seed rnd message storage
  by_cases none : ∀ k < 814, ¬ (Spec.signer shake seed rnd message).Acceptable k
  · rw [loop.2 none] at released
    exact absurd released (by decide)
  · push Not at none
    obtain ⟨k, early, acceptable, least⟩ := exists_first_acceptable none
    exact ⟨k, acceptable, (loop.1 k early acceptable least).2.signature⟩

theorem verifies_signWithSeed (shake : Shake) (seed rnd : Vector UInt8 32)
    (message : List UInt8) (storage : InternalStorage)
    (released : (signWithSeed shake seed rnd message).value storage = .none) :
    Spec.Verifies shake (Spec.publicKey shake seed)
      ((signWithSeed shake seed rnd message).finish storage).sig.toList message := by
  obtain ⟨k, acceptable, signature⟩ := signWithSeed_released shake seed rnd message storage
    released
  rw [signature]
  exact Spec.verifies_signature acceptable

open Classical in
noncomputable def Spec.sign (shake : Shake) (seed rnd : Vector UInt8 32)
    (message : List UInt8) : Option (List UInt8) :=
  if acceptable : ∃ k < 814, (Spec.signer shake seed rnd message).Acceptable k then
    some ((Spec.signer shake seed rnd message).signature (Nat.find acceptable))
  else none

theorem signWithSeed_sign {shake : Shake} {seed rnd : Vector UInt8 32}
    {message sig : List UInt8} (signed : Spec.sign shake seed rnd message = some sig)
    (storage : InternalStorage) :
    (signWithSeed shake seed rnd message).value storage = .none ∧
      ((signWithSeed shake seed rnd message).finish storage).sig.toList = sig := by
  classical
  have loop := signWithSeed_spec shake seed rnd message storage
  rw [Spec.sign] at signed
  split at signed
  · rename_i acceptable
    have found := Nat.find_spec acceptable
    have released := loop.1 _ found.1 found.2 fun j before early =>
      Nat.find_min acceptable before ⟨before.trans found.1, early⟩
    cases signed
    exact released.imp_right Completed.signature
  · cases signed

theorem verifies_sign {shake : Shake} {seed rnd : Vector UInt8 32}
    {message sig : List UInt8} (signed : Spec.sign shake seed rnd message = some sig) :
    Spec.Verifies shake (Spec.publicKey shake seed) sig message := by
  classical
  rw [Spec.sign] at signed
  split at signed
  · rename_i acceptable
    cases signed
    exact Spec.verifies_signature (Nat.find_spec acceptable).2
  · cases signed

theorem signWithSeed_unsigned {shake : Shake} {seed rnd : Vector UInt8 32}
    {message : List UInt8} (unsigned : Spec.sign shake seed rnd message = none)
    (storage : InternalStorage) :
    (signWithSeed shake seed rnd message).value storage = .invalidSignature := by
  have loop := signWithSeed_spec shake seed rnd message storage
  rw [Spec.sign] at unsigned
  split at unsigned
  · cases unsigned
  · rename_i unacceptable
    exact loop.2 fun k early acceptable => unacceptable ⟨k, early, acceptable⟩

/-- Every signature that signing releases is verified. -/
theorem cryptoSignOptimized_verifies (shake : Shake) (derive : Derivation)
    (rnd : Vector UInt8 32) (path : List UInt32) (message : List UInt8)
    (storage : InternalStorage)
    (released :
      (cryptoSignOptimized shake derive rnd path message).value storage = .none) :
    (cryptoVerifyOptimized shake derive path
        ((cryptoSignOptimized shake derive rnd path message).finish storage).sig.toList
        message).value
      ((cryptoSignOptimized shake derive rnd path message).finish storage) =
        (.none, true) := by
  have short : ¬ ctx.length > 255 := by decide
  by_cases empty : message = []
  · rw [cryptoSignOptimized, if_pos empty, Program.value_pure] at released
    exact absurd released (by decide)
  · cases derived : derive path with
    | none =>
        rw [cryptoSignOptimized, if_neg empty, if_neg short, derived] at released
        cases released
    | some rawSeed =>
        have unfolded : cryptoSignOptimized shake derive rnd path message =
            signWithSeed shake (seedOfRaw rawSeed) rnd message := by
          rw [cryptoSignOptimized, if_neg empty, if_neg short, derived]
        rw [unfolded] at released ⊢
        obtain ⟨k, acceptable, signature⟩ := signWithSeed_released shake
          (seedOfRaw rawSeed) rnd message storage released
        have length := Spec.length_signature acceptable.hintCount
        rw [signature, cryptoVerifyOptimized_eq shake derive path derived length empty,
          Program.value_bind, Program.value_pure,
          (verifyWithSeed_spec shake (seedOfRaw rawSeed) _ message length _).mpr
            (Spec.verifies_signature acceptable)]

/-! ## An accepted signature

With a zero matrix and zero secret vectors, an attempt is acceptable when its
mask is small. -/

namespace Spec

theorem element_zero : element (fun _ => 0) = 0 := by
  apply element_eq
  intro n _
  rw [Int.cast_zero, Negacyclic.coeff_zero]

theorem decompose_zero : decompose 0 = (0, 0) := by
  have val : (0 : Zq).val = 0 := ZMod.val_zero
  rw [decompose, val]
  decide

theorem power2Round_zero : power2Round 0 = (0, 0) := by
  have val : (0 : Zq).val = 0 := ZMod.val_zero
  rw [power2Round, val]
  decide

theorem normLt_zero {bound : ℤ} (positive : 0 < bound) : NormLt 0 bound := by
  intro n _
  rw [Negacyclic.coeff_zero, ZMod.valMinAbs_zero, abs_zero]
  exact positive

theorem hintCount_none {hints : Hints} (none : ∀ i n, hints i n = false) :
    hintCount hints = 0 := by
  simp [hintCount, positions, rowPositions, none]

theorem Signer.acceptable_of_zero {signer : Signer} {k : ℕ}
    (commitment : ∀ i, signer.commitment k i = 0) (s1 : ∀ j, signer.s1 j = 0)
    (s2 : ∀ i, signer.s2 i = 0) (t0 : ∀ i n, signer.t0 i n = 0)
    (mask : ∀ j, NormLt (signer.mask k j) (gamma1 - beta)) : signer.Acceptable k := by
  have high : ∀ i n, signer.high k i n = 0 := by
    intro i n
    rw [Signer.high, commitment, Negacyclic.coeff_zero, decompose_zero]
  have low : ∀ i, signer.low k i = fun _ => 0 := by
    intro i
    funext n
    rw [Signer.low, commitment, Negacyclic.coeff_zero, decompose_zero]
  have residue : ∀ i, signer.residue k i = 0 := by
    intro i
    rw [Signer.residue, low, element_zero, s2, mul_zero, sub_zero]
  have correction : ∀ i, signer.correction k i = 0 := by
    intro i
    have t0 : signer.t0 i = fun _ => 0 := funext (t0 i)
    rw [Signer.correction, t0, element_zero, mul_zero]
  have hints : ∀ i n, signer.hints k i n = false := by
    intro i n
    rw [Signer.hints, residue, correction, add_zero, Negacyclic.coeff_zero, high, makeHint]
    simp [decompose_zero]
  constructor
  · intro j
    rw [Signer.response, s1, mul_zero, add_zero]
    exact mask j
  · intro i
    rw [residue]
    exact normLt_zero (by decide)
  · intro i
    rw [correction]
    exact normLt_zero (by decide)
  · rw [hintCount_none hints]
    exact Nat.zero_le _

theorem toRq_zero : Poly.zero.toRq = 0 := by
  rw [← element_zero]
  apply Negacyclic.ofCoeffs_congr
  intro n bound
  simp [residues, Poly.zero, coeff, bound]

theorem times_constantShake (rho : List UInt8) (v : Fin 7 → Rq) (i : Fin 8) :
    times constantShake rho v i = 0 := by
  have entry : ∀ i j, matrix constantShake rho i j = 0 := by
    intro i j
    have leaves : (fun leaf : Fin 256 => ((Poly.zero.coeff leaf : ℤ) : Zq)) = 0 := by
      funext leaf
      simp [Poly.zero, coeff]
    rw [matrix, constantShake, matrixEntry_acceptedShake, ofLeaves, leaves, map_zero]
  rw [times]
  exact Finset.sum_eq_zero fun j _ => by rw [entry, zero_mul]

theorem secretL_constantShake (rhoPrime : List UInt8) (j : Fin 7) :
    secretL constantShake rhoPrime j = 0 := by
  rw [secretL, polyUniformEta_constantShake, toRq_zero]

theorem secretK_constantShake (rhoPrime : List UInt8) (i : Fin 8) :
    secretK constantShake rhoPrime i = 0 := by
  rw [secretK, polyUniformEta_constantShake, toRq_zero]

theorem keyLow_constantShake (expanded : ExpandedSeed) (i : Fin 8) (n : ℕ) :
    keyLow constantShake expanded i n = 0 := by
  rw [keyLow, keyVector, times_constantShake, secretK_constantShake, add_zero,
    Negacyclic.coeff_zero, power2Round_zero]

theorem byteAt_replicate (byte : UInt8) {count index : ℕ} (within : index < count) :
    byteAt (List.replicate count byte) index = byte.toNat := by
  rw [byteAt, List.getElem?_replicate_of_lt within, Option.getD_some]

theorem coeff_mask_constantShake (seed rnd : Vector UInt8 32) (message : List UInt8) (k : ℕ)
    (j : Fin 7) {n : ℕ} (bound : n < 256) :
    (Negacyclic.coeff ((signer constantShake seed rnd message).mask k j) n).valMinAbs =
      384478 := by
  have bytes : ∀ index < 680, byteAt (List.replicate 680 34) index = 34 :=
    fun index within => byteAt_replicate 34 within
  have fields : zFields (List.replicate 680 34) (n / 2) = (0x22222, 0x22222) := by
    rw [zFields, bytes _ (by omega), bytes _ (by omega), bytes _ (by omega),
      bytes _ (by omega), bytes _ (by omega)]
    decide
  have field : gamma1 - (bitField 20 (List.replicate 680 34) n : ℤ) = 384478 := by
    have unpacked := coeff_polyZUnpack
      (show 640 ≤ (List.replicate 680 (34 : UInt8)).length by
        rw [List.length_replicate]
        decide) bound
    rw [polyZUnpack, coeff_ofFn _ bound] at unpacked
    rw [← unpacked, fields]
    simp [gamma1]
  have stream : ∀ input, shakeOnce constantShake.shake256 input 680 =
      List.replicate 680 34 := fun input => bytesFrom_const 34 680 0
  rw [Signer.mask, coeff_element _ bound, signer_shake, stream, field,
    valMinAbs_cast (by decide)]

theorem mask_constantShake (seed rnd : Vector UInt8 32) (message : List UInt8) (k : ℕ)
    (j : Fin 7) :
    NormLt ((signer constantShake seed rnd message).mask k j) (gamma1 - beta) := by
  intro n bound
  rw [coeff_mask_constantShake seed rnd message k j bound]
  decide

theorem acceptable_constantShake (seed rnd : Vector UInt8 32) (message : List UInt8) :
    (signer constantShake seed rnd message).Acceptable 0 := by
  apply Signer.acceptable_of_zero
  · intro i
    rw [Signer.commitment, signer_shake, times_constantShake]
  · intro j
    rw [signer_s1, secretL_constantShake]
  · intro i
    rw [signer_s2, secretK_constantShake]
  · intro i n
    rw [signer_t0, keyLow_constantShake]
  · exact mask_constantShake seed rnd message 0

theorem responseAt_constantShake (seed rnd : Vector UInt8 32) (message : List UInt8) :
    responseAt ((signer constantShake seed rnd message).signature 0) 0 0 = 384478 := by
  rw [responseAt_signature (acceptable_constantShake seed rnd message).response 0
    (by norm_num), Signer.response, signer_s1, secretL_constantShake, mul_zero, add_zero,
    coeff_mask_constantShake seed rnd message 0 0 (by norm_num)]

theorem w1Encode_constantShake (seed rnd : Vector UInt8 32) (message : List UInt8) :
    w1Encode ((signer constantShake seed rnd message).high 0) = w1Encode fun _ _ => 0 := by
  congr 1
  funext i n
  rw [Signer.high, Signer.commitment, signer_shake, times_constantShake, Negacyclic.coeff_zero,
    decompose_zero]

end Spec

theorem responseAt_committed (seed rnd : Vector UInt8 32) (message : List UInt8)
    (storage : InternalStorage) :
    Spec.responseAt (committed (Spec.signer constantShake seed rnd message) 0
      storage).sig.toList 0 0 = gamma1 := by
  have zero : ∀ index < 3, byteAt ((committed (Spec.signer constantShake seed rnd message) 0
      storage).sig.toList.drop 64) index = 0 := by
    intro index small
    have bound : 64 + index < 4627 := by omega
    have encoded : ∀ index < 3, (Spec.w1Encode fun _ _ => 0)[64 + index]? = some 0 := by
      decide +kernel
    rw [byteAt_drop, byteAt, Vector.getElem?_toList, Vector.getElem?_eq_getElem bound,
      Option.getD_some, committed, getElem_writeBytes _ _ _ bound, if_pos (Nat.zero_le _),
      Nat.sub_zero, List.getElem?_eq_none (by rw [length_ctilde]; omega), Option.getD_none,
      getElem_writeBytes _ _ _ bound, if_pos (Nat.zero_le _), Nat.sub_zero,
      Spec.w1Encode_constantShake, encoded index small, Option.getD_some]
    rfl
  have length : (committed (Spec.signer constantShake seed rnd message) 0
      storage).sig.toList.length = cryptoBytes := Vector.length_toList
  have unpacked := coeff_responseRows length 0 (show 0 < 256 by norm_num)
  rw [← unpacked, responseRows, getElem_index, Vector.getElem_ofFn, polyZUnpack,
    Poly.coeff_ofFn _ (by norm_num)]
  dsimp only
  have first := zero 0 (by norm_num)
  have second := zero 1 (by norm_num)
  have third := zero 2 (by norm_num)
  rw [if_pos (by norm_num), zFields]
  simp only [Fin.val_zero, Nat.mul_zero, Nat.zero_mul, Nat.add_zero, Nat.zero_add, Nat.zero_div,
    first, second, third]
  rfl

theorem sig_changes_constantShake (seed rnd : Vector UInt8 32) (message : List UInt8)
    (storage : InternalStorage) :
    ∃ content ∈ (signWithSeed constantShake seed rnd message).visited storage,
      content.sig ≠ ((signWithSeed constantShake seed rnd message).finish storage).sig := by
  refine ⟨_, committed_mem_visited constantShake seed rnd message storage, fun same => ?_⟩
  have completed := ((signWithSeed_spec constantShake seed rnd message storage).1 0 (by decide)
    (Spec.acceptable_constantShake seed rnd message)
    (fun j before => absurd before (Nat.not_lt_zero j))).2
  have response := Spec.responseAt_constantShake seed rnd message
  rw [← completed.signature, ← same, responseAt_committed] at response
  exact absurd response (by decide)

/-- Signing with the constant stream releases a signature, which is verified. -/
theorem cryptoSignOptimized_verifies_constant :
    (cryptoSignOptimized constantShake zeroDerivation (Vector.replicate 32 0) []
        [1]).value zeroed = .none ∧
      (cryptoVerifyOptimized constantShake zeroDerivation []
        ((cryptoSignOptimized constantShake zeroDerivation (Vector.replicate 32 0) []
          [1]).finish zeroed).sig.toList [1]).value
        ((cryptoSignOptimized constantShake zeroDerivation (Vector.replicate 32 0) []
          [1]).finish zeroed) = (.none, true) := by
  have released : (cryptoSignOptimized constantShake zeroDerivation
      (Vector.replicate 32 0) [] [1]).value zeroed = .none := by
    have short : ¬ ctx.length > 255 := by decide
    have first := (signWithSeed_spec constantShake (seedOfRaw (Vector.replicate 64 0))
      (Vector.replicate 32 0) [1] zeroed).1 0 (by decide)
      (Spec.acceptable_constantShake _ _ _) (fun j before => absurd before (by omega))
    rw [cryptoSignOptimized, if_neg (List.cons_ne_nil 1 []), if_neg short]
    exact first.1
  exact ⟨released, cryptoSignOptimized_verifies constantShake zeroDerivation
    (Vector.replicate 32 0) [] [1] zeroed released⟩

end LedgerQrl.Mldsa87
