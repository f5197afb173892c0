import LedgerQrl.Mldsa87.Encoding
import LedgerQrl.Mldsa87.Represent
import LedgerQrl.Mldsa87.Stages

namespace LedgerQrl.Mldsa87

open Foundation Poly InternalStorage

/-! # Key generation

The three copies of key generation leave the same public key, the one of the
specification. -/

namespace InternalStorage

def pkRegion : Region InternalStorage (Vector UInt8 2592) where
  read storage := storage.pk
  write content storage := { storage with pk := content }
  read_write _ _ := rfl
  write_read := Eq.refl
  write_write _ _ _ := rfl

end InternalStorage

/-! ## The secret vectors -/

theorem stands_polyVecUniformEta {rows : ℕ} (shake : Shake) (v : Vector Poly rows)
    (seed : List UInt8) {nonce : ℕ} (small : nonce + rows ≤ 65536) :
    Stands (shake.polyVecUniformEta v seed nonce) 2 fun i =>
      (shake.polyUniformEta Poly.zero seed (nonce + i)).toRq where
  bounded := polyVecUniformEta_bounded shake v seed nonce
  toRq i := by
    have wraps : (nonce + i) % 65536 = nonce + i := Nat.mod_eq_of_lt (by omega)
    rw [Shake.polyVecUniformEta, getElem_index, Vector.getElem_ofFn, wraps,
      polyUniformEta_overwrites shake _ Poly.zero]

theorem stands_secretL (shake : Shake) (v : PolyVecL) (rhoPrime : List UInt8) :
    Stands (shake.polyVecLUniformEta v rhoPrime 0) 2
      (Spec.secretL shake rhoPrime) := by
  have sampled := stands_polyVecUniformEta shake v rhoPrime
    (show 0 + 7 ≤ 65536 by norm_num)
  simp only [Nat.zero_add] at sampled
  exact sampled

theorem stands_secretK (shake : Shake) (v : PolyVecK) (rhoPrime : List UInt8) :
    Stands (shake.polyVecKUniformEta v rhoPrime 7) 2
      (Spec.secretK shake rhoPrime) :=
  stands_polyVecUniformEta shake v rhoPrime (by norm_num)

theorem hats_secretL (shake : Shake) (v : PolyVecL) (rhoPrime : List UInt8) :
    Hats ((shake.polyVecLUniformEta v rhoPrime 0).map ntt) (9 * qConst) 1
      (Spec.secretL shake rhoPrime) :=
  (stands_secretL shake v rhoPrime).ntt (by decide)

/-! ## The key vector -/

theorem keyVector_canonical (shake : Shake) (expanded : ExpandedSeed) (l : PolyVecL)
    (k : PolyVecK) (before : Fin 8 → Poly) :
    (Vector.zipWith polyAdd
        (((Vector.ofFn fun i : Fin 8 =>
          rowProduct (fun j => shake.matrixEntry expanded.rho i j)
            ((shake.polyVecLUniformEta l expanded.rhoPrime 0).map ntt) (before i)).map
              polyReduce).map invNttToMont)
        (shake.polyVecKUniformEta k expanded.rhoPrime 7)).map polyCAddq =
      Vector.ofFn fun i => canonicalRow (Spec.keyVector shake expanded i) :=
  (((hats_secretL shake l expanded.rhoPrime).timesBack before).add
    (stands_secretK shake k expanded.rhoPrime) (by norm_num)).cAddq (by decide)

noncomputable def keyHighRows (shake : Shake) (expanded : ExpandedSeed) : PolyVecK :=
  Vector.ofFn fun i => Vector.ofFn fun n : Fin 256 => Spec.keyHigh shake expanded i n

noncomputable def keyLowRows (shake : Shake) (expanded : ExpandedSeed) : PolyVecK :=
  Vector.ofFn fun i => Vector.ofFn fun n : Fin 256 => Spec.keyLow shake expanded i n

theorem power2Round_val (x : Zq) : power2Round x.val = Spec.power2Round x := by
  have range := val_range x
  rw [power2Round_eq range.1 range.2, cast_val]

theorem map_power2Round_high (shake : Shake) (expanded : ExpandedSeed) :
    (Vector.ofFn fun i => canonicalRow (Spec.keyVector shake expanded i)).map
      (fun row => row.map fun a => (power2Round a).1) = keyHighRows shake expanded := by
  ext1 i bound
  rw [Vector.getElem_map, Vector.getElem_ofFn, keyHighRows, Vector.getElem_ofFn]
  have high : ∀ x : Zq, (power2Round x.val).1 = (Spec.power2Round x).1 :=
    fun x => by rw [power2Round_val]
  exact map_canonicalRow (fun a => (power2Round a).1)
    (fun x => (Spec.power2Round x).1) high _

theorem map_power2Round_low (shake : Shake) (expanded : ExpandedSeed) :
    (Vector.ofFn fun i => canonicalRow (Spec.keyVector shake expanded i)).map
      (fun row => row.map fun a => (power2Round a).2) = keyLowRows shake expanded := by
  ext1 i bound
  rw [Vector.getElem_map, Vector.getElem_ofFn, keyLowRows, Vector.getElem_ofFn]
  have low : ∀ x : Zq, (power2Round x.val).2 = (Spec.power2Round x).2 :=
    fun x => by rw [power2Round_val]
  exact map_canonicalRow (fun a => (power2Round a).2)
    (fun x => (Spec.power2Round x).2) low _

namespace Spec

/-- The two parts make up the value, and lie in their ranges. -/
theorem power2Round_spec (x : Zq) :
    (x.val : ℤ) = (power2Round x).1 * 8192 + (power2Round x).2 ∧
      -4096 < (power2Round x).2 ∧ (power2Round x).2 ≤ 4096 ∧
      0 ≤ (power2Round x).1 ∧ (power2Round x).1 < 1024 := by
  have range := val_range x
  obtain ⟨k, exactly, lower, upper⟩ := centredMod_spec x.val (show (0 : ℤ) < 8192 by decide)
  rw [power2Round, qConst] at *
  dsimp only
  omega

end Spec

theorem coeff_keyHighRows (shake : Shake) (expanded : ExpandedSeed) (i : Fin 8) {n : ℕ}
    (bound : n < 256) :
    (keyHighRows shake expanded)[i].coeff n = Spec.keyHigh shake expanded i n := by
  rw [keyHighRows, getElem_index, Vector.getElem_ofFn, coeff_ofFn _ bound]

theorem coeff_keyLowRows (shake : Shake) (expanded : ExpandedSeed) (i : Fin 8) {n : ℕ}
    (bound : n < 256) :
    (keyLowRows shake expanded)[i].coeff n = Spec.keyLow shake expanded i n := by
  rw [keyLowRows, getElem_index, Vector.getElem_ofFn, coeff_ofFn _ bound]

/-! ## The packed key -/

theorem finish_packPkVolatile (rho : List UInt8) (length : rho.length = 32)
    {t1 : InternalStorage → PolyVecK} (independent : ∀ pk storage,
      t1 (pkRegion.write pk storage) = t1 storage) (storage : InternalStorage) :
    (packPkVolatile rho t1).finish storage =
      { storage with
        pk := writeBytes 0 (rho ++ (List.finRange 8).flatMap fun i =>
          polyT1Pack (t1 storage)[i]) storage.pk } := by
  have each : ∀ (i : Fin 8) storage, (polyT1Pack (t1 storage)[i]).length = 320 :=
    fun i storage => length_polyT1Pack _
  have rows := Program.finish_forRows_put pkRegion writeBytes
    (fun start before bytes content _ => writeBytes_append start before bytes content)
    each (fun i content storage => by rw [independent])
    (show 32 + 8 * 320 ≤ 2592 by norm_num)
    (pkRegion.write (writeBytes 0 rho storage.pk) storage)
  have joined := writeBytes_append 0 rho
    ((List.finRange 8).flatMap fun i => polyT1Pack (t1 storage)[i]) storage.pk
  rw [length, Nat.zero_add] at joined
  rw [independent, Region.read_write, Region.write_write, joined] at rows
  rw [packPkVolatile, Program.finish_bind, Program.finish_update]
  exact rows

theorem packRows_keyHigh (shake : Shake) (expanded : ExpandedSeed) :
    ((List.finRange 8).flatMap fun i =>
      polyT1Pack (keyHighRows shake expanded)[i]) =
      Spec.packRows 10 fun i n => (Spec.keyHigh shake expanded i n).toNat := by
  rw [Spec.packRows]
  congr 1
  funext i
  have range : ∀ n < 256, 0 ≤ (keyHighRows shake expanded)[i].coeff n ∧
      (keyHighRows shake expanded)[i].coeff n < 1024 := by
    intro n bound
    rw [coeff_keyHighRows shake expanded i bound, Spec.keyHigh]
    exact (Spec.power2Round_spec _).2.2.2
  rw [polyT1Pack_eq range]
  apply bitPack_congr
  intro n bound
  rw [coeff_keyHighRows shake expanded i bound]

theorem length_publicKey (shake : Shake) (seed : Vector UInt8 32) :
    (Spec.publicKey shake seed).length = 2592 := by
  have rows : ∀ i : Fin 8, (bitPack 10 (fun n =>
      (Spec.keyHigh shake (expandSeed shake seed) i n).toNat) 256).length = 320 :=
    fun i => by simp
  rw [Spec.publicKey, List.length_append, Spec.packRows, length_flatMap_rows rows]
  simp [expandSeed]

/-- What all three copies leave in the public key. -/
noncomputable def publicKeyBytes (shake : Shake) (seed : Vector UInt8 32) :
    Vector UInt8 2592 :=
  ⟨(Spec.publicKey shake seed).toArray, length_publicKey shake seed⟩

theorem writeBytes_publicKey (shake : Shake) (seed : Vector UInt8 32)
    (before : Vector UInt8 2592) :
    writeBytes 0 (Spec.publicKey shake seed) before = publicKeyBytes shake seed := by
  apply Vector.toList_inj.mp
  rw [toList_writeBytes (length_publicKey shake seed)]
  rfl

/-! ## Both parts of the key vector -/

/-- Up to the two parts of the key vector, where `s2` is sampled over `before`. -/
def keyParts (shake : Shake) (expanded : ExpandedSeed) (before : PolyVecK) :
    NvmProgram Unit := do
  combinedMethod shake t1Region
    (fun _ => (shake.polyVecLUniformEta blankL expanded.rhoPrime 0).map ntt) expanded.rho
  polyVecKReduceVolatile t1Region
  polyVecKInvNttToMontVolatile t1Region
  polyVecKAddVolatile t1Region fun _ =>
    shake.polyVecKUniformEta before expanded.rhoPrime 7
  polyVecKCAddqVolatile t1Region
  polyVecKPower2RoundVolatile t1Region pack1Region t1Region.read

section KeyParts

variable (shake : Shake) (expanded : ExpandedSeed) (before : PolyVecK)
  (storage : InternalStorage)

theorem finish_keyParts :
    (keyParts shake expanded before).finish storage =
      { storage with
        t1 := keyHighRows shake expanded, pack1 := keyLowRows shake expanded } := by
  rw [keyParts]
  simp only [Program.finish_bind, independent_const, pack1_t1_independent,
    finish_combinedMethod, finish_polyVecKReduceVolatile,
    finish_polyVecKInvNttToMontVolatile, finish_polyVecKAddVolatile,
    finish_polyVecKCAddqVolatile, finish_polyVecKPower2RoundVolatile, read_t1Region,
    write_t1Region, write_pack1Region, keyVector_canonical, map_power2Round_high,
    map_power2Round_low]

end KeyParts

def signingKey (shake : Shake) (expanded : ExpandedSeed) : SigningKey :=
  let s1 := shake.polyVecLUniformEta blankL expanded.rhoPrime 0
  { rho := expanded.rho
    key := expanded.key
    s1 := s1
    s2 := shake.polyVecKUniformEta (overlayS1hat (s1.map ntt)) expanded.rhoPrime 7 }

theorem signKeyPrefix_eq (shake : Shake) (seed : Vector UInt8 32) :
    signKeyPrefix shake seed =
      (do
        keyParts shake (expandSeed shake seed) (overlayS1hat
          ((shake.polyVecLUniformEta blankL (expandSeed shake seed).rhoPrime 0).map ntt))
        packPkVolatile (expandSeed shake seed).rho t1Region.read
        pure (signingKey shake (expandSeed shake seed))) := by
  rw [signKeyPrefix, keyParts]
  simp only [bind_assoc]
  rfl

theorem verifyKeyPrefix_eq (shake : Shake) (seed : Vector UInt8 32) :
    verifyKeyPrefix shake seed =
      (do
        keyParts shake (expandSeed shake seed) blankK
        packPkVolatile (expandSeed shake seed).rho t1Region.read
        pure (expandSeed shake seed).rho) := by
  rw [verifyKeyPrefix, keyParts]
  simp only [bind_assoc]

/-! ## The three copies -/

section Copies

variable (shake : Shake) (seed : Vector UInt8 32) (storage : InternalStorage)

theorem length_rho : (expandSeed shake seed).rho.length = 32 := by
  rw [expandSeed]
  exact length_squeeze _ _

theorem finish_packKey (packed : InternalStorage)
    (high : packed.t1 = keyHighRows shake (expandSeed shake seed)) :
    (packPkVolatile (expandSeed shake seed).rho t1Region.read).finish packed =
      { packed with pk := publicKeyBytes shake seed } := by
  have bytes := writeBytes_publicKey shake seed packed.pk
  simp only [Spec.publicKey] at bytes
  rw [finish_packPkVolatile _ (length_rho shake seed) (fun _ _ => rfl),
    read_t1Region, high, packRows_keyHigh, bytes]

theorem finish_cryptoSignKeypair (seedNew : Vector UInt8 32) :
    (cryptoSignKeypair shake seedNew (some seed)).finish storage =
      { storage with
        t1 := keyHighRows shake (expandSeed shake seed)
        pk := publicKeyBytes shake seed } := by
  rw [cryptoSignKeypair]
  simp only [Option.getD_some, Program.finish_bind, Program.finish_pure,
    independent_const, finish_combinedMethod, finish_polyVecKReduceVolatile,
    finish_polyVecKInvNttToMontVolatile, finish_polyVecKAddVolatile,
    finish_polyVecKCAddqVolatile, finish_polyVecKPower2RoundVolatileKeypair,
    read_t1Region, write_t1Region, keyVector_canonical, map_power2Round_high]
  rw [finish_packKey shake seed _ rfl]

theorem finish_signKeyPrefix :
    (signKeyPrefix shake seed).finish storage =
      { storage with
        t1 := keyHighRows shake (expandSeed shake seed)
        pack1 := keyLowRows shake (expandSeed shake seed)
        pk := publicKeyBytes shake seed } := by
  rw [signKeyPrefix_eq, Program.finish_bind, Program.finish_bind, Program.finish_pure,
    finish_keyParts, finish_packKey shake seed _ rfl]

theorem finish_verifyKeyPrefix :
    (verifyKeyPrefix shake seed).finish storage =
      { storage with
        t1 := keyHighRows shake (expandSeed shake seed)
        pack1 := keyLowRows shake (expandSeed shake seed)
        pk := publicKeyBytes shake seed } := by
  rw [verifyKeyPrefix_eq, Program.finish_bind, Program.finish_bind, Program.finish_pure,
    finish_keyParts, finish_packKey shake seed _ rfl]

@[simp] theorem value_verifyKeyPrefix :
    (verifyKeyPrefix shake seed).value storage = (expandSeed shake seed).rho := by
  rw [verifyKeyPrefix_eq, Program.value_bind, Program.value_bind, Program.value_pure]

theorem value_signKeyPrefix :
    (signKeyPrefix shake seed).value storage = signingKey shake (expandSeed shake seed) := by
  rw [signKeyPrefix_eq, Program.value_bind, Program.value_bind, Program.value_pure]

theorem toList_publicKeyBytes :
    (publicKeyBytes shake seed).toList = Spec.publicKey shake seed := by
  rw [publicKeyBytes]
  rfl

/-- The key that is shown is the key that signs and verifies. -/
theorem publicKey_agrees (seedNew seed : Vector UInt8 32)
    (first second third : InternalStorage) :
    ((cryptoSignKeypair shake seedNew (some seed)).finish first).pk.toList =
        Spec.publicKey shake seed ∧
      ((signKeyPrefix shake seed).finish second).pk.toList =
        Spec.publicKey shake seed ∧
      ((verifyKeyPrefix shake seed).finish third).pk.toList =
        Spec.publicKey shake seed ∧
      ∀ i : Fin 8, ∀ n < 256,
        ((Negacyclic.coeff (Spec.keyVector shake (expandSeed shake seed) i) n).val : ℤ) =
            Spec.keyHigh shake (expandSeed shake seed) i n * 2 ^ 13 +
              Spec.keyLow shake (expandSeed shake seed) i n ∧
          -2 ^ 12 < Spec.keyLow shake (expandSeed shake seed) i n ∧
          Spec.keyLow shake (expandSeed shake seed) i n ≤ 2 ^ 12 ∧
          ((signKeyPrefix shake seed).finish second).pack1[i].coeff n =
            Spec.keyLow shake (expandSeed shake seed) i n := by
  rw [finish_cryptoSignKeypair, finish_signKeyPrefix, finish_verifyKeyPrefix]
  refine ⟨toList_publicKeyBytes shake seed, toList_publicKeyBytes shake seed,
    toList_publicKeyBytes shake seed, ?_⟩
  intro i n bound
  have parts := Spec.power2Round_spec
    (Negacyclic.coeff (Spec.keyVector shake (expandSeed shake seed) i) n)
  refine ⟨?_, ?_, ?_, coeff_keyLowRows shake _ i bound⟩
  · rw [parts.1, Spec.keyHigh, Spec.keyLow]
    norm_num
  · rw [Spec.keyLow]
    exact parts.2.1
  · rw [Spec.keyLow]
    exact parts.2.2.1

end Copies

end LedgerQrl.Mldsa87
