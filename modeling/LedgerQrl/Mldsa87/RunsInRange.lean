import LedgerQrl.Mldsa87.CutStreams
import LedgerQrl.Mldsa87.InRange

namespace LedgerQrl.Mldsa87.Guarded

open Foundation Poly InternalStorage GuardedProgram

/-! # Runs in range

Each of the three functions passes every test, whatever the streams are. -/

section Runs

variable {early : Prop} {streams : Streams} {shake : Shake} {storage : InternalStorage}

/-! ## Key generation -/

section Product

variable {Result : Type} {next : GuardedNvm Result} {nextProgram : NvmProgram Result}
  {after : Result → InternalStorage → Prop}

theorem leads_product (underlies : streams.Underlies early shake)
    {region : Region InternalStorage PolyVecK} {s1hat : InternalStorage → PolyVecL}
    (independent : Independent region s1hat) (rho : List UInt8)
    (bounded : Rows (UpTo (9 * qConst)) (s1hat storage))
    (rest : ∀ v, Rows (UpTo 4211178) v →
      Leads early next nextProgram (region.write v storage) after) :
    Leads early
      (do
        combinedMethod streams region s1hat rho
        polyVecReduceVolatile region
        polyVecInvNttToMontVolatile region
        next)
      (do
        Mldsa87.combinedMethod shake region s1hat rho
        polyVecKReduceVolatile region
        polyVecKInvNttToMontVolatile region
        nextProgram)
      storage after := by
  apply leads_bind (leads_combined underlies independent rho bounded)
  rintro _ _ ⟨product, productRange, rfl⟩
  apply leads_bind (leads_reduce (by
    rw [Region.read_write]
    exact productRange.upTo (by decide)))
  rintro _ _ ⟨reduced, reducedRange, rfl⟩
  apply leads_bind (leads_invNttToMont (by
    rw [Region.read_write]
    exact reducedRange.upTo (by decide)))
  rintro _ _ ⟨back, backRange, rfl⟩
  rw [Region.write_write, Region.write_write]
  exact rest back backRange

theorem leads_rounded {s2 : PolyVecK} (range : Rows (UpTo 4211178) storage.t1)
    (small : Rows (UpTo 2) s2)
    (rest : ∀ v, Rows (Within 0 qConst) v →
      Leads early next nextProgram { storage with t1 := v } after) :
    Leads early
      (do
        polyVecAddVolatile t1Region fun _ => s2
        polyVecCAddqVolatile t1Region
        next)
      (do
        polyVecKAddVolatile t1Region fun _ => s2
        polyVecKCAddqVolatile t1Region
        nextProgram)
      storage after := by
  apply leads_bind (leads_add (independent_const t1Region s2) range small (by decide))
  rintro _ _ ⟨sum, sumRange, rfl⟩
  apply leads_bind (leads_cAddq (by
    rw [Region.read_write]
    exact sumRange.upTo (by decide)))
  rintro _ _ ⟨rounded, roundedRange, rfl⟩
  rw [Region.write_write]
  exact rest rounded roundedRange

end Product

theorem secret_upTo (shake : Shake) {rows : ℕ} (v : Vector Poly rows) (seed : List UInt8)
    (nonce : ℕ) : Rows (UpTo 2) (shake.polyVecUniformEta v seed nonce) :=
  polyVecUniformEta_bounded shake v seed nonce

theorem transform_eq {rows : ℕ} {v : Vector Poly rows} (small : Rows (UpTo 2) v) :
    polyVecNtt v = some (v.map Mldsa87.ntt) ∧
      Rows (UpTo (9 * qConst)) (v.map Mldsa87.ntt) := by
  have bounded : Rows (UpTo qConst) v := small.upTo (by decide)
  exact ⟨polyVecNtt_eq bounded, rows_map bounded fun _ => ntt_bounded⟩

theorem leads_cryptoSignKeypair (underlies : streams.Underlies early shake)
    (seedNew : Vector UInt8 32) (seed : Option (Vector UInt8 32)) :
    Leads early (cryptoSignKeypair streams seedNew seed)
      (Mldsa87.cryptoSignKeypair shake seedNew seed) storage fun _ _ => True := by
  rw [cryptoSignKeypair, Mldsa87.cryptoSignKeypair, underlies.expandSeed,
    Shake.polyVecLUniformEta, Shake.polyVecKUniformEta]
  have length := length_rho shake (seed.getD seedNew)
  generalize Mldsa87.expandSeed shake (seed.getD seedNew) = expanded at length ⊢
  have transform := transform_eq (secret_upTo shake blankL expanded.rhoPrime 0)
  apply leads_await (underlies.polyVecUniformEta blankL expanded.rhoPrime 0)
  apply leads_await (underlies.polyVecUniformEta blankK expanded.rhoPrime 7)
  apply leads_check transform.1
  apply leads_product underlies (independent_const t1Region _) _ transform.2
  intro product productRange
  apply leads_rounded
  · exact productRange
  · exact secret_upTo shake blankK expanded.rhoPrime 7
  intro sum sumRange
  apply leads_bind
  · exact leads_power2RoundKeypair sumRange
  rintro _ _ ⟨high, highRange, rfl⟩
  apply leads_bind
  · exact leads_packPk length highRange
  intro _ _ _
  exact leads_pure trivial

theorem leads_published {Result : Type} {next : GuardedNvm Result}
    {nextProgram : NvmProgram Result} {after : Result → InternalStorage → Prop}
    {rho : List UInt8} (length : rho.length = 32)
    (range : Rows (Within 0 qConst) storage.t1)
    (rest : ∀ storage, Rows (Within 0 1024) storage.t1 → Rows (UpTo 4096) storage.pack1 →
      Leads early next nextProgram storage after) :
    Leads early
      (do
        polyVecKPower2RoundVolatile t1Region pack1Region t1Region.read
        packPkVolatile rho t1Region.read
        next)
      (do
        Mldsa87.polyVecKPower2RoundVolatile t1Region pack1Region t1Region.read
        Mldsa87.packPkVolatile rho t1Region.read
        nextProgram)
      storage after := by
  apply leads_bind
  · exact leads_power2Round pack1_t1_independent range
  rintro _ _ ⟨high, low, highRange, lowRange, rfl⟩
  apply leads_bind
  · exact leads_packPk length highRange
  rintro _ _ ⟨pk, rfl⟩
  exact rest _ highRange lowRange

structure KeyInRange (key : SigningKey) (storage : InternalStorage) : Prop where
  s1 : Rows (UpTo 2) key.s1
  s2 : Rows (UpTo 2) key.s2
  t0 : Rows (UpTo 4096) storage.pack1

theorem leads_signKeyPrefix (underlies : streams.Underlies early shake)
    (seed : Vector UInt8 32) :
    Leads early (signKeyPrefix streams seed) (Mldsa87.signKeyPrefix shake seed) storage
      KeyInRange := by
  rw [signKeyPrefix, Mldsa87.signKeyPrefix, underlies.expandSeed,
    Shake.polyVecLUniformEta, Shake.polyVecKUniformEta]
  have length := length_rho shake seed
  generalize Mldsa87.expandSeed shake seed = expanded at length ⊢
  have small := secret_upTo shake blankL expanded.rhoPrime 0
  have transform := transform_eq small
  apply leads_await (underlies.polyVecUniformEta blankL expanded.rhoPrime 0)
  apply leads_check transform.1
  apply leads_product underlies (independent_const t1Region _) _ transform.2
  intro product productRange
  apply leads_await (underlies.polyVecUniformEta _ expanded.rhoPrime 7)
  have second := secret_upTo shake (overlayS1hat ((shake.polyVecUniformEta blankL
    expanded.rhoPrime 0).map Mldsa87.ntt)) expanded.rhoPrime 7
  apply leads_rounded
  · exact productRange
  · exact second
  intro sum sumRange
  apply leads_published length
  · exact sumRange
  intro after _ lowRange
  exact leads_pure ⟨small, second, lowRange⟩

theorem leads_verifyKeyPrefix (underlies : streams.Underlies early shake)
    (seed : Vector UInt8 32) :
    Leads early (verifyKeyPrefix streams seed) (Mldsa87.verifyKeyPrefix shake seed) storage
      fun _ after => Rows (Within 0 1024) after.t1 := by
  rw [verifyKeyPrefix, Mldsa87.verifyKeyPrefix, underlies.expandSeed,
    Shake.polyVecLUniformEta, Shake.polyVecKUniformEta]
  have length := length_rho shake seed
  generalize Mldsa87.expandSeed shake seed = expanded at length ⊢
  have transform := transform_eq (secret_upTo shake blankL expanded.rhoPrime 0)
  apply leads_await (underlies.polyVecUniformEta blankL expanded.rhoPrime 0)
  apply leads_await (underlies.polyVecUniformEta blankK expanded.rhoPrime 7)
  apply leads_check transform.1
  apply leads_product underlies (independent_const t1Region _) _ transform.2
  intro product productRange
  apply leads_rounded
  · exact productRange
  · exact secret_upTo shake blankK expanded.rhoPrime 7
  intro sum sumRange
  apply leads_published length
  · exact sumRange
  intro after highRange _
  exact leads_pure highRange

/-! ## Attempts -/

structure AttemptInRange (input : AttemptInput) (storage : InternalStorage) : Prop where
  s1hat : Rows (UpTo (9 * qConst)) input.s1hat
  s2hat : Rows (UpTo (9 * qConst)) input.s2hat
  t0hat : Rows (UpTo (9 * qConst)) storage.pack1

theorem leads_signPrepare (underlies : streams.Underlies early shake) {key : SigningKey}
    (inRange : KeyInRange key storage) (rnd : Vector UInt8 32) (message : List UInt8) :
    Leads early (signPrepare streams key rnd message)
      (Mldsa87.signPrepare shake key rnd message) storage AttemptInRange := by
  rw [signPrepare, Mldsa87.signPrepare]
  apply leads_read
  dsimp only
  rw [underlies.messageDigest, underlies.shakeOnce _ 64 (by norm_num)]
  have first := transform_eq inRange.s1
  have second := transform_eq inRange.s2
  apply leads_check first.1
  apply leads_check second.1
  apply leads_bind
  · exact leads_ntt (inRange.t0.upTo (by decide))
  rintro _ _ ⟨t0hat, t0hatRange, rfl⟩
  exact leads_pure ⟨first.2, second.2, t0hatRange⟩

/-- The storage after the commitment. -/
structure Committed (storage : InternalStorage) : Prop where
  cp : UpTo (9 * qConst) storage.cp
  y : Rows (UpTo gamma1) storage.y
  w1 : Rows (Within 0 16) storage.w1
  w0 : Rows (UpTo 261888) storage.w0
  t0hat : Rows (UpTo (9 * qConst)) storage.pack1

theorem leads_signCommit (underlies : streams.Underlies early shake)
    {input : AttemptInput} (inRange : AttemptInRange input storage) {nonce : ℕ}
    (few : nonce < 814) :
    Leads early (signCommit streams input nonce) (Mldsa87.signCommit shake input nonce)
      storage fun _ after => Committed after := by
  have t0hat := inRange.t0hat
  apply leads_bind
  · exact leads_polyVecLUniformGamma1 underlies input.rhoPrime few
  rintro _ _ ⟨y, yRange, rfl⟩
  apply leads_bind
  · exact leads_copy yRange
  rintro _ _ ⟨z, zRange, rfl⟩
  apply leads_bind
  · exact leads_ntt (zRange.upTo (by decide))
  rintro _ _ ⟨zhat, zhatRange, rfl⟩
  apply leads_product underlies w1_z_independent
  · exact zhatRange
  intro product productRange
  apply leads_bind
  · exact leads_cAddq (productRange.upTo (by decide))
  rintro _ _ ⟨w, wRange, rfl⟩
  apply leads_bind
  · exact leads_decompose w0_w1_independent wRange
  rintro _ _ ⟨high, low, highRange, lowRange, rfl⟩
  apply leads_bind
  · exact leads_packW1 highRange
  rintro _ _ ⟨packed, rfl⟩
  apply leads_bind
  · apply leads_update
    rw [underlies.shakeOnce _ 64 (by norm_num)]
  rintro _ _ rfl
  apply leads_bind
  · exact leads_polyChallenge underlies _
  rintro _ _ ⟨c, cRange, rfl⟩
  apply Leads.weaken
  · exact leads_polyNtt (cRange.mono (by decide))
  rintro _ _ ⟨cp, cpRange, rfl⟩
  exact ⟨cpRange, yRange, highRange, lowRange, t0hat⟩

section Attempt

variable {input : AttemptInput}

theorem leads_signResponse (challenge : UpTo (9 * qConst) storage.cp)
    (mask : Rows (UpTo gamma1) storage.y) (s1hat : Rows (UpTo (9 * qConst)) input.s1hat) :
    Leads early (signResponse input) (Mldsa87.signResponse input) storage
      (Writes zRegion (UpTo 6283008) storage) := by
  apply leads_bind
  · exact leads_pointwise z_cp_independent (fun _ _ _ _ _ => rfl) challenge s1hat
  rintro _ _ ⟨product, productRange, rfl⟩
  apply leads_bind
  · exact leads_invNttToMont productRange
  rintro _ _ ⟨back, backRange, rfl⟩
  apply leads_bind
  · exact leads_add z_y_independent backRange mask (by decide)
  rintro _ _ ⟨sum, sumRange, rfl⟩
  exact leads_reduce (sumRange.upTo (by decide))

theorem leads_signLowBits (challenge : UpTo (9 * qConst) storage.cp)
    (low : Rows (UpTo 261888) storage.w0) (s2hat : Rows (UpTo (9 * qConst)) input.s2hat) :
    Leads early (signLowBits input) (Mldsa87.signLowBits input) storage
      fun _ after => ∃ h w0, Rows (UpTo 6283008) w0 ∧
        after = { storage with h := h, w0 := w0 } := by
  apply leads_bind
  · exact leads_pointwise h_cp_independent (fun _ _ _ _ _ => rfl) challenge s2hat
  rintro _ _ ⟨product, productRange, rfl⟩
  apply leads_bind
  · exact leads_invNttToMont productRange
  rintro _ _ ⟨back, backRange, rfl⟩
  apply leads_bind
  · exact leads_sub w0_h_independent low backRange (by decide)
  rintro _ _ ⟨difference, differenceRange, rfl⟩
  apply Leads.weaken
  · exact leads_reduce (differenceRange.upTo (by decide))
  rintro _ _ ⟨w0, w0Range, rfl⟩
  exact ⟨back, w0, w0Range, rfl⟩

theorem leads_signHintInput (challenge : UpTo (9 * qConst) storage.cp)
    (t0hat : Rows (UpTo (9 * qConst)) storage.pack1) :
    Leads early signHintInput Mldsa87.signHintInput storage
      (Writes hRegion (UpTo 6283008) storage) := by
  apply leads_bind
  · exact leads_pointwise h_cp_independent
      (fun index _ storage value _ => by rw [h_pack1_independent.setRow]) challenge t0hat
  rintro _ _ ⟨product, productRange, rfl⟩
  apply leads_bind
  · exact leads_invNttToMont productRange
  rintro _ _ ⟨back, backRange, rfl⟩
  exact leads_reduce (backRange.upTo (by decide))

/-- A row has at most as many hints as its words add up to. -/
theorem nonzeroCount_le (words : Vector ℕ 256) :
    nonzeroCount (words.map fun (hint : ℕ) => (hint : Int)) (List.range 256) ≤
      words.foldl (fun s2 hint => s2 + hint) 0 := by
  have sum : ∀ (list : List ℕ) (start : ℕ),
      start + (list.filter fun hint => hint ≠ 0).length ≤
        list.foldl (fun s2 hint => s2 + hint) start := by
    intro list
    induction list with
    | nil => exact fun _ => le_rfl
    | cons hint rest induction =>
        intro start
        have others := induction (start + hint)
        rw [List.foldl_cons, List.filter_cons]
        split
        · rename_i nonzero
          have positive : 0 < hint := Nat.pos_of_ne_zero (by simpa using nonzero)
          rw [List.length_cons]
          omega
        · omega
  have list : words.toList = (List.range 256).map fun n => words[n]?.getD 0 := by
    apply List.ext_getElem
    · simp
    · intro n bound _
      rw [Vector.length_toList] at bound
      simp [bound]
  have words_sum := sum words.toList 0
  rw [Nat.zero_add, Vector.foldl_toList] at words_sum
  refine le_trans (le_of_eq ?_) words_sum
  rw [nonzeroCount, list, List.filter_map, List.length_map]
  congr 1
  apply List.filter_congr
  intro n member
  have bound := List.mem_range.mp member
  rw [coeff_of_lt _ bound]
  simp [bound]

theorem leads_signHints (low : Rows (UpTo 6283008) storage.w0)
    (high : Rows (Within 0 16) storage.w1) (h : Rows (UpTo 6283008) storage.h) :
    Leads early signHints Mldsa87.signHints storage
      fun count after => ∃ w0 h, nonzeroRows h (List.finRange 8) ≤ count ∧
        after = { storage with w0 := w0, h := h } := by
  apply leads_bind
  · exact leads_add w0_h_independent low h (by decide)
  rintro _ _ ⟨sum, sumRange, rfl⟩
  have made := polyVecKMakeHint_spec { storage with w0 := sum }
  refine ⟨follows_polyVecKMakeHint (fun _ _ => rfl) (fun _ _ => rfl)
    (sumRange.upTo (by decide)) ?_, sum, _, ?_, made.1⟩
  · intro i
    exact (high i).upTo (by decide) (by decide)
  · refine le_trans ?_ (le_of_eq made.2.symm)
    apply List.sum_le_sum
    intro i _
    rw [getElem_index, Vector.getElem_ofFn]
    exact nonzeroCount_le _

theorem leads_signEncode
    (range : ∀ b : Fin 7, ∀ n < 256, |storage.z[b].coeff n| < gamma1 - beta)
    (few : nonzeroRows storage.h (List.finRange 8) ≤ 75) :
    Leads early signEncode Mldsa87.signEncode storage fun _ _ => True := by
  apply leads_read
  refine ⟨follows_packSig _ ?_ (by omega), trivial⟩
  intro b n bound
  have small := range b n bound
  rw [beta, abs_lt] at small
  omega

theorem leads_signAttempt (underlies : streams.Underlies early shake)
    (inRange : AttemptInRange input storage) {nonce : ℕ} (few : nonce < 814) :
    Leads early (signAttempt streams input nonce) (Mldsa87.signAttempt shake input nonce)
      storage fun accepted after => accepted = false → AttemptInRange input after := by
  have s1hat := inRange.s1hat
  have s2hat := inRange.s2hat
  apply leads_bind
  · exact leads_signCommit underlies inRange few
  intro _ storage committed
  have t0hat := committed.t0hat
  apply leads_bind
  · exact leads_signResponse committed.cp committed.y s1hat
  rintro _ _ ⟨z, zRange, rfl⟩
  apply leads_read
  have norm : polyVecChkNorm z (gamma1 - beta) = some (polyVecLChkNorm z (gamma1 - beta)) :=
    polyVecChkNorm_eq (zRange.upTo (by decide)) (by decide)
  apply leads_check norm
  apply leads_ite
  · exact fun _ => leads_pure fun _ => ⟨s1hat, s2hat, t0hat⟩
  intro smallResponse
  apply leads_bind
  · exact leads_signLowBits committed.cp committed.w0 s2hat
  rintro _ _ ⟨product, w0, w0Range, rfl⟩
  apply leads_read
  have norm : polyVecChkNorm w0 (gamma2 - beta) =
      some (polyVecKChkNorm w0 (gamma2 - beta)) :=
    polyVecChkNorm_eq (w0Range.upTo (by decide)) (by decide)
  apply leads_check norm
  apply leads_ite
  · exact fun _ => leads_pure fun _ => ⟨s1hat, s2hat, t0hat⟩
  intro _
  apply leads_bind
  · exact leads_signHintInput committed.cp t0hat
  rintro _ _ ⟨h, hRange, rfl⟩
  apply leads_read
  have norm : polyVecChkNorm h gamma2 = some (polyVecKChkNorm h gamma2) :=
    polyVecChkNorm_eq (hRange.upTo (by decide)) (by decide)
  apply leads_check norm
  apply leads_ite
  · exact fun _ => leads_pure fun _ => ⟨s1hat, s2hat, t0hat⟩
  intro _
  apply leads_bind
  · exact leads_signHints w0Range committed.w1 hRange
  rintro count _ ⟨sum, hints, counted, rfl⟩
  apply leads_ite
  · exact fun _ => leads_pure fun _ => ⟨s1hat, s2hat, t0hat⟩
  intro fewHints
  have zSmall := (polyVecChkNorm_eq_zero_iff
    (fun b => (zRange b).mono (by norm_num)) (by decide) (by decide)).mp
      (not_not.mp smallResponse)
  apply leads_bind
  · exact leads_signEncode zSmall (counted.trans (Nat.le_of_not_lt fewHints))
  intro _ _ _
  exact leads_pure fun rejected => nomatch rejected

theorem leads_signAttempts (underlies : streams.Underlies early shake) :
    ∀ (remaining nonce : ℕ) (storage : InternalStorage), nonce + remaining ≤ 814 →
      AttemptInRange input storage →
      Leads early (signAttempts streams input remaining nonce)
        (Mldsa87.signAttempts shake input remaining nonce) storage fun _ _ => True
  | 0, _, _, _, _ => leads_pure trivial
  | remaining + 1, nonce, storage, few, inRange => by
      apply leads_bind
      · exact leads_signAttempt underlies inRange (by omega)
      intro accepted after kept
      apply leads_ite
      · exact fun _ => leads_pure trivial
      intro rejected
      apply leads_signAttempts underlies remaining (nonce + 1) after (by omega)
      exact kept (by simpa using rejected)

end Attempt

theorem leads_signWithSeed (underlies : streams.Underlies early shake)
    (seed rnd : Vector UInt8 32) (message : List UInt8) :
    Leads early (signWithSeed streams seed rnd message)
      (Mldsa87.signWithSeed shake seed rnd message) storage fun _ _ => True := by
  apply leads_bind
  · exact leads_signKeyPrefix underlies seed
  intro key _ keyRange
  apply leads_bind
  · exact leads_signPrepare underlies keyRange rnd message
  intro input after inRange
  exact leads_signAttempts underlies 814 0 after le_rfl inRange

theorem leads_cryptoSignOptimized (underlies : streams.Underlies early shake)
    (derive : Derivation) (rnd : Vector UInt8 32) (path : List UInt32)
    (message : List UInt8) :
    Leads early (cryptoSignOptimized streams derive rnd path message)
      (Mldsa87.cryptoSignOptimized shake derive rnd path message) storage
      fun _ _ => True := by
  apply leads_ite
  · exact fun _ => leads_pure trivial
  intro _
  apply leads_ite
  · exact fun _ => leads_pure trivial
  intro _
  cases derive path with
  | none => exact leads_pure trivial
  | some rawSeed => exact leads_signWithSeed underlies (seedOfRaw rawSeed) rnd message

/-! ## Verification -/

theorem leads_verifyCommit (underlies : streams.Underlies early shake) (rho c : List UInt8)
    (response : Rows (UpTo gamma1) storage.z) (hints : Rows Bits storage.h)
    (high : Rows (Within 0 1024) storage.t1) :
    Leads early (verifyCommit streams rho c) (Mldsa87.verifyCommit shake rho c) storage
      fun _ _ => True := by
  apply leads_bind
  · exact leads_polyChallenge underlies _
  rintro _ _ ⟨challenge, challengeRange, rfl⟩
  apply leads_bind
  · exact leads_ntt (response.upTo (by decide))
  rintro _ _ ⟨zhat, zhatRange, rfl⟩
  apply leads_bind
  · exact leads_combined underlies w1_z_independent rho zhatRange
  rintro _ _ ⟨product, productRange, rfl⟩
  apply leads_bind
  · exact leads_polyNtt (challengeRange.mono (by decide))
  rintro _ _ ⟨cp, cpRange, rfl⟩
  apply leads_bind
  · exact leads_shiftL high
  rintro _ _ ⟨shifted, shiftedRange, rfl⟩
  apply leads_bind
  · exact leads_ntt shiftedRange
  rintro _ _ ⟨t1hat, t1hatRange, rfl⟩
  apply leads_bind
  · exact leads_pointwise t1_cp_independent
      (fun _ _ storage value different =>
        read_setRow_other t1Region different value storage) cpRange t1hatRange
  rintro _ _ ⟨scaled, scaledRange, rfl⟩
  apply leads_bind
  · exact leads_sub w1_t1_independent productRange scaledRange (by decide)
  rintro _ _ ⟨difference, differenceRange, rfl⟩
  apply leads_bind
  · exact leads_reduce (differenceRange.upTo (by decide))
  rintro _ _ ⟨reduced, reducedRange, rfl⟩
  apply leads_bind
  · exact leads_invNttToMont (reducedRange.upTo (by decide))
  rintro _ _ ⟨back, backRange, rfl⟩
  apply leads_bind
  · exact leads_cAddq (backRange.upTo (by decide))
  rintro _ _ ⟨w, wRange, rfl⟩
  apply leads_bind
  · exact leads_useHint wRange hints
  rintro _ _ ⟨w1, w1Range, rfl⟩
  exact ⟨follows_packW1Verify w1Range, trivial⟩

theorem leads_unpackSig (sig : List UInt8) (high : Rows (Within 0 1024) storage.t1) :
    Leads early (unpackSigVolatile zRegion hRegion sig)
      (Mldsa87.unpackSigVolatile zRegion hRegion sig) storage
      fun unpacked after => unpacked = true →
        Rows (UpTo gamma1) after.z ∧ Rows Bits after.h ∧ Rows (Within 0 1024) after.t1 := by
  refine ⟨follows_unpackSig sig, ?_⟩
  intro unpacked
  have wellFormed := (unpackSigVolatile_value _ _ _ _).mp unpacked
  rw [unpackSigVolatile_finish _ _ wellFormed]
  refine ⟨rows_ofFn fun _ => polyZUnpack_bounded _, ?_, high⟩
  intro i n bound
  rw [coeff_hintWords _ i bound]
  split
  · exact Or.inr rfl
  · exact Or.inl rfl

theorem leads_verifyStored (underlies : streams.Underlies early shake)
    (rho sig message : List UInt8) (high : Rows (Within 0 1024) storage.t1) :
    Leads early (verifyStored streams rho sig message)
      (Mldsa87.verifyStored shake rho sig message) storage fun _ _ => True := by
  apply leads_bind
  · exact leads_unpackSig sig high
  intro unpacked storage inRange
  apply leads_ite
  · exact fun _ => leads_pure trivial
  intro accepted
  have kept : unpacked = true := by simpa using accepted
  have response := (inRange kept).1
  apply leads_read
  have norm : polyVecChkNorm storage.z (gamma1 - beta) =
      some (polyVecLChkNorm storage.z (gamma1 - beta)) :=
    polyVecChkNorm_eq (response.upTo (by decide)) (by decide)
  apply leads_check norm
  apply leads_ite
  · exact fun _ => leads_pure trivial
  intro _
  dsimp only
  rw [underlies.messageDigest]
  apply leads_bind
  · exact leads_verifyCommit underlies rho _ response (inRange kept).2.1 (inRange kept).2.2
  intro _ _ _
  apply leads_read
  rw [underlies.shakeOnce _ 64 (by norm_num)]
  exact leads_pure trivial

theorem leads_cryptoVerifyOptimized (underlies : streams.Underlies early shake)
    (derive : Derivation) (path : List UInt32) (sig message : List UInt8) :
    Leads early (cryptoVerifyOptimized streams derive path sig message)
      (Mldsa87.cryptoVerifyOptimized shake derive path sig message) storage
      fun _ _ => True := by
  apply leads_ite
  · exact fun _ => leads_pure trivial
  intro _
  apply leads_ite
  · exact fun _ => leads_pure trivial
  intro _
  apply leads_ite
  · exact fun _ => leads_pure trivial
  intro _
  apply leads_ite
  · exact fun _ => leads_pure trivial
  intro _
  cases derive path with
  | none => exact leads_pure trivial
  | some rawSeed =>
      apply leads_bind
      · apply leads_bind
        · exact leads_verifyKeyPrefix underlies (seedOfRaw rawSeed)
        intro rho _ high
        exact leads_verifyStored underlies rho sig message high
      intro _ _ _
      exact leads_pure trivial

end Runs

/-! ## Arbitrary streams -/

/-- On arbitrary streams no test of the three functions fails, however often a
sampler may run. With enough rounds they do what the plain functions do. -/
theorem pipeline_inRange :
    (∀ (streams : Streams) (derive : Derivation) (seedNew : Vector UInt8 32)
        (seed : Option (Vector UInt8 32)) (rnd : Vector UInt8 32) (path : List UInt32)
        (message sig : List UInt8) (storage : InternalStorage),
      Faultless (cryptoSignKeypair streams seedNew seed) storage ∧
        Faultless (cryptoSignOptimized streams derive rnd path message) storage ∧
        Faultless (cryptoVerifyOptimized streams derive path sig message) storage) ∧
      ∀ shake : Shake, ∃ streams : Streams, streams.shake128 = shake.shake128 ∧
        streams.shake256 = shake.shake256 ∧
        ∀ (derive : Derivation) (seedNew : Vector UInt8 32)
          (seed : Option (Vector UInt8 32)) (rnd : Vector UInt8 32) (path : List UInt32)
          (message sig : List UInt8) (storage : InternalStorage),
        Agrees (cryptoSignKeypair streams seedNew seed)
            (Mldsa87.cryptoSignKeypair shake seedNew seed) storage ∧
          Agrees (cryptoSignOptimized streams derive rnd path message)
            (Mldsa87.cryptoSignOptimized shake derive rnd path message) storage ∧
          Agrees (cryptoVerifyOptimized streams derive path sig message)
            (Mldsa87.cryptoVerifyOptimized shake derive path sig message) storage := by
  constructor
  · intro streams derive seedNew seed rnd path message sig storage
    have underlies := streams.underlies_completed
    exact ⟨(leads_cryptoSignKeypair underlies seedNew seed).follows.faultless,
      (leads_cryptoSignOptimized underlies derive rnd path message).follows.faultless,
      (leads_cryptoVerifyOptimized underlies derive path sig message).follows.faultless⟩
  · intro shake
    obtain ⟨rounds, underlies⟩ := Streams.exists_underlies shake
    refine ⟨{ shake128 := shake.shake128, shake256 := shake.shake256, rounds := rounds },
      rfl, rfl, ?_⟩
    intro derive seedNew seed rnd path message sig storage
    exact ⟨(leads_cryptoSignKeypair underlies seedNew seed).follows.agrees,
      (leads_cryptoSignOptimized underlies derive rnd path message).follows.agrees,
      (leads_cryptoVerifyOptimized underlies derive path sig message).follows.agrees⟩

end LedgerQrl.Mldsa87.Guarded
