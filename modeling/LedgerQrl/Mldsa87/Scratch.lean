import LedgerQrl.Foundation.Unseen
import LedgerQrl.Mldsa87.Verification
import LedgerQrl.Mldsa87.Wiping

namespace LedgerQrl.Mldsa87

open Foundation Program InternalStorage

/-! # The scratch vectors

The signing code replaces every vector of the storage before it reads it, so that
neither the signature nor the public key, at any moment, depends on what earlier
computations have left in the vectors. -/

structure Replaced where
  t1 : Bool := false
  w1 : Bool := false
  w0 : Bool := false
  h : Bool := false
  y : Bool := false
  z : Bool := false
  cp : Bool := false
  pack1 : Bool := false

def InternalStorage.behind (replaced : Replaced) (storage : InternalStorage) :
    InternalStorage :=
  { storage with
    t1 := bif replaced.t1 then storage.t1 else blankK
    w1 := bif replaced.w1 then storage.w1 else blankK
    w0 := bif replaced.w0 then storage.w0 else blankK
    h := bif replaced.h then storage.h else blankK
    y := bif replaced.y then storage.y else blankL
    z := bif replaced.z then storage.z else blankL
    cp := bif replaced.cp then storage.cp else Poly.zero
    pack1 := bif replaced.pack1 then storage.pack1 else blankK }

/-- What is left of the storage without the vectors. -/
def InternalStorage.shown : InternalStorage → InternalStorage := behind {}

theorem covers_shown (replaced : Replaced) : Covers (behind replaced) shown :=
  covers_of_masked fun _ => rfl

/-- A program that shows nothing of the vectors, and what it replaces. -/
abbrev Replaces {Result : Type} (before after : Replaced) (program : NvmProgram Result) :
    Prop :=
  Repeats shown (behind before) (behind after) Eq program

section Rules

variable {Result : Type} {before after : Replaced}

theorem replaces_pure (covers : Covers (behind before) (behind after)) (result : Result) :
    Replaces before after (pure result) :=
  repeats_pure (covers_shown before) covers result

theorem replaces_update {change : InternalStorage → InternalStorage}
    (masked : ∀ storage, (change (storage.behind before)).behind after =
      (change storage).behind after) : Replaces before after (update change) :=
  repeats_update (covers_shown before) (covers_shown after) masked

theorem replaces_forRows {rows : ℕ} {body : Fin rows → NvmProgram Unit}
    (each : ∀ row, Replaces before before (body row)) :
    Replaces before before (forRows rows body) :=
  repeats_forEach (covers_shown before) each _

variable {rows : ℕ} {region : Region InternalStorage (Vector Poly rows)}

theorem replaces_writeRows {row : Fin rows → InternalStorage → Poly}
    (hidden : Apart region shown)
    (own : ∀ index other storage value, index ≠ other →
      row other (region.setRow index value storage) = row other storage)
    (reads : ∀ index storage, row index (storage.behind before) = row index storage)
    (masked : ∀ content storage, (region.write content (storage.behind before)).behind after =
      (region.write content storage).behind after) :
    Replaces before after (writeRows region row) :=
  repeats_forRows (covers_shown before) hidden own reads masked

theorem replaces_mapRows (f : Poly → Poly) (hidden : Apart region shown)
    (reads : ∀ storage, region.read (storage.behind before) = region.read storage)
    (masked : ∀ content storage, (region.write content (storage.behind before)).behind after =
      (region.write content storage).behind after) :
    Replaces before after (mapRows region f) := by
  apply replaces_writeRows hidden _ _ masked
  · intro index other storage value different
    rw [read_setRow_other region different]
  · intro index storage
    rw [reads]

theorem replaces_addRows {v : InternalStorage → Vector Poly rows}
    (independent : Independent region v) (hidden : Apart region shown)
    (reads : ∀ storage, region.read (storage.behind before) = region.read storage)
    (readsOther : ∀ storage, v (storage.behind before) = v storage)
    (masked : ∀ content storage, (region.write content (storage.behind before)).behind after =
      (region.write content storage).behind after) :
    Replaces before after (polyVecAddVolatile region v) := by
  apply replaces_writeRows hidden _ _ masked
  · intro index other storage value different
    rw [read_setRow_other region different, independent.setRow]
  · intro index storage
    rw [reads, readsOther]

theorem replaces_combinedMethod (shake : Shake) {t1 : Region InternalStorage PolyVecK}
    {s1hat : InternalStorage → PolyVecL} (independent : Independent t1 s1hat)
    (rho : List UInt8) (hidden : Apart t1 shown)
    (reads : ∀ storage, s1hat (storage.behind before) = s1hat storage)
    (masked : ∀ content storage, (t1.write content (storage.behind before)).behind after =
      (t1.write content storage).behind after) :
    Replaces before after (combinedMethod shake t1 s1hat rho) := by
  -- The first column overwrites a row, so that its content before is not used.
  have finish : ∀ storage, (combinedMethod shake t1 s1hat rho).finish storage =
      t1.write (Vector.ofFn fun i => rowProduct (fun j => shake.matrixEntry rho i j)
        (s1hat storage) Poly.zero) storage :=
    fun storage => finish_combinedMethod shake t1 independent rho storage
  apply repeats_of_finish (covers_shown before) (keeps_combinedMethod shake hidden s1hat rho)
    (length_history_combinedMethod shake t1 s1hat rho) finish _ masked
  intro storage
  rw [reads]

end Rules

/-! ## The key -/

def Replaced.keyed : Replaced := { t1 := true, pack1 := true }

section Key

variable (shake : Shake) (expanded : ExpandedSeed) (rho : List UInt8)

theorem replaces_packPkVolatile :
    Replaces .keyed .keyed (packPkVolatile rho t1Region.read) :=
  Repeats.bind (replaces_update fun _ => rfl) fun _ =>
    replaces_forRows fun _ => replaces_update fun _ => rfl

theorem replaces_t1Rows (f : Poly → Poly) :
    Replaces { t1 := true } { t1 := true } (mapRows t1Region f) :=
  replaces_mapRows f (fun _ _ => rfl) (fun _ => rfl) fun _ _ => rfl

theorem replaces_keyParts (initial : PolyVecK) :
    Replaces {} .keyed (keyParts shake expanded initial) := by
  have product : Replaces {} { t1 := true } (combinedMethod shake t1Region
      (fun _ => (shake.polyVecLUniformEta blankL expanded.rhoPrime 0).map ntt)
      expanded.rho) :=
    replaces_combinedMethod shake (independent_const _ _) _ (fun _ _ => rfl) (fun _ => rfl)
      fun _ _ => rfl
  have added : Replaces { t1 := true } { t1 := true } (polyVecKAddVolatile t1Region fun _ =>
      shake.polyVecKUniformEta initial expanded.rhoPrime 7) :=
    replaces_addRows (independent_const _ _) (fun _ _ => rfl) (fun _ => rfl) (fun _ => rfl)
      fun _ _ => rfl
  have low : Replaces { t1 := true } .keyed (writeRows pack1Region fun i storage =>
      (t1Region.read storage)[i].map fun a => (power2Round a).2) :=
    replaces_writeRows (fun _ _ => rfl) (fun _ _ _ _ _ => rfl) (fun _ _ => rfl)
      fun _ _ => rfl
  have high : Replaces .keyed .keyed (mapRows t1Region fun row =>
      row.map fun a => (power2Round a).1) :=
    replaces_mapRows _ (fun _ _ => rfl) (fun _ => rfl) fun _ _ => rfl
  exact product.bind fun _ => (replaces_t1Rows polyReduce).bind fun _ =>
    (replaces_t1Rows invNttToMontInLine).bind fun _ => added.bind fun _ =>
    (replaces_t1Rows polyCAddq).bind fun _ => low.bind fun _ => high

/-- The prefix of signing and verification: the key, and what is kept in RAM. -/
theorem replaces_keyPrefix {Result : Type} (initial : PolyVecK) (result : Result) :
    Replaces {} .keyed (do
      keyParts shake expanded initial
      packPkVolatile rho t1Region.read
      pure result) :=
  (replaces_keyParts shake expanded initial).bind fun _ =>
    (replaces_packPkVolatile rho).bind fun _ => replaces_pure (fun _ _ same => same) result

theorem indifferent_cryptoSignKeypair (seedNew : Vector UInt8 32)
    (seed : Option (Vector UInt8 32)) :
    Indifferent shown (cryptoSignKeypair shake seedNew seed) := by
  have product : ∀ s1hat rho, Replaces {} { t1 := true }
      (combinedMethod shake t1Region (fun _ => s1hat) rho) :=
    fun _ rho => replaces_combinedMethod shake (independent_const _ _) rho
      (fun _ _ => rfl) (fun _ => rfl) fun _ _ => rfl
  have added : ∀ v, Replaces { t1 := true } { t1 := true }
      (polyVecKAddVolatile t1Region fun _ => v) :=
    fun _ => replaces_addRows (independent_const _ _) (fun _ _ => rfl) (fun _ => rfl)
      (fun _ => rfl) fun _ _ => rfl
  have packed : ∀ rho, Replaces { t1 := true } { t1 := true }
      (packPkVolatile rho t1Region.read) :=
    fun rho => Repeats.bind (replaces_update fun _ => rfl) fun _ =>
      replaces_forRows fun _ => replaces_update fun _ => rfl
  refine (product _ _).bind fun _ => (replaces_t1Rows polyReduce).bind fun _ => ?_
  refine (replaces_t1Rows invNttToMontInLine).bind fun _ => (added _).bind fun _ => ?_
  refine (replaces_t1Rows polyCAddq).bind fun _ =>
    (replaces_t1Rows fun row => row.map fun a => (power2Round a).1).bind fun _ => ?_
  exact (packed _).bind fun _ => repeats_pure (covers_shown _) (covers_shown _) _

end Key

/-! ## Signing -/

namespace Replaced

def prepared : Replaced := { pack1 := true }

def masked : Replaced := { pack1 := true, y := true }

def responding : Replaced := { pack1 := true, y := true, z := true }

def committing : Replaced := { pack1 := true, y := true, z := true, w1 := true }

def decomposed : Replaced := { pack1 := true, y := true, z := true, w1 := true, w0 := true }

def challenged : Replaced :=
  { pack1 := true, y := true, z := true, w1 := true, w0 := true, cp := true }

def hinted : Replaced :=
  { pack1 := true, y := true, z := true, w1 := true, w0 := true, cp := true, h := true }

end Replaced

section Attempt

variable (shake : Shake) (input : AttemptInput) (nonce : ℕ)

theorem replaces_signCommit : Replaces .prepared .challenged (signCommit shake input nonce) := by
  have mapped : ∀ f, Replaces .committing .committing (mapRows w1Region f) :=
    fun f => replaces_mapRows f (fun _ _ => rfl) (fun _ => rfl) fun _ _ => rfl
  have mask : Replaces .prepared .masked
      (polyVecLUniformGamma1Volatile shake yRegion input.rhoPrime nonce) :=
    replaces_writeRows (fun _ _ => rfl) (fun _ _ _ _ _ => rfl) (fun _ _ => rfl) fun _ _ => rfl
  have copy : Replaces .masked .responding (writeRows zRegion fun i storage => storage.y[i]) :=
    replaces_writeRows (fun _ _ => rfl) (fun _ _ _ _ _ => rfl) (fun _ _ => rfl) fun _ _ => rfl
  have transform : Replaces .responding .responding (mapRows zRegion nttInLine) :=
    replaces_mapRows _ (fun _ _ => rfl) (fun _ => rfl) fun _ _ => rfl
  have product : Replaces .responding .committing
      (combinedMethod shake w1Region zRegion.read input.rho) :=
    replaces_combinedMethod shake w1_z_independent _ (fun _ _ => rfl) (fun _ => rfl)
      fun _ _ => rfl
  have low : Replaces .committing .decomposed (writeRows w0Region fun i storage =>
      (w1Region.read storage)[i].map fun a => (decompose a).2) :=
    replaces_writeRows (fun _ _ => rfl) (fun _ _ _ _ _ => rfl) (fun _ _ => rfl) fun _ _ => rfl
  have high : Replaces .decomposed .decomposed (mapRows w1Region fun row =>
      row.map fun a => (decompose a).1) :=
    replaces_mapRows _ (fun _ _ => rfl) (fun _ => rfl) fun _ _ => rfl
  have packed : Replaces .decomposed .decomposed (polyVecKPackW1Volatile w1Region.read) :=
    replaces_forRows fun _ => replaces_update fun _ => rfl
  have challenge : Replaces .decomposed .challenged
      (polyChallengeVolatile shake fun storage => storage.sig.toList.take 64) :=
    replaces_update fun _ => rfl
  have transformed : Replaces .challenged .challenged polyNttVolatile :=
    replaces_update fun _ => rfl
  rw [signCommit]
  refine mask.bind fun _ => copy.bind fun _ => transform.bind fun _ => product.bind fun _ => ?_
  refine (mapped polyReduce).bind fun _ => (mapped invNttToMontInLine).bind fun _ =>
    (mapped polyCAddq).bind fun _ => (low.bind fun _ => high).bind fun _ => ?_
  exact packed.bind fun _ => (replaces_update fun _ => rfl).bind fun _ =>
    challenge.bind fun _ => transformed

theorem replaces_signResponse : Replaces .challenged .challenged (signResponse input) := by
  have mapped : ∀ f, Replaces .challenged .challenged (mapRows zRegion f) :=
    fun f => replaces_mapRows f (fun _ _ => rfl) (fun _ => rfl) fun _ _ => rfl
  have product : Replaces .challenged .challenged
      (polyVecLPointwisePolyMontgomeryVolatile zRegion (fun storage => storage.cp)
        fun _ => input.s1hat) :=
    replaces_writeRows (fun _ _ => rfl) (fun _ _ _ _ _ => rfl) (fun _ _ => rfl) fun _ _ => rfl
  have sum : Replaces .challenged .challenged (polyVecLAddVolatile zRegion yRegion.read) :=
    replaces_addRows z_y_independent (fun _ _ => rfl) (fun _ => rfl) (fun _ => rfl)
      fun _ _ => rfl
  exact product.bind fun _ => (mapped invNttToMontInLine).bind fun _ => sum.bind fun _ =>
    mapped polyReduce

theorem replaces_product (v : InternalStorage → PolyVecK)
    (independent : Independent hRegion v)
    (reads : ∀ storage, v (storage.behind .challenged) = v storage) :
    Replaces .challenged .hinted
      (polyVecKPointwisePolyMontgomeryVolatile hRegion (fun storage => storage.cp) v) := by
  apply replaces_writeRows (fun _ _ => rfl) _ _ fun _ _ => rfl
  · intro index other storage value _
    rw [independent.setRow]
    rfl
  · intro index storage
    rw [reads]
    rfl

theorem replaces_hRows (f : Poly → Poly) : Replaces .hinted .hinted (mapRows hRegion f) :=
  replaces_mapRows f (fun _ _ => rfl) (fun _ => rfl) fun _ _ => rfl

theorem replaces_signLowBits : Replaces .challenged .hinted (signLowBits input) := by
  have product := replaces_product (fun _ => input.s2hat) (independent_const _ _) fun _ => rfl
  have difference : Replaces .hinted .hinted
      (polyVecKSubVolatile w0Region w0Region.read hRegion.read) := by
    apply replaces_writeRows (fun _ _ => rfl) _ (fun _ _ => rfl) fun _ _ => rfl
    intro index other storage value different
    rw [read_setRow_other w0Region different, w0_h_independent.setRow]
  have reduced : Replaces .hinted .hinted (mapRows w0Region polyReduce) :=
    replaces_mapRows _ (fun _ _ => rfl) (fun _ => rfl) fun _ _ => rfl
  exact product.bind fun _ => (replaces_hRows invNttToMontInLine).bind fun _ =>
    difference.bind fun _ => reduced

theorem replaces_signHintInput : Replaces .hinted .hinted signHintInput := by
  have product : Replaces .hinted .hinted (polyVecKPointwisePolyMontgomeryVolatile hRegion
      (fun storage => storage.cp) pack1Region.read) :=
    (replaces_product pack1Region.read h_pack1_independent fun _ => rfl).mono
      (covers_of_masked fun _ => rfl) fun _ _ same => same
  exact product.bind fun _ => (replaces_hRows invNttToMontInLine).bind fun _ =>
    replaces_hRows polyReduce

theorem replaces_signHints : Replaces .hinted .hinted signHints := by
  have sum : Replaces .hinted .hinted (polyVecKAddVolatile w0Region hRegion.read) :=
    replaces_addRows w0_h_independent (fun _ _ => rfl) (fun _ => rfl) (fun _ => rfl)
      fun _ _ => rfl
  have hints : Replaces .hinted .hinted
      (polyVecKMakeHintVolatile hRegion w0Region.read w1Region.read) := by
    apply repeats_foldlM (covers_shown _)
    intro count i
    refine repeats_read (fun _ => rfl) fun _ => ?_
    exact (replaces_update fun _ => rfl).bind fun _ => replaces_pure (fun _ _ same => same) _
  exact sum.bind fun _ => hints

theorem replaces_signEncode : Replaces .hinted .hinted signEncode := by
  have written : ∀ {change : InternalStorage → InternalStorage},
      (∀ storage, (change (storage.behind .hinted)).behind .hinted =
        (change storage).behind .hinted) → Replaces .hinted .hinted (update change) :=
    replaces_update
  rw [signEncode]
  refine repeats_read (fun _ => rfl) fun _ => ?_
  rw [packSigVolatile]
  exact (written fun _ => rfl).bind fun _ =>
    (replaces_forRows fun _ => written fun _ => rfl).bind fun _ =>
    (written fun _ => rfl).bind fun _ => written fun _ => rfl

theorem replaces_signAttempt :
    Replaces .prepared .prepared (signAttempt shake input nonce) := by
  have again : ∀ {replaced : Replaced}, Covers (behind replaced) (behind .prepared) →
      ∀ accepted : Bool, Replaces replaced .prepared (pure accepted) :=
    fun covers accepted => replaces_pure covers accepted
  have challenged : Covers (behind .challenged) (behind .prepared) :=
    covers_of_masked fun _ => rfl
  have hinted : Covers (behind .hinted) (behind .prepared) := covers_of_masked fun _ => rfl
  rw [signAttempt]
  refine (replaces_signCommit shake input nonce).bind fun _ =>
    (replaces_signResponse input).bind fun _ => ?_
  refine repeats_read (fun _ => rfl) fun _ => repeats_ite (again challenged false) ?_
  refine (replaces_signLowBits input).bind fun _ => ?_
  refine repeats_read (fun _ => rfl) fun _ => repeats_ite (again hinted false) ?_
  refine replaces_signHintInput.bind fun _ => ?_
  refine repeats_read (fun _ => rfl) fun _ => repeats_ite (again hinted false) ?_
  refine replaces_signHints.bind fun _ => repeats_ite (again hinted false) ?_
  exact replaces_signEncode.bind fun _ => again hinted true

theorem replaces_signAttempts :
    ∀ remaining nonce, Replaces .prepared .prepared (signAttempts shake input remaining nonce)
  | 0, _ => replaces_pure (fun _ _ same => same) _
  | remaining + 1, nonce =>
      (replaces_signAttempt shake input nonce).bind fun _ =>
        repeats_ite (replaces_pure (fun _ _ same => same) _)
          (replaces_signAttempts remaining (nonce + 1))

end Attempt

theorem replaces_signPrepare (shake : Shake) (key : SigningKey) (rnd : Vector UInt8 32)
    (message : List UInt8) :
    Replaces .keyed .prepared (signPrepare shake key rnd message) := by
  have transformed : Replaces .keyed .keyed (mapRows pack1Region nttInLine) :=
    replaces_mapRows _ (fun _ _ => rfl) (fun _ => rfl) fun _ _ => rfl
  rw [signPrepare]
  refine repeats_read (fun _ => rfl) fun _ => transformed.bind fun _ => ?_
  exact replaces_pure (covers_of_masked fun _ => rfl) _

/-- Neither the public key nor the signature, at any moment of a signing run, depends
on what the vectors held, and neither does the error code. -/
theorem indifferent_cryptoSignOptimized (shake : Shake) (derive : Derivation)
    (rnd : Vector UInt8 32) (path : List UInt32) (message : List UInt8) :
    Indifferent shown (cryptoSignOptimized shake derive rnd path message) := by
  rw [cryptoSignOptimized]
  refine repeats_ite (indifferent_pure _) (repeats_ite (indifferent_pure _) ?_)
  cases derive path with
  | none => exact indifferent_pure _
  | some rawSeed =>
      dsimp only
      rw [signWithSeed, signKeyPrefix_eq]
      refine (replaces_keyPrefix shake _ _ _ _).bind fun key => ?_
      refine (replaces_signPrepare shake key rnd message).bind fun input => ?_
      exact (replaces_signAttempts shake input 814 0).mono (fun _ _ same => same)
        (covers_shown _)

/-! ## Verification -/

def Replaced.unpacked : Replaced := { z := true }

section Verify

variable (shake : Shake) (sig : List UInt8)

/-- What is stored of the hints and what is returned depends on the signature. -/
theorem replaces_unpackPositions (i : Fin 8) (k : ℕ) :
    ∀ positions, Replaces .unpacked .unpacked (unpackPositions hRegion sig i k positions)
  | [] => replaces_pure (fun _ _ same => same) _
  | _ :: rest =>
      repeats_ite (replaces_pure (fun _ _ same => same) _)
        ((replaces_update fun _ => rfl).bind fun _ => replaces_unpackPositions i k rest)

theorem replaces_unpackHintRows :
    ∀ rows k, Replaces .unpacked .unpacked (unpackHintRows hRegion sig rows k)
  | [], _ => replaces_pure (fun _ _ same => same) _
  | i :: rest, k => by
      have refused : Replaces .unpacked .unpacked (pure none : NvmProgram (Option ℕ)) :=
        replaces_pure (fun _ _ same => same) _
      have cleared : ∀ {change : InternalStorage → InternalStorage},
          (∀ storage, (change (storage.behind .unpacked)).behind .unpacked =
            (change storage).behind .unpacked) →
          Replaces .unpacked .unpacked (update change) :=
        replaces_update
      rw [unpackHintRows]
      refine (cleared fun _ => rfl).bind fun _ => repeats_ite refused ?_
      refine (replaces_unpackPositions sig i k _).bind fun _ => ?_
      exact repeats_ite (replaces_unpackHintRows rest _) refused

theorem replaces_unpackSigVolatile :
    Replaces .keyed .unpacked (unpackSigVolatile zRegion hRegion sig) := by
  have response : Replaces .keyed .unpacked (writeRows zRegion fun b _ =>
      polyZUnpack (sig.drop (64 + b * 640))) :=
    replaces_writeRows (fun _ _ => rfl) (fun _ _ _ _ _ => rfl) (fun _ _ => rfl) fun _ _ => rfl
  rw [unpackSigVolatile]
  refine response.bind fun _ => (replaces_unpackHintRows sig _ 0).bind fun used => ?_
  cases used with
  | none => exact replaces_pure (fun _ _ same => same) _
  | some k => exact replaces_pure (fun _ _ same => same) _

theorem length_history_verifyCommit (rho c : List UInt8) (storage : InternalStorage) :
    ((verifyCommit shake rho c).history storage).length = 137 := by
  have packed : ∀ w1 storage,
      ((polyVecKPackW1VolatileVerify w1).history storage).length = 8 := by
    intro w1 storage
    rw [polyVecKPackW1VolatileVerify, length_history_forRows _ fun _ _ => rfl]
  rw [verifyCommit]
  simp only [history_bind, List.length_append, length_history_combinedMethod, packed,
    polyChallengeVolatile, polyNttVolatile, history_update, List.length_singleton,
    polyVecLNttVolatile, polyVecKShiftLVolatile, polyVecKNttVolatile, polyVecNttVolatile,
    polyVecKPointwisePolyMontgomeryVolatile, polyVecPointwisePolyMontgomeryVolatile,
    polyVecKSubVolatile, polyVecKReduceVolatile, polyVecReduceVolatile,
    polyVecKInvNttToMontVolatile, polyVecInvNttToMontVolatile, polyVecKCAddqVolatile,
    polyVecKUseHintVolatile, mapRows, length_history_writeRows]

theorem outsideScratch_shown : OutsideScratch shown where
  w1 _ _ := rfl
  w0 _ _ := rfl
  h _ _ := rfl
  y _ _ := rfl
  z _ _ := rfl
  cp _ _ := rfl
  t1 _ _ := rfl
  pack1 _ _ := rfl

/-- The contents, not the result: that one is known from what it decides. -/
theorem repeats_verifyStored (rho message : List UInt8) :
    Repeats shown (behind .keyed) shown (fun _ _ => True)
      (verifyStored shake rho sig message) := by
  have refused : Repeats shown (behind .unpacked) shown (fun _ _ => True)
      (pure false : NvmProgram Bool) :=
    ⟨fun storage twin same => lockstep_pure (covers_shown _ storage twin same) trivial,
      fun storage twin same => covers_shown _ storage twin same⟩
  have commit : ∀ c, Repeats shown (behind .unpacked) shown Eq (verifyCommit shake rho c) :=
    fun c => repeats_hidden (covers_shown _) (keeps_verifyCommit outsideScratch_shown shake rho c)
      (length_history_verifyCommit shake rho c) fun storage twin same => by
        have kept := keeps_verifyCommit outsideScratch_shown shake rho c
        rw [kept.finish storage, kept.finish twin]
        exact covers_shown _ storage twin same
  rw [verifyStored]
  refine (replaces_unpackSigVolatile sig).bind fun _ => repeats_ite refused ?_
  refine repeats_read (fun _ => rfl) fun _ => repeats_ite refused ?_
  exact (commit _).bind fun _ => repeats_return (fun _ _ same => same) _

theorem indifferent_verifyWithSeed (seed : Vector UInt8 32) (message : List UInt8)
    (length : sig.length = cryptoBytes) :
    Indifferent shown (verifyWithSeed shake seed sig message) := by
  have decided : ∀ storage twin, (verifyWithSeed shake seed sig message).value storage =
      (verifyWithSeed shake seed sig message).value twin := by
    intro storage twin
    rw [Bool.eq_iff_iff, verifyWithSeed_spec shake seed sig message length,
      verifyWithSeed_spec shake seed sig message length]
  have contents : Repeats shown shown shown (fun _ _ => True)
      (verifyWithSeed shake seed sig message) := by
    rw [verifyWithSeed, verifyKeyPrefix_eq]
    exact (replaces_keyPrefix shake _ _ _ _).bind fun rho =>
      repeats_verifyStored shake sig rho message
  exact contents.returns fun storage twin _ => decided storage twin

theorem indifferent_cryptoVerifyOptimized (derive : Derivation) (path : List UInt32)
    (message : List UInt8) :
    Indifferent shown (cryptoVerifyOptimized shake derive path sig message) := by
  rw [cryptoVerifyOptimized]
  refine repeats_ite (indifferent_pure _) (repeats_ite (indifferent_pure _)
    (repeats_ite (indifferent_pure _) ?_))
  by_cases length : sig.length = cryptoBytes
  · rw [if_neg (not_not.mpr length)]
    cases derive path with
    | none => exact indifferent_pure _
    | some rawSeed =>
        exact (indifferent_verifyWithSeed shake sig _ message length).bind fun _ =>
          indifferent_pure _
  · rw [if_pos length]
    exact indifferent_pure _

end Verify

/-! ## Wiping -/

theorem indifferent_wipeNvmSecrets : Indifferent shown wipeNvmSecrets := by
  have chunks : ∀ {rows : ℕ} (region : Region InternalStorage (Vector Poly rows)) storage,
      ((nvmZero region).history storage).length = rows * (4 * 1) := by
    intro rows region storage
    rw [nvmZero]
    exact length_history_forRows _ (fun index => length_history_forEach _
      (fun _ _ => rfl) [0, 1, 2, 3]) storage
  have kept := keeps_wipeNvmSecrets outsideScratch_shown
  have length : ∀ storage, (wipeNvmSecrets.history storage).length =
      7 * (4 * 1) + (8 * (4 * 1) + 8 * (4 * 1)) := by
    intro storage
    rw [wipeNvmSecrets, history_bind, history_bind, List.length_append, List.length_append,
      chunks, chunks, chunks]
  apply repeats_hidden (fun _ _ same => same) kept length
  intro storage twin same
  rw [kept.finish storage, kept.finish twin, same]

end LedgerQrl.Mldsa87
