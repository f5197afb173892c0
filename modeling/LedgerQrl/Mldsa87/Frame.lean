import LedgerQrl.Mldsa87.Sign

namespace LedgerQrl.Mldsa87

open Foundation Program InternalStorage

/-! # What the programs leave alone

A view of the storage that no write of a program changes is the same at every
point where the program can stop. -/

/-- Every content the program goes through looks like the one before it. -/
def Keeps {View Result : Type} (view : InternalStorage → View)
    (program : NvmProgram Result) : Prop :=
  ∀ seen, Preserves (fun storage => view storage = seen) program

section Rules

variable {View Result Next : Type} {view : InternalStorage → View}

theorem Keeps.visited {program : NvmProgram Result} (keeps : Keeps view program)
    {storage content : InternalStorage} (member : content ∈ program.visited storage) :
    view content = view storage :=
  (keeps (view storage)).visited rfl member

theorem Keeps.finish {program : NvmProgram Result} (keeps : Keeps view program)
    (storage : InternalStorage) : view (program.finish storage) = view storage :=
  keeps.visited (finish_mem_visited program storage)

theorem keeps_pure (result : Result) : Keeps view (pure result : NvmProgram Result) :=
  fun _ => preserves_pure result

theorem keeps_read : Keeps view (Program.read : NvmProgram InternalStorage) :=
  fun _ => preserves_read

theorem keeps_update {change : InternalStorage → InternalStorage}
    (same : ∀ storage, view (change storage) = view storage) :
    Keeps view (update change) :=
  fun _ => preserves_update fun storage seen => (same storage).trans seen

theorem keeps_bind {program : NvmProgram Result} {next : Result → NvmProgram Next}
    (first : Keeps view program) (second : ∀ result, Keeps view (next result)) :
    Keeps view (program >>= next) :=
  fun seen => preserves_bind (first seen) fun result => second result seen

theorem keeps_forRows {rows : Nat} {body : Fin rows → NvmProgram Unit}
    (each : ∀ row, Keeps view (body row)) : Keeps view (forRows rows body) :=
  fun seen => preserves_forEach (fun row => each row seen) _

theorem keeps_ite {condition : Prop} [Decidable condition]
    {first second : NvmProgram Result} (left : Keeps view first)
    (right : Keeps view second) : Keeps view (if condition then first else second) :=
  fun seen => preserves_ite (left seen) (right seen)

theorem keeps_foldlM {Item State : Type} {body : State → Item → NvmProgram State}
    (each : ∀ state item, Keeps view (body state item)) :
    ∀ (items : List Item) state, Keeps view (items.foldlM body state)
  | [], _ => keeps_pure _
  | item :: rest, state => by
      rw [List.foldlM_cons]
      exact keeps_bind (each state item) fun next => keeps_foldlM each rest next

/-- A view that writing a region does not change. -/
def Apart {Content : Type} (region : Region InternalStorage Content)
    (view : InternalStorage → View) : Prop :=
  ∀ content storage, view (region.write content storage) = view storage

theorem keeps_writeRows {rows : Nat}
    {region : Region InternalStorage (Vector Poly rows)} (apart : Apart region view)
    (row : Fin rows → InternalStorage → Poly) : Keeps view (writeRows region row) :=
  keeps_forRows fun _ => keeps_update fun storage => apart _ storage

theorem keeps_polyVecNttVolatile {rows : Nat}
    {region : Region InternalStorage (Vector Poly rows)} (apart : Apart region view) :
    Keeps view (polyVecNttVolatile region) := by
  rw [polyVecNttVolatile, mapRows]
  exact keeps_writeRows apart _

theorem keeps_combinedMethod (shake : Shake) {t1 : Region InternalStorage PolyVecK}
    (apart : Apart t1 view) (s1hat : InternalStorage → PolyVecL) (rho : List UInt8) :
    Keeps view (combinedMethod shake t1 s1hat rho) :=
  keeps_forRows fun _ => keeps_forRows fun _ => keeps_update fun storage =>
    apart _ storage

theorem keeps_nvmZero {rows : Nat}
    {region : Region InternalStorage (Vector Poly rows)} (apart : Apart region view) :
    Keeps view (nvmZero region) :=
  keeps_forRows fun _ seen => preserves_forEach (fun _ => keeps_update
    (fun storage => apart _ storage) seen) _

end Rules

structure OutsideAttempt {View : Type} (view : InternalStorage → View) : Prop where
  w1 : Apart w1Region view
  w0 : Apart w0Region view
  h : Apart hRegion view
  y : Apart yRegion view
  z : Apart zRegion view
  cp : ∀ cp storage, view { storage with cp := cp } = view storage

structure OutsideScratch {View : Type} (view : InternalStorage → View) : Prop extends
    OutsideAttempt view where
  t1 : Apart t1Region view
  pack1 : Apart pack1Region view

/-! ## Signing attempts -/

section Attempts

variable {View : Type} {view : InternalStorage → View} (attempt : OutsideAttempt view)
  (shake : Shake)

include attempt

theorem keeps_polyChallengeVolatile (seed : InternalStorage → List UInt8) :
    Keeps view (polyChallengeVolatile shake seed) := by
  rw [polyChallengeVolatile]
  exact keeps_update fun storage => attempt.cp _ storage

omit shake in
theorem keeps_polyNttVolatile : Keeps view polyNttVolatile := by
  rw [polyNttVolatile]
  exact keeps_update fun storage => attempt.cp _ storage

section Signature

variable (sig : ∀ sig storage, view { storage with sig := sig } = view storage)

include sig

theorem keeps_signCommit (input : AttemptInput) (nonce : Nat) :
    Keeps view (signCommit shake input nonce) := by
  rw [signCommit]
  refine keeps_bind (keeps_writeRows attempt.y _) fun _ => ?_
  refine keeps_bind (keeps_writeRows attempt.z _) fun _ => ?_
  refine keeps_bind (keeps_polyVecNttVolatile attempt.z) fun _ => ?_
  refine keeps_bind (keeps_combinedMethod shake attempt.w1 _ _) fun _ => ?_
  refine keeps_bind (keeps_writeRows attempt.w1 _) fun _ => ?_
  refine keeps_bind (keeps_writeRows attempt.w1 _) fun _ => ?_
  refine keeps_bind (keeps_writeRows attempt.w1 _) fun _ => ?_
  refine keeps_bind (keeps_bind (keeps_writeRows attempt.w0 _) fun _ =>
    keeps_writeRows attempt.w1 _) fun _ => ?_
  refine keeps_bind (keeps_forRows fun _ => keeps_update fun storage =>
    sig _ storage) fun _ => ?_
  refine keeps_bind (keeps_update fun storage => sig _ storage) fun _ => ?_
  refine keeps_bind (keeps_polyChallengeVolatile attempt shake _) fun _ => ?_
  exact keeps_polyNttVolatile attempt

omit shake sig in
theorem keeps_signResponse (input : AttemptInput) : Keeps view (signResponse input) :=
  keeps_bind (keeps_writeRows attempt.z _) fun _ =>
    keeps_bind (keeps_writeRows attempt.z _) fun _ =>
    keeps_bind (keeps_writeRows attempt.z _) fun _ => keeps_writeRows attempt.z _

omit shake sig in
theorem keeps_signLowBits (input : AttemptInput) : Keeps view (signLowBits input) :=
  keeps_bind (keeps_writeRows attempt.h _) fun _ =>
    keeps_bind (keeps_writeRows attempt.h _) fun _ =>
    keeps_bind (keeps_writeRows attempt.w0 _) fun _ => keeps_writeRows attempt.w0 _

omit shake sig in
theorem keeps_signHintInput : Keeps view signHintInput :=
  keeps_bind (keeps_writeRows attempt.h _) fun _ =>
    keeps_bind (keeps_writeRows attempt.h _) fun _ => keeps_writeRows attempt.h _

omit shake sig in
theorem keeps_polyVecKMakeHintVolatile (v0 v1 : InternalStorage → PolyVecK) :
    Keeps view (polyVecKMakeHintVolatile hRegion v0 v1) := by
  rw [polyVecKMakeHintVolatile]
  refine keeps_foldlM (fun _ i => keeps_bind keeps_read fun _ => ?_) _ _
  exact keeps_bind (keeps_update fun storage => attempt.h _ storage)
    fun _ => keeps_pure _

omit shake sig in
theorem keeps_signHints : Keeps view signHints :=
  keeps_bind (keeps_writeRows attempt.w0 _) fun _ =>
    keeps_polyVecKMakeHintVolatile attempt _ _

omit attempt shake in
theorem keeps_signEncode : Keeps view signEncode := by
  rw [signEncode]
  refine keeps_bind keeps_read fun _ => ?_
  rw [packSigVolatile]
  refine keeps_bind (keeps_update fun storage => sig _ storage) fun _ => ?_
  refine keeps_bind (keeps_forRows fun _ => keeps_update fun storage =>
    sig _ storage) fun _ => ?_
  refine keeps_bind (keeps_update fun storage => sig _ storage) fun _ => ?_
  exact keeps_update fun storage => sig _ storage

theorem keeps_signAttempt (input : AttemptInput) (nonce : Nat) :
    Keeps view (signAttempt shake input nonce) := by
  rw [signAttempt]
  refine keeps_bind (keeps_signCommit attempt shake sig input nonce) fun _ => ?_
  refine keeps_bind (keeps_signResponse attempt input) fun _ => ?_
  refine keeps_bind keeps_read fun _ => keeps_ite (keeps_pure _) ?_
  refine keeps_bind (keeps_signLowBits attempt input) fun _ => ?_
  refine keeps_bind keeps_read fun _ => keeps_ite (keeps_pure _) ?_
  refine keeps_bind (keeps_signHintInput attempt) fun _ => ?_
  refine keeps_bind keeps_read fun _ => keeps_ite (keeps_pure _) ?_
  refine keeps_bind (keeps_signHints attempt) fun _ => keeps_ite (keeps_pure _) ?_
  exact keeps_bind (keeps_signEncode sig) fun _ => keeps_pure _

theorem keeps_signAttempts (input : AttemptInput) :
    ∀ remaining nonce, Keeps view (signAttempts shake input remaining nonce)
  | 0, _ => keeps_pure _
  | remaining + 1, nonce =>
      keeps_bind (keeps_signAttempt attempt shake sig input nonce) fun _ =>
        keeps_ite (keeps_pure _) (keeps_signAttempts input remaining (nonce + 1))

end Signature

end Attempts

/-! ## The long functions -/

section Functions

variable {View : Type} {view : InternalStorage → View} (outside : OutsideScratch view)
  (shake : Shake)

include outside

theorem keeps_wipeNvmSecrets : Keeps view wipeNvmSecrets :=
  keeps_bind (keeps_nvmZero outside.y) fun _ =>
    keeps_bind (keeps_nvmZero outside.pack1) fun _ => keeps_nvmZero outside.w0

section PublicKey

variable (pk : ∀ pk storage, view { storage with pk := pk } = view storage)

include pk

omit outside in
theorem keeps_packPkVolatile (rho : List UInt8) (t1 : InternalStorage → PolyVecK) :
    Keeps view (packPkVolatile rho t1) :=
  keeps_bind (keeps_update fun storage => pk _ storage) fun _ =>
    keeps_forRows fun _ => keeps_update fun storage => pk _ storage

theorem keeps_cryptoSignKeypair (seedNew : Vector UInt8 32)
    (seed : Option (Vector UInt8 32)) :
    Keeps view (cryptoSignKeypair shake seedNew seed) :=
  keeps_bind (keeps_combinedMethod shake outside.t1 _ _) fun _ =>
    keeps_bind (keeps_writeRows outside.t1 _) fun _ =>
    keeps_bind (keeps_writeRows outside.t1 _) fun _ =>
    keeps_bind (keeps_writeRows outside.t1 _) fun _ =>
    keeps_bind (keeps_writeRows outside.t1 _) fun _ =>
    keeps_bind (keeps_writeRows outside.t1 _) fun _ =>
    keeps_bind (keeps_packPkVolatile pk _ _) fun _ => keeps_pure _

theorem keeps_signKeyPrefix (seed : Vector UInt8 32) :
    Keeps view (signKeyPrefix shake seed) :=
  keeps_bind (keeps_combinedMethod shake outside.t1 _ _) fun _ =>
    keeps_bind (keeps_writeRows outside.t1 _) fun _ =>
    keeps_bind (keeps_writeRows outside.t1 _) fun _ =>
    keeps_bind (keeps_writeRows outside.t1 _) fun _ =>
    keeps_bind (keeps_writeRows outside.t1 _) fun _ =>
    keeps_bind (keeps_bind (keeps_writeRows outside.pack1 _) fun _ =>
      keeps_writeRows outside.t1 _) fun _ =>
    keeps_bind (keeps_packPkVolatile pk _ _) fun _ => keeps_pure _

theorem keeps_verifyKeyPrefix (seed : Vector UInt8 32) :
    Keeps view (verifyKeyPrefix shake seed) :=
  keeps_bind (keeps_combinedMethod shake outside.t1 _ _) fun _ =>
    keeps_bind (keeps_writeRows outside.t1 _) fun _ =>
    keeps_bind (keeps_writeRows outside.t1 _) fun _ =>
    keeps_bind (keeps_writeRows outside.t1 _) fun _ =>
    keeps_bind (keeps_writeRows outside.t1 _) fun _ =>
    keeps_bind (keeps_bind (keeps_writeRows outside.pack1 _) fun _ =>
      keeps_writeRows outside.t1 _) fun _ =>
    keeps_bind (keeps_packPkVolatile pk _ _) fun _ => keeps_pure _

end PublicKey

theorem keeps_unpackPositions (sig : List UInt8) (i : Fin 8) (k : Nat) :
    ∀ js, Keeps view (unpackPositions hRegion sig i k js)
  | [] => keeps_pure _
  | _ :: rest => keeps_ite (keeps_pure _)
      (keeps_bind (keeps_update fun storage => outside.h _ storage) fun _ =>
        keeps_unpackPositions sig i k rest)

theorem keeps_unpackHintRows (sig : List UInt8) :
    ∀ rows k, Keeps view (unpackHintRows hRegion sig rows k)
  | [], _ => keeps_pure _
  | i :: rest, k => keeps_bind (keeps_update fun storage => outside.h _ storage) fun _ =>
      keeps_ite (keeps_pure _)
        (keeps_bind (keeps_unpackPositions outside sig i k _) fun _ =>
          keeps_ite (keeps_unpackHintRows sig rest _) (keeps_pure _))

theorem keeps_unpackSigVolatile (sig : List UInt8) :
    Keeps view (unpackSigVolatile zRegion hRegion sig) :=
  keeps_bind (keeps_writeRows outside.z _) fun _ =>
    keeps_bind (keeps_unpackHintRows outside sig _ _) fun used => by
      cases used with
      | none => exact keeps_pure _
      | some k => exact keeps_pure _

omit shake in
theorem keeps_packW1Verify (w1 : InternalStorage → PolyVecK) :
    Keeps view (polyVecKPackW1VolatileVerify w1) :=
  keeps_forRows fun _ => keeps_update fun storage => outside.pack1 _ storage

theorem keeps_verifyCommit (rho c : List UInt8) :
    Keeps view (verifyCommit shake rho c) := by
  rw [verifyCommit]
  refine keeps_bind (keeps_polyChallengeVolatile outside.toOutsideAttempt shake _) fun _ => ?_
  refine keeps_bind (keeps_polyVecNttVolatile outside.z) fun _ => ?_
  refine keeps_bind (keeps_combinedMethod shake outside.w1 _ _) fun _ => ?_
  refine keeps_bind (keeps_polyNttVolatile outside.toOutsideAttempt) fun _ => ?_
  refine keeps_bind (keeps_writeRows outside.t1 _) fun _ => ?_
  refine keeps_bind (keeps_polyVecNttVolatile outside.t1) fun _ => ?_
  refine keeps_bind (keeps_writeRows outside.t1 _) fun _ => ?_
  refine keeps_bind (keeps_writeRows outside.w1 _) fun _ => ?_
  refine keeps_bind (keeps_writeRows outside.w1 _) fun _ => ?_
  refine keeps_bind (keeps_writeRows outside.w1 _) fun _ => ?_
  refine keeps_bind (keeps_writeRows outside.w1 _) fun _ => ?_
  refine keeps_bind (keeps_writeRows outside.w1 _) fun _ => ?_
  exact keeps_packW1Verify outside _

theorem keeps_verifyStored (rho sig message : List UInt8) :
    Keeps view (verifyStored shake rho sig message) :=
  keeps_bind (keeps_unpackSigVolatile outside sig) fun _ =>
    keeps_ite (keeps_pure _)
      (keeps_bind keeps_read fun _ => keeps_ite (keeps_pure _)
        (keeps_bind (keeps_verifyCommit outside shake rho _) fun _ =>
          keeps_bind keeps_read fun _ => keeps_pure _))

omit shake in
theorem keeps_signPrepare (shake : Shake) (key : SigningKey) (rnd : Vector UInt8 32)
    (message : List UInt8) : Keeps view (signPrepare shake key rnd message) := by
  rw [signPrepare]
  refine keeps_bind keeps_read fun _ => ?_
  exact keeps_bind (keeps_polyVecNttVolatile outside.pack1) fun _ => keeps_pure _

end Functions

/-! ## The functions with a path -/

section Paths

variable {View : Type} {view : InternalStorage → View} (outside : OutsideScratch view)
  (pk : ∀ pk storage, view { storage with pk := pk } = view storage)
  (shake : Shake) (derive : Derivation) (path : List UInt32)

include outside pk

theorem keeps_cryptoVerifyOptimized (sig message : List UInt8) :
    Keeps view (cryptoVerifyOptimized shake derive path sig message) := by
  rw [cryptoVerifyOptimized]
  refine keeps_ite (keeps_pure _) (keeps_ite (keeps_pure _)
    (keeps_ite (keeps_pure _) (keeps_ite (keeps_pure _) ?_)))
  cases derive path with
  | none => exact keeps_pure _
  | some rawSeed =>
      refine keeps_bind ?_ fun _ => keeps_pure _
      exact keeps_bind (keeps_verifyKeyPrefix outside shake pk _) fun _ =>
        keeps_verifyStored outside shake _ sig message

theorem keeps_cryptoSignOptimized
    (sig : ∀ sig storage, view { storage with sig := sig } = view storage)
    (rnd : Vector UInt8 32) (message : List UInt8) :
    Keeps view (cryptoSignOptimized shake derive rnd path message) := by
  rw [cryptoSignOptimized]
  refine keeps_ite (keeps_pure _) (keeps_ite (keeps_pure _) ?_)
  cases derive path with
  | none => exact keeps_pure _
  | some rawSeed =>
      refine keeps_bind (keeps_signKeyPrefix outside shake pk _) fun _ => ?_
      refine keeps_bind (keeps_signPrepare outside shake _ rnd message) fun _ => ?_
      exact keeps_signAttempts outside.toOutsideAttempt shake sig _ _ _

end Paths

end LedgerQrl.Mldsa87
