import LedgerQrl.Mldsa87.GuardedPoly
import LedgerQrl.Mldsa87.Streams

namespace LedgerQrl.Mldsa87.Guarded

open Foundation InternalStorage GuardedProgram

/-! # The signature functions with guarded arithmetic

The functions of `sign.c` that work on the storage and the three long ones, on
arbitrary streams. A packer only takes coefficients that fit into its fields.
Loop counters and indices of arrays that do not depend on data are left out. -/

abbrev GuardedNvm := GuardedProgram InternalStorage

section Rows

variable {rows : Nat} (region : Region InternalStorage (Vector Poly rows))

def mapRows (f : Poly → Option Poly) : GuardedNvm Unit :=
  setRows region fun i storage => f (region.read storage)[i]

def polyVecReduceVolatile : GuardedNvm Unit := mapRows region polyReduce

def polyVecInvNttToMontVolatile : GuardedNvm Unit := mapRows region invNttToMont

def polyVecNttVolatile : GuardedNvm Unit := mapRows region ntt

def polyVecCAddqVolatile : GuardedNvm Unit := mapRows region polyCAddq

def polyVecShiftLVolatile : GuardedNvm Unit := mapRows region polyShiftL

def polyVecAddVolatile (v : InternalStorage → Vector Poly rows) : GuardedNvm Unit :=
  setRows region fun i storage => polyAdd (region.read storage)[i] (v storage)[i]

def polyVecSubVolatile (u v : InternalStorage → Vector Poly rows) : GuardedNvm Unit :=
  setRows region fun i storage => polySub (u storage)[i] (v storage)[i]

def polyVecPointwisePolyMontgomeryVolatile (a : InternalStorage → Poly)
    (v : InternalStorage → Vector Poly rows) : GuardedNvm Unit :=
  setRows region fun i storage => polyPointwiseMontgomery (a storage) (v storage)[i]

end Rows

def accumulate (j : Fin 7) (acc entry s1hat : Poly) : Option Poly := do
  let product ← polyPointwiseMontgomery entry s1hat
  if j.val = 0 then some product else polyAdd acc product

/-- The nonce of a matrix entry is computed as an `int` first. -/
def combinedMethod (streams : Streams) (t1 : Region InternalStorage PolyVecK)
    (s1hat : InternalStorage → PolyVecL) (rho : List UInt8) : GuardedNvm Unit :=
  forRows 8 fun i => forRows 7 fun j => do
    let shifted ← check (int32 (i.val * 2 ^ 8))
    let _ ← check (int32 (shifted + j.val))
    let entry ← await (streams.matrixEntry rho i j)
    let storage ← read
    let row ← check (accumulate j (t1.read storage)[i] entry (s1hat storage)[j])
    update fun storage => t1.setRow i row storage

def polyVecKPower2RoundVolatile (v1 v0 : Region InternalStorage PolyVecK)
    (v : InternalStorage → PolyVecK) : GuardedNvm Unit := do
  setRows v0 fun i storage =>
    mapPoly (fun a => (power2Round a).map fun parts => parts.2) (v storage)[i]
  setRows v1 fun i storage =>
    mapPoly (fun a => (power2Round a).map fun parts => parts.1) (v storage)[i]

def polyVecKPower2RoundVolatileKeypair (v1 : Region InternalStorage PolyVecK)
    (v : InternalStorage → PolyVecK) : GuardedNvm Unit :=
  setRows v1 fun i storage =>
    mapPoly (fun a => (power2Round a).map fun parts => parts.1) (v storage)[i]

def polyVecKDecomposeVolatile (v1 v0 : Region InternalStorage PolyVecK)
    (v : InternalStorage → PolyVecK) : GuardedNvm Unit := do
  setRows v0 fun i storage =>
    mapPoly (fun a => (decompose a).map fun parts => parts.2) (v storage)[i]
  setRows v1 fun i storage =>
    mapPoly (fun a => (decompose a).map fun parts => parts.1) (v storage)[i]

def polyZUnpack (buf : List UInt8) : Option Poly :=
  collect fun index : Fin 256 =>
    let fields := zFields buf (index / 2)
    int32 (gamma1 - (if index.val % 2 = 0 then fields.1 else fields.2 : Nat))

/-- The nonce of a row is computed as an `int` first. -/
def polyUniformGamma1 (xof : Xof) (seed : List UInt8) (nonce j : Nat) :
    Option Poly := do
  let first ← int32 (7 * nonce)
  let _ ← int32 (first + j)
  let nonceVal := (7 * nonce + j) % 65536
  polyZUnpack (shakeOnce xof (seed ++ nonceBytes nonceVal) 680)

def polyVecLUniformGamma1Volatile (streams : Streams)
    (v : Region InternalStorage PolyVecL) (seed : List UInt8) (nonce : Nat) :
    GuardedNvm Unit :=
  setRows v fun j _ => polyUniformGamma1 streams.shake256 seed nonce j

def polyVecKMakeHintVolatile (h : Region InternalStorage PolyVecK)
    (v0 v1 : InternalStorage → PolyVecK) : GuardedNvm Nat :=
  (List.finRange 8).foldlM (fun s i => do
    let storage ← read
    let row ← check (collect fun index : Fin 256 =>
      makeHint (v0 storage)[i][index] (v1 storage)[i][index])
    update fun storage => h.setRow i (row.map fun (hint : Nat) => (hint : Int)) storage
    pure (s + row.foldl (fun s2 hint => s2 + hint) 0)) 0

def polyVecKUseHintVolatile (w : Region InternalStorage PolyVecK)
    (u h : InternalStorage → PolyVecK) : GuardedNvm Unit :=
  setRows w fun i storage => zipPoly useHint (u storage)[i] (h storage)[i]

def polyChallengeVolatile (streams : Streams)
    (seed : InternalStorage → List UInt8) : GuardedNvm Unit := do
  let storage ← read
  let cp ← await (streams.polyChallenge (seed storage))
  update fun storage => { storage with cp := cp }

def polyNttVolatile : GuardedNvm Unit := do
  let storage ← read
  let cp ← check (ntt storage.cp)
  update fun storage => { storage with cp := cp }

/-! ## Packing -/

def polyT1Pack (a : Poly) : Option (List UInt8) := do
  require (Within 0 1024 a)
  pure (Mldsa87.polyT1Pack a)

def packPkVolatile (rho : List UInt8) (t1 : InternalStorage → PolyVecK) :
    GuardedNvm Unit := do
  update fun storage => { storage with pk := writeBytes 0 rho storage.pk }
  forRows 8 fun b => do
    let storage ← read
    let bytes ← check (polyT1Pack (t1 storage)[b])
    update fun storage =>
      { storage with pk := writeBytes (32 + b * 320) bytes storage.pk }

def polyW1Pack (a : Poly) : Option (List UInt8) := do
  require (Within 0 16 a)
  pure (Mldsa87.polyW1Pack a)

def polyVecKPackW1Volatile (w1 : InternalStorage → PolyVecK) : GuardedNvm Unit :=
  forRows 8 fun i => do
    let storage ← read
    let bytes ← check (polyW1Pack (w1 storage)[i])
    update fun storage => { storage with sig := writeBytes (i * 128) bytes storage.sig }

def polyVecKPackW1VolatileVerify (w1 : InternalStorage → PolyVecK) :
    GuardedNvm Unit :=
  forRows 8 fun i => do
    let storage ← read
    let bytes ← check (polyW1Pack (w1 storage)[i])
    update fun storage =>
      { storage with
        pack1 := storage.pack1.set 0
          (writePolyBytes (i * 128) bytes storage.pack1[(0 : Fin 8)])
          zero_lt_rows }

def polyZPack (a : Poly) : Option (List UInt8) := do
  let fields ← mapPoly (fun value => int32 (gamma1 - value)) a
  require (Within 0 1048576 fields)
  pure (Mldsa87.polyZPack a)

/-- The counter `k` of the hints is an `int32_t`, and a byte holds it. -/
def packHintRow (h : Poly) (i : Nat) (state : List UInt8 × Nat) :
    Option (List UInt8 × Nat) :=
  (List.range 256).foldlM (fun (temp, k) j => do
    let next ← int32 (k + 1)
    let (temp, k) :=
      if h.coeff j ≠ 0 then (temp.set k (UInt8.ofNat j), next.toNat) else (temp, k)
    require (k < 256)
    pure (temp.set (75 + i) (UInt8.ofNat k), k)) state

def packHints (h : PolyVecK) : Option (List UInt8) := do
  let state ← (List.finRange 8).foldlM (fun state (i : Fin 8) =>
    packHintRow h[i] i state) (List.replicate 83 0, 0)
  pure state.1

def packSigVolatile (c : List UInt8) (z : InternalStorage → PolyVecL)
    (h : InternalStorage → PolyVecK) : GuardedNvm Unit := do
  update fun storage => { storage with sig := writeBytes 0 c storage.sig }
  forRows 7 fun b => do
    let storage ← read
    let bytes ← check (polyZPack (z storage)[b])
    update fun storage =>
      { storage with sig := writeBytes (64 + b * 640) bytes storage.sig }
  update fun storage =>
    { storage with sig := writeBytes 4544 (List.replicate 83 0) storage.sig }
  let storage ← read
  let bytes ← check (packHints (h storage))
  update fun storage => { storage with sig := writeBytes 4544 bytes storage.sig }

def unpackSigVolatile (z : Region InternalStorage PolyVecL)
    (h : Region InternalStorage PolyVecK) (sig : List UInt8) : GuardedNvm Bool := do
  setRows z fun b _ => polyZUnpack (sig.drop (64 + b * 640))
  let used ← monadLift (unpackHintRows h sig (List.finRange 8) 0)
  match used with
  | none => pure false
  | some k => pure ((List.range' k (75 - k)).all fun j => byteAt sig (4544 + j) = 0)

/-! ## Key generation, signing and verification -/

def polyVecNtt {rows : Nat} (v : Vector Poly rows) : Option (Vector Poly rows) :=
  collect fun i => ntt v[i]

def cryptoSignKeypair (streams : Streams) (seedNew : Vector UInt8 32)
    (seed : Option (Vector UInt8 32)) : GuardedNvm ErrorCode := do
  let seed := seed.getD seedNew
  let expanded := streams.expandSeed seed
  let s1 ← await (streams.polyVecUniformEta blankL expanded.rhoPrime 0)
  let s2 ← await (streams.polyVecUniformEta blankK expanded.rhoPrime 7)
  let s1hat ← check (polyVecNtt s1)
  combinedMethod streams t1Region (fun _ => s1hat) expanded.rho
  polyVecReduceVolatile t1Region
  polyVecInvNttToMontVolatile t1Region
  polyVecAddVolatile t1Region fun _ => s2
  polyVecCAddqVolatile t1Region
  polyVecKPower2RoundVolatileKeypair t1Region t1Region.read
  packPkVolatile expanded.rho t1Region.read
  pure .none

def signKeyPrefix (streams : Streams) (seed : Vector UInt8 32) :
    GuardedNvm SigningKey := do
  let expanded := streams.expandSeed seed
  let s1 ← await (streams.polyVecUniformEta blankL expanded.rhoPrime 0)
  let s1hat ← check (polyVecNtt s1)
  combinedMethod streams t1Region (fun _ => s1hat) expanded.rho
  polyVecReduceVolatile t1Region
  polyVecInvNttToMontVolatile t1Region
  let s2 ← await (streams.polyVecUniformEta (overlayS1hat s1hat) expanded.rhoPrime 7)
  polyVecAddVolatile t1Region fun _ => s2
  polyVecCAddqVolatile t1Region
  polyVecKPower2RoundVolatile t1Region pack1Region t1Region.read
  packPkVolatile expanded.rho t1Region.read
  pure { rho := expanded.rho, key := expanded.key, s1 := s1, s2 := s2 }

def signCommit (streams : Streams) (input : AttemptInput) (nonce : Nat) :
    GuardedNvm Unit := do
  polyVecLUniformGamma1Volatile streams yRegion input.rhoPrime nonce
  setRows zRegion fun i storage => some storage.y[i]
  polyVecNttVolatile zRegion
  combinedMethod streams w1Region zRegion.read input.rho
  polyVecReduceVolatile w1Region
  polyVecInvNttToMontVolatile w1Region
  polyVecCAddqVolatile w1Region
  polyVecKDecomposeVolatile w1Region w0Region w1Region.read
  polyVecKPackW1Volatile w1Region.read
  update fun storage =>
    { storage with
      sig := writeBytes 0
        (shakeOnce streams.shake256
          (input.mu ++ storage.sig.toList.take (8 * 128)) 64) storage.sig }
  polyChallengeVolatile streams fun storage => storage.sig.toList.take 64
  polyNttVolatile

def signResponse (input : AttemptInput) : GuardedNvm Unit := do
  polyVecPointwisePolyMontgomeryVolatile zRegion (fun storage => storage.cp)
    fun _ => input.s1hat
  polyVecInvNttToMontVolatile zRegion
  polyVecAddVolatile zRegion yRegion.read
  polyVecReduceVolatile zRegion

def signLowBits (input : AttemptInput) : GuardedNvm Unit := do
  polyVecPointwisePolyMontgomeryVolatile hRegion (fun storage => storage.cp)
    fun _ => input.s2hat
  polyVecInvNttToMontVolatile hRegion
  polyVecSubVolatile w0Region w0Region.read hRegion.read
  polyVecReduceVolatile w0Region

def signHintInput : GuardedNvm Unit := do
  polyVecPointwisePolyMontgomeryVolatile hRegion (fun storage => storage.cp)
    pack1Region.read
  polyVecInvNttToMontVolatile hRegion
  polyVecReduceVolatile hRegion

def signHints : GuardedNvm Nat := do
  polyVecAddVolatile w0Region hRegion.read
  polyVecKMakeHintVolatile hRegion w0Region.read w1Region.read

def signEncode : GuardedNvm Unit := do
  let storage ← read
  packSigVolatile (storage.sig.toList.take 64) zRegion.read hRegion.read

def signAttempt (streams : Streams) (input : AttemptInput) (nonce : Nat) :
    GuardedNvm Bool := do
  signCommit streams input nonce
  signResponse input
  let storage ← read
  let norm ← check (polyVecChkNorm storage.z (gamma1 - beta))
  if norm ≠ 0 then pure false
  else do
    signLowBits input
    let storage ← read
    let norm ← check (polyVecChkNorm storage.w0 (gamma2 - beta))
    if norm ≠ 0 then pure false
    else do
      signHintInput
      let storage ← read
      let norm ← check (polyVecChkNorm storage.h gamma2)
      if norm ≠ 0 then pure false
      else do
        let count ← signHints
        if count > omegaMax then pure false
        else do
          signEncode
          pure true

def signAttempts (streams : Streams) (input : AttemptInput) :
    (remaining nonce : Nat) → GuardedNvm ErrorCode
  | 0, _ => pure .invalidSignature
  | remaining + 1, nonce => do
      let accepted ← signAttempt streams input nonce
      if accepted then pure .none
      else signAttempts streams input remaining (nonce + 1)

def signPrepare (streams : Streams) (key : SigningKey) (rnd : Vector UInt8 32)
    (message : List UInt8) : GuardedNvm AttemptInput := do
  let storage ← read
  let mu := streams.messageDigest storage.pk.toList message
  let rhoPrime := shakeOnce streams.shake256 (key.key ++ rnd.toList ++ mu) 64
  let s1hat ← check (polyVecNtt key.s1)
  let s2hat ← check (polyVecNtt key.s2)
  polyVecNttVolatile pack1Region
  pure { rho := key.rho, mu := mu, rhoPrime := rhoPrime, s1hat := s1hat, s2hat := s2hat }

def signWithSeed (streams : Streams) (seed rnd : Vector UInt8 32)
    (message : List UInt8) : GuardedNvm ErrorCode := do
  let key ← signKeyPrefix streams seed
  let input ← signPrepare streams key rnd message
  signAttempts streams input 814 0

def cryptoSignOptimized (streams : Streams) (derive : Derivation)
    (rnd : Vector UInt8 32) (path : List UInt32) (message : List UInt8) :
    GuardedNvm ErrorCode :=
  if message = [] then pure .invalidMessage
  else if ctx.length > 255 then pure .invalidContextLength
  else
    match derive path with
    | none => pure .minusOne
    | some rawSeed => signWithSeed streams (seedOfRaw rawSeed) rnd message

def verifyKeyPrefix (streams : Streams) (seed : Vector UInt8 32) :
    GuardedNvm (List UInt8) := do
  let expanded := streams.expandSeed seed
  let s1 ← await (streams.polyVecUniformEta blankL expanded.rhoPrime 0)
  let s2 ← await (streams.polyVecUniformEta blankK expanded.rhoPrime 7)
  let s1hat ← check (polyVecNtt s1)
  combinedMethod streams t1Region (fun _ => s1hat) expanded.rho
  polyVecReduceVolatile t1Region
  polyVecInvNttToMontVolatile t1Region
  polyVecAddVolatile t1Region fun _ => s2
  polyVecCAddqVolatile t1Region
  polyVecKPower2RoundVolatile t1Region pack1Region t1Region.read
  packPkVolatile expanded.rho t1Region.read
  pure expanded.rho

def verifyCommit (streams : Streams) (rho c : List UInt8) : GuardedNvm Unit := do
  polyChallengeVolatile streams fun _ => c
  polyVecNttVolatile zRegion
  combinedMethod streams w1Region zRegion.read rho
  polyNttVolatile
  polyVecShiftLVolatile t1Region
  polyVecNttVolatile t1Region
  polyVecPointwisePolyMontgomeryVolatile t1Region (fun storage => storage.cp)
    t1Region.read
  polyVecSubVolatile w1Region w1Region.read t1Region.read
  polyVecReduceVolatile w1Region
  polyVecInvNttToMontVolatile w1Region
  polyVecCAddqVolatile w1Region
  polyVecKUseHintVolatile w1Region w1Region.read hRegion.read
  polyVecKPackW1VolatileVerify w1Region.read

def verifyStored (streams : Streams) (rho sig message : List UInt8) :
    GuardedNvm Bool := do
  let c := sig.take 64
  let unpacked ← unpackSigVolatile zRegion hRegion sig
  if !unpacked then pure false
  else do
    let storage ← read
    let norm ← check (polyVecChkNorm storage.z (gamma1 - beta))
    if norm ≠ 0 then pure false
    else do
      let mu := streams.messageDigest storage.pk.toList message
      verifyCommit streams rho c
      let storage ← read
      let c2 := shakeOnce streams.shake256
        (mu ++ storage.bufVerify.take (8 * 128)) 64
      pure (c = c2)

def verifyWithSeed (streams : Streams) (seed : Vector UInt8 32)
    (sig message : List UInt8) : GuardedNvm Bool := do
  let rho ← verifyKeyPrefix streams seed
  verifyStored streams rho sig message

def cryptoVerifyOptimized (streams : Streams) (derive : Derivation)
    (path : List UInt32) (sig message : List UInt8) :
    GuardedNvm (ErrorCode × Bool) :=
  if sig = [] then pure (.invalidSignature, false)
  else if message = [] then pure (.invalidMessage, false)
  else if ctx.length > 255 then pure (.invalidContextLength, false)
  else if sig.length ≠ cryptoBytes then pure (.invalidSignature, false)
  else
    match derive path with
    | none => pure (.minusOne, false)
    | some rawSeed => do
        let verified ← verifyWithSeed streams (seedOfRaw rawSeed) sig message
        pure (.none, verified)

end LedgerQrl.Mldsa87.Guarded
