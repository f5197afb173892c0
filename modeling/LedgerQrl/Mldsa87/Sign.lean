import LedgerQrl.Mldsa87.Volatile

namespace LedgerQrl.Mldsa87

open Foundation InternalStorage

/-! # Key generation, signing and verification

The three long functions of `sign.c`, in the order of their statements. What
they keep in RAM is passed on as values; what they keep in the storage is
written and read through it. -/

/-- `ErrorCode`; the functions also return the number `-1`. -/
inductive ErrorCode where
  | none
  | invalidSigbLength
  | invalidContextLength
  | invalidMessage
  | invalidSignature
  | minusOne
deriving DecidableEq, Repr

/-- `os_derive_bip32_no_throw`: an error, or the raw seed of a path. -/
abbrev Derivation := List UInt32 → Option (Vector UInt8 64)

def seedOfRaw (rawSeed : Vector UInt8 64) : Vector UInt8 32 :=
  Vector.ofFn fun i => rawSeed[i.val]

/-- `rho`, `rhoPrime` and `key`. -/
structure ExpandedSeed where
  rho : List UInt8
  rhoPrime : List UInt8
  key : List UInt8

def expandSeed (shake : Shake) (seed : Vector UInt8 32) : ExpandedSeed :=
  let ctx := ShakeCtx.finalized shake.shake256 (seed.toList ++ [8, 7])
  let rho := ctx.squeeze 32
  let rhoPrime := rho.2.squeeze 64
  let key := rhoPrime.2.squeeze 32
  { rho := rho.1, rhoPrime := rhoPrime.1, key := key.1 }

/-- The content of vectors before they are sampled; every coefficient of it is
overwritten. -/
def blankL : PolyVecL := Vector.replicate 7 Poly.zero

def blankK : PolyVecK := Vector.replicate 8 Poly.zero

/-- The vector `s2` of a union whose other member `s1hat` has been written. -/
def overlayS1hat (s1hat : PolyVecL) : PolyVecK :=
  Vector.ofFn fun i => if within : i.val < 7 then s1hat[i.val] else Poly.zero

/-- `crypto_sign_keypair`. Without a seed, one is drawn. -/
def cryptoSignKeypair (shake : Shake) (seedNew : Vector UInt8 32)
    (seed : Option (Vector UInt8 32)) : NvmProgram ErrorCode := do
  let seed := seed.getD seedNew
  let expanded := expandSeed shake seed
  let s1 := shake.polyVecLUniformEta blankL expanded.rhoPrime 0
  let s2 := shake.polyVecKUniformEta blankK expanded.rhoPrime 7
  let s1hat := s1.map ntt
  combinedMethod shake t1Region (fun _ => s1hat) expanded.rho
  polyVecKReduceVolatile t1Region
  polyVecKInvNttToMontVolatile t1Region
  polyVecKAddVolatile t1Region fun _ => s2
  polyVecKCAddqVolatile t1Region
  polyVecKPower2RoundVolatileKeypair t1Region t1Region.read
  packPkVolatile expanded.rho t1Region.read
  pure .none

/-! ## `crypto_sign_optimized` -/

/-- What the key generation prefix leaves in RAM. -/
structure SigningKey where
  rho : List UInt8
  key : List UInt8
  s1 : PolyVecL
  s2 : PolyVecK

/-- The key generation prefix of `crypto_sign_optimized`: `s2` is sampled over
`s1hat`, after the product. -/
def signKeyPrefix (shake : Shake) (seed : Vector UInt8 32) :
    NvmProgram SigningKey := do
  let expanded := expandSeed shake seed
  let s1 := shake.polyVecLUniformEta blankL expanded.rhoPrime 0
  let s1hat := s1.map ntt
  combinedMethod shake t1Region (fun _ => s1hat) expanded.rho
  polyVecKReduceVolatile t1Region
  polyVecKInvNttToMontVolatile t1Region
  let s2 := shake.polyVecKUniformEta (overlayS1hat s1hat) expanded.rhoPrime 7
  polyVecKAddVolatile t1Region fun _ => s2
  polyVecKCAddqVolatile t1Region
  polyVecKPower2RoundVolatile t1Region pack1Region t1Region.read
  packPkVolatile expanded.rho t1Region.read
  pure { rho := expanded.rho, key := expanded.key, s1 := s1, s2 := s2 }

/-- The prefix `0, CTX_LEN, CTX` of a message. -/
def messagePre : List UInt8 := 0 :: UInt8.ofNat ctx.length :: ctx

/-- `mu`, from the public key in the storage. -/
def messageDigest (shake : Shake) (pk message : List UInt8) : List UInt8 :=
  let tr := shakeOnce shake.shake256 pk 64
  shakeOnce shake.shake256 (tr ++ messagePre ++ message) 64

/-- What stays in RAM during the rejection loop. -/
structure AttemptInput where
  rho : List UInt8
  mu : List UInt8
  rhoPrime : List UInt8
  s1hat : PolyVecL
  s2hat : PolyVecK

/-- From the sampling of `y` to the transformed challenge in `cp`. -/
def signCommit (shake : Shake) (input : AttemptInput) (nonce : Nat) :
    NvmProgram Unit := do
  polyVecLUniformGamma1Volatile shake yRegion input.rhoPrime nonce
  writeRows zRegion fun i storage => storage.y[i]
  polyVecLNttVolatile zRegion
  combinedMethod shake w1Region zRegion.read input.rho
  polyVecKReduceVolatile w1Region
  polyVecKInvNttToMontVolatile w1Region
  polyVecKCAddqVolatile w1Region
  polyVecKDecomposeVolatile w1Region w0Region w1Region.read
  polyVecKPackW1Volatile w1Region.read
  Program.update fun storage =>
    { storage with
      sig := writeBytes 0
        (shakeOnce shake.shake256
          (input.mu ++ storage.sig.toList.take (8 * 128)) 64) storage.sig }
  polyChallengeVolatile shake fun storage => storage.sig.toList.take 64
  polyNttVolatile

/-- `z = y + c * s1`. -/
def signResponse (input : AttemptInput) : NvmProgram Unit := do
  polyVecLPointwisePolyMontgomeryVolatile zRegion (fun storage => storage.cp)
    fun _ => input.s1hat
  polyVecLInvNttToMontVolatile zRegion
  polyVecLAddVolatile zRegion yRegion.read
  polyVecLReduceVolatile zRegion

/-- `w0 = w0 - c * s2`. -/
def signLowBits (input : AttemptInput) : NvmProgram Unit := do
  polyVecKPointwisePolyMontgomeryVolatile hRegion (fun storage => storage.cp)
    fun _ => input.s2hat
  polyVecKInvNttToMontVolatile hRegion
  polyVecKSubVolatile w0Region w0Region.read hRegion.read
  polyVecKReduceVolatile w0Region

/-- `h = c * t0`. -/
def signHintInput : NvmProgram Unit := do
  polyVecKPointwisePolyMontgomeryVolatile hRegion (fun storage => storage.cp)
    pack1Region.read
  polyVecKInvNttToMontVolatile hRegion
  polyVecKReduceVolatile hRegion

/-- `h` becomes the hints; the result is their number. -/
def signHints : NvmProgram Nat := do
  polyVecKAddVolatile w0Region hRegion.read
  polyVecKMakeHintVolatile hRegion w0Region.read w1Region.read

def signEncode : NvmProgram Unit := do
  let storage ← Program.read
  packSigVolatile (storage.sig.toList.take 64) zRegion.read hRegion.read

/-- One round from the label `rej`: `false` stands for `goto rej`. -/
def signAttempt (shake : Shake) (input : AttemptInput) (nonce : Nat) :
    NvmProgram Bool := do
  signCommit shake input nonce
  signResponse input
  let storage ← Program.read
  if polyVecLChkNorm storage.z (gamma1 - beta) ≠ 0 then pure false
  else do
    signLowBits input
    let storage ← Program.read
    if polyVecKChkNorm storage.w0 (gamma2 - beta) ≠ 0 then pure false
    else do
      signHintInput
      let storage ← Program.read
      if polyVecKChkNorm storage.h gamma2 ≠ 0 then pure false
      else do
        let count ← signHints
        if count > omegaMax then pure false
        else do
          signEncode
          pure true

/-- The loop of the label `rej` with `remaining` attempts left; `attempts` and
`nonce` of the source are always equal. -/
def signAttempts (shake : Shake) (input : AttemptInput) :
    (remaining nonce : Nat) → NvmProgram ErrorCode
  | 0, _ => pure .invalidSignature
  | remaining + 1, nonce => do
      let accepted ← signAttempt shake input nonce
      if accepted then pure .none
      else signAttempts shake input remaining (nonce + 1)

/-- From the public key in the storage to the label `rej`. -/
def signPrepare (shake : Shake) (key : SigningKey) (rnd : Vector UInt8 32)
    (message : List UInt8) : NvmProgram AttemptInput := do
  let storage ← Program.read
  let mu := messageDigest shake storage.pk.toList message
  let rhoPrime := shakeOnce shake.shake256 (key.key ++ rnd.toList ++ mu) 64
  polyVecKNttVolatile pack1Region
  pure
    { rho := key.rho
      mu := mu
      rhoPrime := rhoPrime
      s1hat := key.s1.map ntt
      s2hat := key.s2.map ntt }

/-- `crypto_sign_optimized` after the path has been derived. -/
def signWithSeed (shake : Shake) (seed rnd : Vector UInt8 32)
    (message : List UInt8) : NvmProgram ErrorCode := do
  let key ← signKeyPrefix shake seed
  let input ← signPrepare shake key rnd message
  signAttempts shake input 814 0

def cryptoSignOptimized (shake : Shake) (derive : Derivation)
    (rnd : Vector UInt8 32) (path : List UInt32) (message : List UInt8) :
    NvmProgram ErrorCode :=
  if message = [] then pure .invalidMessage
  else if ctx.length > 255 then pure .invalidContextLength
  else
    match derive path with
    | none => pure .minusOne
    | some rawSeed => signWithSeed shake (seedOfRaw rawSeed) rnd message

/-! ## `crypto_verify_optimized` -/

/-- The key generation prefix of `crypto_verify_optimized`; the result is
`rho`. -/
def verifyKeyPrefix (shake : Shake) (seed : Vector UInt8 32) :
    NvmProgram (List UInt8) := do
  let expanded := expandSeed shake seed
  let s1 := shake.polyVecLUniformEta blankL expanded.rhoPrime 0
  let s2 := shake.polyVecKUniformEta blankK expanded.rhoPrime 7
  let s1hat := s1.map ntt
  combinedMethod shake t1Region (fun _ => s1hat) expanded.rho
  polyVecKReduceVolatile t1Region
  polyVecKInvNttToMontVolatile t1Region
  polyVecKAddVolatile t1Region fun _ => s2
  polyVecKCAddqVolatile t1Region
  polyVecKPower2RoundVolatile t1Region pack1Region t1Region.read
  packPkVolatile expanded.rho t1Region.read
  pure expanded.rho

/-- From the unpacked signature to the packed `w1` in `pack1`. -/
def verifyCommit (shake : Shake) (rho c : List UInt8) : NvmProgram Unit := do
  polyChallengeVolatile shake fun _ => c
  polyVecLNttVolatile zRegion
  combinedMethod shake w1Region zRegion.read rho
  polyNttVolatile
  polyVecKShiftLVolatile t1Region
  polyVecKNttVolatile t1Region
  polyVecKPointwisePolyMontgomeryVolatile t1Region (fun storage => storage.cp)
    t1Region.read
  polyVecKSubVolatile w1Region w1Region.read t1Region.read
  polyVecKReduceVolatile w1Region
  polyVecKInvNttToMontVolatile w1Region
  polyVecKCAddqVolatile w1Region
  polyVecKUseHintVolatile w1Region w1Region.read hRegion.read
  polyVecKPackW1VolatileVerify w1Region.read

def verifyStored (shake : Shake) (rho sig message : List UInt8) :
    NvmProgram Bool := do
  let c := sig.take 64
  let unpacked ← unpackSigVolatile zRegion hRegion sig
  if !unpacked then pure false
  else do
    let storage ← Program.read
    if polyVecLChkNorm storage.z (gamma1 - beta) ≠ 0 then pure false
    else do
      let mu := messageDigest shake storage.pk.toList message
      verifyCommit shake rho c
      let storage ← Program.read
      let c2 := shakeOnce shake.shake256 (mu ++ storage.bufVerify.take (8 * 128)) 64
      pure (c = c2)

/-- `crypto_verify_optimized` after the path has been derived; the result is
`is_verified`, the error code is `ERR_NONE`. -/
def verifyWithSeed (shake : Shake) (seed : Vector UInt8 32)
    (sig message : List UInt8) : NvmProgram Bool := do
  let rho ← verifyKeyPrefix shake seed
  verifyStored shake rho sig message

/-- The error code and `is_verified`. The signature is the content of the
caller's buffer, which the function does not write. -/
def cryptoVerifyOptimized (shake : Shake) (derive : Derivation)
    (path : List UInt32) (sig message : List UInt8) :
    NvmProgram (ErrorCode × Bool) :=
  if sig = [] then pure (.invalidSignature, false)
  else if message = [] then pure (.invalidMessage, false)
  else if ctx.length > 255 then pure (.invalidContextLength, false)
  else if sig.length ≠ cryptoBytes then pure (.invalidSignature, false)
  else
    match derive path with
    | none => pure (.minusOne, false)
    | some rawSeed => do
        let verified ← verifyWithSeed shake (seedOfRaw rawSeed) sig message
        pure (.none, verified)

end LedgerQrl.Mldsa87
