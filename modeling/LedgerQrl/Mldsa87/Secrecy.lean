import LedgerQrl.Mldsa87.Unpacking

namespace LedgerQrl.Mldsa87

open Foundation Program InternalStorage

/-! # Which stops leave public data only

`crypto_sign_optimized` and `crypto_verify_optimized`, run with two seeds of one public
key. -/

/-- Where the storage of a verifying run depends on public data alone. Secrets are used
only to generate the key. -/
def VerifyAgrees : Stop → Prop
  | .interrupted writes => writes = 0 ∨ 104 ≤ writes
  | .finished => True

/-- Where it moreover holds that data as the key and the signature encode it: before the
first write, from the high parts of the key to the challenge, and in a run that refuses
the signature before it. -/
def VerifyHides (sig : List UInt8) : Stop → Prop
  | .interrupted writes =>
      writes = 0 ∨ 104 ≤ writes ∧ (writes ≤ 114 + unpackWrites sig ∨ Refused sig)
  | .finished => Refused sig

theorem VerifyHides.agrees {sig : List UInt8} {stop : Stop} (hides : VerifyHides sig stop) :
    VerifyAgrees stop := by
  cases stop with
  | interrupted writes => exact hides.imp id fun behind => behind.1
  | finished => trivial

/-- The vectors that outlast the wipe hold what they held before, what the signature
encodes, or the high parts of the public key. -/
structure OnlyDecoded (pk sig : List UInt8) (storage left : InternalStorage) : Prop where
  z : ∀ j : Fin 7, left.z[j] = storage.z[j] ∨ left.z[j] = (responseRows sig)[j]
  h : ∀ i : Fin 8, ∀ n < 256, left.h[i].coeff n = storage.h[i].coeff n ∨
    left.h[i].coeff n = 0 ∨ left.h[i].coeff n = (hintWords (sig.drop 4544))[i].coeff n
  w1 : left.w1 = storage.w1
  t1 : left.t1 = storage.t1 ∨ left.t1 = publicHighRows pk

section Stops

variable {Result Other : Type} {program : NvmProgram Result} {other : NvmProgram Other}
  {storage twin : InternalStorage}

end Stops

/-! ## Signing -/

section Sign

variable (shake : Shake) (seed rnd : Vector UInt8 32) (message : List UInt8)
  (storage : InternalStorage)

variable {shake} {seed' : Vector UInt8 32}
  (key : Spec.publicKey shake seed = Spec.publicKey shake seed') (rnd' : Vector UInt8 32)

include key

end Sign

/-! ## Verification -/

section Verify

variable {shake : Shake} {seed seed' : Vector UInt8 32}
  (key : Spec.publicKey shake seed = Spec.publicKey shake seed')
  (sig message : List UInt8) (storage : InternalStorage)

theorem OnlyDecoded.wiped (pk sig : List UInt8) (storage : InternalStorage) :
    OnlyDecoded pk sig storage (wiped storage) where
  z _ := Or.inl rfl
  h _ _ _ := Or.inl rfl
  w1 := rfl
  t1 := Or.inl rfl

include key

end Verify

/-! ## The two functions -/

section Functions

variable (shake : Shake) {derive : Derivation} {path : List UInt32}
  {rawSeed : Vector UInt8 64} (derived : derive path = some rawSeed)
  (rnd : Vector UInt8 32) (sig message : List UInt8)

include derived

end Functions

section Copy

variable (shake : Shake) (seed rnd : Vector UInt8 32) (message : List UInt8)
  (storage : InternalStorage)

end Copy

/-! ## Two masks for one key -/

section Echo

end Echo

end LedgerQrl.Mldsa87
