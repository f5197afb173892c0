import LedgerQrl.Mldsa87.Correctness
import LedgerQrl.Mldsa87.Wiping

namespace LedgerQrl.Mldsa87

open Foundation Program InternalStorage

/-! # What is left after a stop and a wipe

The secret vectors pass through more of the storage than the wipe clears. What is
left is determined by public data before the first write, from the high parts of the
key to the first mask, and after a completed signature. -/

/-- Where a run stops: power is lost after some writes, or it ends. -/
inductive Stop where
  | interrupted (writes : ℕ)
  | finished

def publicHighRows (pk : List UInt8) : PolyVecK :=
  Vector.ofFn fun i => Vector.ofFn fun n : Fin 256 => Spec.publicHigh pk i n

section Completed

variable {shake : Shake} {seed rnd : Vector UInt8 32} {message : List UInt8} {k : ℕ}

end Completed

/-! ## From the high parts of the key to the first mask -/

section Twins

variable {shake : Shake} {seed seed' : Vector UInt8 32}
  (key : Spec.publicKey shake seed = Spec.publicKey shake seed')

include key

end Twins

section Sign

variable (shake : Shake) (seed rnd : Vector UInt8 32) (message : List UInt8)
  (storage : InternalStorage)

end Sign

end LedgerQrl.Mldsa87
