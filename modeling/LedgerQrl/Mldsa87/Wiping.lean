import LedgerQrl.Foundation.Lockstep
import LedgerQrl.Mldsa87.KeyGeneration

namespace LedgerQrl.Mldsa87

open Foundation Program InternalStorage

namespace InternalStorage

end InternalStorage

/-! # What wiping hides

`wipe_nvm_secrets` clears three vectors. Contents that differ only in these are
the same after it, and a program that does not read them leaves such contents
wherever it stops. -/

def wiped (storage : InternalStorage) : InternalStorage :=
  { storage with y := blankL, pack1 := blankK, w0 := blankK }

section Zero

variable {rows : ℕ} (region : Region InternalStorage (Vector Poly rows))

end Zero

section Rules

variable {Result Next : Type}

end Rules

/-! ## The functions on the storage -/

section Functions

variable {rows : ℕ} {region : Region InternalStorage (Vector Poly rows)}

end Functions

/-! ## Verification of a stored key -/

section Verify

variable (sig : List UInt8)

end Verify

end LedgerQrl.Mldsa87
