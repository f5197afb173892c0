import LedgerQrl.Mldsa87.InLine
import LedgerQrl.Mldsa87.Storage

namespace LedgerQrl.Mldsa87

open Foundation

/-! # The functions that work on the storage

Each function of `sign.c` that takes volatile pointers. A pointer that is
written is a region; one that is only read is a function of the storage, so
that the same function can be given two names of one vector. -/

section Rows

variable {rows : Nat} (region : Region InternalStorage (Vector Poly rows))

/-- A loop that replaces every polynomial of `v` by a function of itself. -/
def mapRows (f : Poly → Poly) : NvmProgram Unit :=
  writeRows region fun i storage => f (region.read storage)[i]

def polyVecReduceVolatile : NvmProgram Unit := mapRows region polyReduce

def polyVecInvNttToMontVolatile : NvmProgram Unit := mapRows region invNttToMontInLine

def polyVecNttVolatile : NvmProgram Unit := mapRows region nttInLine

def polyVecAddVolatile (v : InternalStorage → Vector Poly rows) :
    NvmProgram Unit :=
  writeRows region fun i storage =>
    polyAdd (region.read storage)[i] (v storage)[i]

def polyVecPointwisePolyMontgomeryVolatile (a : InternalStorage → Poly)
    (v : InternalStorage → Vector Poly rows) : NvmProgram Unit :=
  writeRows region fun i storage =>
    polyPointwiseMontgomery (a storage) (v storage)[i]

end Rows

def polyVecKReduceVolatile (v : Region InternalStorage PolyVecK) :
    NvmProgram Unit :=
  polyVecReduceVolatile v

def polyVecLReduceVolatile (v : Region InternalStorage PolyVecL) :
    NvmProgram Unit :=
  polyVecReduceVolatile v

def polyVecKInvNttToMontVolatile (v : Region InternalStorage PolyVecK) :
    NvmProgram Unit :=
  polyVecInvNttToMontVolatile v

def polyVecLInvNttToMontVolatile (v : Region InternalStorage PolyVecL) :
    NvmProgram Unit :=
  polyVecInvNttToMontVolatile v

def polyVecKNttVolatile (v : Region InternalStorage PolyVecK) :
    NvmProgram Unit :=
  polyVecNttVolatile v

def polyVecLNttVolatile (v : Region InternalStorage PolyVecL) :
    NvmProgram Unit :=
  polyVecNttVolatile v

def polyVecKAddVolatile (w : Region InternalStorage PolyVecK)
    (v : InternalStorage → PolyVecK) : NvmProgram Unit :=
  polyVecAddVolatile w v

def polyVecLAddVolatile (w : Region InternalStorage PolyVecL)
    (v : InternalStorage → PolyVecL) : NvmProgram Unit :=
  polyVecAddVolatile w v

def polyVecLPointwisePolyMontgomeryVolatile
    (r : Region InternalStorage PolyVecL) (a : InternalStorage → Poly)
    (v : InternalStorage → PolyVecL) : NvmProgram Unit :=
  polyVecPointwisePolyMontgomeryVolatile r a v

def polyVecKPointwisePolyMontgomeryVolatile
    (r : Region InternalStorage PolyVecK) (a : InternalStorage → Poly)
    (v : InternalStorage → PolyVecK) : NvmProgram Unit :=
  polyVecPointwisePolyMontgomeryVolatile r a v

def polyVecKCAddqVolatile (v : Region InternalStorage PolyVecK) :
    NvmProgram Unit :=
  mapRows v polyCAddq

def polyVecKShiftLVolatile (v : Region InternalStorage PolyVecK) :
    NvmProgram Unit :=
  mapRows v polyShiftL

def polyVecKSubVolatile (w : Region InternalStorage PolyVecK)
    (u v : InternalStorage → PolyVecK) : NvmProgram Unit :=
  writeRows w fun i storage => polySub (u storage)[i] (v storage)[i]

/-- Samples a matrix row by row and multiplies it onto `s1hat`; the row of the
product is accumulated in the storage, one write for each column. -/
def combinedMethod (shake : Shake) (t1 : Region InternalStorage PolyVecK)
    (s1hat : InternalStorage → PolyVecL) (rho : List UInt8) :
    NvmProgram Unit :=
  Program.forRows 8 fun i => Program.forRows 7 fun j =>
    Program.update fun storage =>
      let product := polyPointwiseMontgomery (shake.matrixEntry rho i j)
        (s1hat storage)[j]
      t1.setRow i
        (if j.val = 0 then product
        else polyAdd (t1.read storage)[i] product) storage

/-- First the low parts of all rows, then the high parts; `v1` may be `v`. -/
def polyVecKPower2RoundVolatile (v1 v0 : Region InternalStorage PolyVecK)
    (v : InternalStorage → PolyVecK) : NvmProgram Unit := do
  writeRows v0 fun i storage => (v storage)[i].map fun a => (power2Round a).2
  writeRows v1 fun i storage => (v storage)[i].map fun a => (power2Round a).1

def polyVecKPower2RoundVolatileKeypair (v1 : Region InternalStorage PolyVecK)
    (v : InternalStorage → PolyVecK) : NvmProgram Unit :=
  writeRows v1 fun i storage => (v storage)[i].map fun a => (power2Round a).1

def polyVecKDecomposeVolatile (v1 v0 : Region InternalStorage PolyVecK)
    (v : InternalStorage → PolyVecK) : NvmProgram Unit := do
  writeRows v0 fun i storage => (v storage)[i].map fun a => (decompose a).2
  writeRows v1 fun i storage => (v storage)[i].map fun a => (decompose a).1

def polyVecLUniformGamma1Volatile (shake : Shake)
    (v : Region InternalStorage PolyVecL) (seed : List UInt8) (nonce : Nat) :
    NvmProgram Unit :=
  writeRows v fun j _ => polyUniformGamma1 shake.shake256 seed nonce j

def polyVecKMakeHintVolatile (h : Region InternalStorage PolyVecK)
    (v0 v1 : InternalStorage → PolyVecK) : NvmProgram Nat :=
  (List.finRange 8).foldlM (fun s i => do
    let storage ← Program.read
    let row : Vector Nat 256 :=
      Vector.zipWith makeHint (v0 storage)[i] (v1 storage)[i]
    Program.update fun storage =>
      h.setRow i (row.map fun (hint : Nat) => (hint : Int)) storage
    pure (s + row.foldl (fun s2 hint => s2 + hint) 0)) 0

def polyVecKUseHintVolatile (w : Region InternalStorage PolyVecK)
    (u h : InternalStorage → PolyVecK) : NvmProgram Unit :=
  writeRows w fun i storage =>
    Vector.zipWith useHint (u storage)[i] (h storage)[i]

/-- Stores the challenge polynomial of a seed in `cp`. -/
def polyChallengeVolatile (shake : Shake)
    (seed : InternalStorage → List UInt8) : NvmProgram Unit :=
  Program.update fun storage =>
    { storage with cp := shake.polyChallenge (seed storage) }

def polyNttVolatile : NvmProgram Unit :=
  Program.update fun storage => { storage with cp := nttInLine storage.cp }

/-! ## Packing -/

def polyT1Pack (a : Poly) : List UInt8 :=
  (List.range 320).map fun index =>
    let c := fun offset => a.coeff (4 * (index / 5) + offset)
    match index % 5 with
    | 0 => u8 (c 0)
    | 1 => u8 (Int.lor (sar (c 0) 8) (shl (c 1) 2))
    | 2 => u8 (Int.lor (sar (c 1) 6) (shl (c 2) 4))
    | 3 => u8 (Int.lor (sar (c 2) 4) (shl (c 3) 6))
    | _ => u8 (sar (c 3) 2)

def packPkVolatile (rho : List UInt8) (t1 : InternalStorage → PolyVecK) :
    NvmProgram Unit := do
  Program.update fun storage =>
    { storage with pk := writeBytes 0 rho storage.pk }
  Program.forRows 8 fun b =>
    Program.update fun storage =>
      { storage with
        pk := writeBytes (32 + b * 320) (polyT1Pack (t1 storage)[b]) storage.pk }

def polyW1Pack (a : Poly) : List UInt8 :=
  (List.range 128).map fun j =>
    u8 (Int.lor (a.coeff (2 * j)) (shl (a.coeff (2 * j + 1)) 4))

/-- Packs into the first bytes of `sig`. -/
def polyVecKPackW1Volatile (w1 : InternalStorage → PolyVecK) :
    NvmProgram Unit :=
  Program.forRows 8 fun i =>
    Program.update fun storage =>
      { storage with
        sig := writeBytes (i * 128) (polyW1Pack (w1 storage)[i]) storage.sig }

/-- Packs into `pack1.buf_verify`. -/
def polyVecKPackW1VolatileVerify (w1 : InternalStorage → PolyVecK) :
    NvmProgram Unit :=
  Program.forRows 8 fun i =>
    Program.update fun storage =>
      { storage with
        pack1 := storage.pack1.set 0
          (writePolyBytes (i * 128) (polyW1Pack (w1 storage)[i])
            storage.pack1[(0 : Fin 8)]) zero_lt_rows }

def polyZPack (a : Poly) : List UInt8 :=
  (List.range 640).map fun index =>
    let t0 := u32 (i32 (gamma1 - a.coeff (2 * (index / 5))))
    let t1 := u32 (i32 (gamma1 - a.coeff (2 * (index / 5) + 1)))
    match index % 5 with
    | 0 => UInt8.ofNat t0
    | 1 => UInt8.ofNat (t0 >>> 8)
    | 2 => UInt8.ofNat (t0 >>> 16) ||| UInt8.ofNat (t1 <<< 4)
    | 3 => UInt8.ofNat (t1 >>> 4)
    | _ => UInt8.ofNat (t1 >>> 12)

/-- The inner loop of the hint encoding: a position is stored for every
non-zero coefficient, and the running count after each coefficient. -/
def packHintRow (h : Poly) (i : Nat) (state : List UInt8 × Nat) :
    List UInt8 × Nat :=
  (List.range 256).foldl (fun (temp, k) j =>
    let (temp, k) :=
      if h.coeff j ≠ 0 then (temp.set k (UInt8.ofNat j), k + 1) else (temp, k)
    (temp.set (75 + i) (UInt8.ofNat k), k)) state

def packHints (h : PolyVecK) : List UInt8 :=
  ((List.finRange 8).foldl (fun state (i : Fin 8) => packHintRow h[i] i state)
    (List.replicate 83 0, 0)).1

/-- `pack_sig_volatile` with `sigb_len` equal to `CRYPTO_BYTES`. -/
def packSigVolatile (c : List UInt8) (z : InternalStorage → PolyVecL)
    (h : InternalStorage → PolyVecK) : NvmProgram Unit := do
  Program.update fun storage =>
    { storage with sig := writeBytes 0 c storage.sig }
  Program.forRows 7 fun b =>
    Program.update fun storage =>
      { storage with
        sig := writeBytes (64 + b * 640) (polyZPack (z storage)[b]) storage.sig }
  Program.update fun storage =>
    { storage with
      sig := writeBytes 4544 (List.replicate 83 0) storage.sig }
  Program.update fun storage =>
    { storage with
      sig := writeBytes 4544 (packHints (h storage)) storage.sig }

/-! ## Unpacking -/

/-- The positions `positions` of row `i`, which starts at `k` in the list. -/
def unpackPositions (h : Region InternalStorage PolyVecK) (sig : List UInt8)
    (i : Fin 8) (k : Nat) : List Nat → NvmProgram Bool
  | [] => pure true
  | j :: rest =>
      -- positions in a row have to increase
      if j > k ∧ byteAt sig (4544 + j) ≤ byteAt sig (4544 + j - 1) then
        pure false
      else do
        Program.update fun storage =>
          h.setRow i
            ((h.read storage)[i].assign (byteAt sig (4544 + j)) 1) storage
        unpackPositions h sig i k rest

/-- The hint rows; the result is the last end index, or nothing when the
encoding is refused. -/
def unpackHintRows (h : Region InternalStorage PolyVecK) (sig : List UInt8) :
    List (Fin 8) → (k : Nat) → NvmProgram (Option Nat)
  | [], k => pure (some k)
  | i :: rest, k => do
      Program.update fun storage => h.setRow i Poly.zero storage
      let last := byteAt sig (4544 + 75 + i)
      if last < k ∨ last > 75 then pure none
      else do
        let ordered ← unpackPositions h sig i k (List.range' k (last - k))
        if ordered then unpackHintRows h sig rest last else pure none

/-- Whether the signature is accepted (the source returns 0). Its first 64
bytes are copied out by the caller. -/
def unpackSigVolatile (z : Region InternalStorage PolyVecL)
    (h : Region InternalStorage PolyVecK) (sig : List UInt8) :
    NvmProgram Bool := do
  writeRows z fun b _ => polyZUnpack (sig.drop (64 + b * 640))
  let used ← unpackHintRows h sig (List.finRange 8) 0
  match used with
  | none => pure false
  | some k => pure ((List.range' k (75 - k)).all fun j => byteAt sig (4544 + j) = 0)

end LedgerQrl.Mldsa87
