import LedgerQrl.Foundation.Region
import LedgerQrl.Mldsa87.Sampling

namespace LedgerQrl.Mldsa87

open Foundation

/-! # The non-volatile storage

`N_storage` and the parts of it that the signing code writes. Every `nvm_write`
of the source is one update of the program; an interruption leaves the content
between two of them. -/

/-- `internal_storage_t`. The union `pack1` is the memory of its larger member
`t0`; `buf_verify` is the bytes of the first polynomial of it. -/
structure InternalStorage where
  t1 : PolyVecK
  w1 : PolyVecK
  w0 : PolyVecK
  h : PolyVecK
  y : PolyVecL
  z : PolyVecL
  cp : Poly
  pack1 : PolyVecK
  sig : Vector UInt8 4627
  pk : Vector UInt8 2592
  enableBlindSigning : UInt8
  displayNonce : UInt8
  displayTxHash : UInt8
  initialized : UInt8
  isSendingSignature : UInt8

abbrev NvmProgram := Program InternalStorage

/-- The storage of a fresh installation. -/
def InternalStorage.zeroed : InternalStorage where
  t1 := Vector.replicate 8 Poly.zero
  w1 := Vector.replicate 8 Poly.zero
  w0 := Vector.replicate 8 Poly.zero
  h := Vector.replicate 8 Poly.zero
  y := Vector.replicate 7 Poly.zero
  z := Vector.replicate 7 Poly.zero
  cp := Poly.zero
  pack1 := Vector.replicate 8 Poly.zero
  sig := Vector.replicate 4627 0
  pk := Vector.replicate 2592 0
  enableBlindSigning := 0
  displayNonce := 0
  displayTxHash := 0
  initialized := 0
  isSendingSignature := 0

namespace InternalStorage

def t1Region : Region InternalStorage PolyVecK where
  read storage := storage.t1
  write content storage := { storage with t1 := content }
  read_write _ _ := rfl
  write_read := Eq.refl
  write_write _ _ _ := rfl

def w1Region : Region InternalStorage PolyVecK where
  read storage := storage.w1
  write content storage := { storage with w1 := content }
  read_write _ _ := rfl
  write_read := Eq.refl
  write_write _ _ _ := rfl

def w0Region : Region InternalStorage PolyVecK where
  read storage := storage.w0
  write content storage := { storage with w0 := content }
  read_write _ _ := rfl
  write_read := Eq.refl
  write_write _ _ _ := rfl

def hRegion : Region InternalStorage PolyVecK where
  read storage := storage.h
  write content storage := { storage with h := content }
  read_write _ _ := rfl
  write_read := Eq.refl
  write_write _ _ _ := rfl

def yRegion : Region InternalStorage PolyVecL where
  read storage := storage.y
  write content storage := { storage with y := content }
  read_write _ _ := rfl
  write_read := Eq.refl
  write_write _ _ _ := rfl

def zRegion : Region InternalStorage PolyVecL where
  read storage := storage.z
  write content storage := { storage with z := content }
  read_write _ _ := rfl
  write_read := Eq.refl
  write_write _ _ _ := rfl

/-- `pack1.t0`. -/
def pack1Region : Region InternalStorage PolyVecK where
  read storage := storage.pack1
  write content storage := { storage with pack1 := content }
  read_write _ _ := rfl
  write_read := Eq.refl
  write_write _ _ _ := rfl

end InternalStorage

/-! ## Bytes in memory -/

/-- Replace the bytes of a memory from `offset` on. -/
def writeBytes {size : Nat} (offset : Nat) (bytes : List UInt8)
    (memory : Vector UInt8 size) : Vector UInt8 size :=
  Vector.ofFn fun index =>
    if offset ≤ index.val then
      (bytes[index.val - offset]?).getD memory[index]
    else memory[index]

/-- The four bytes of an `int32_t` in memory, least significant first. -/
def wordBytes (word : Int) : List UInt8 :=
  (List.range 4).map fun index => UInt8.ofNat (u32 word >>> (8 * index))

/-- The `int32_t` whose bytes in memory start at `offset`. -/
def wordOfBytes (bytes : List UInt8) (offset : Nat) : Int :=
  i32 ((List.range 4).foldr (fun index high =>
    byteAt bytes (offset + index) + 256 * high) 0 : Nat)

def polyBytes (a : Poly) : List UInt8 := a.toList.flatMap wordBytes

def polyOfBytes (bytes : List UInt8) : Poly :=
  Vector.ofFn fun index => wordOfBytes bytes (4 * index)

def writePolyBytes (offset : Nat) (bytes : List UInt8) (a : Poly) : Poly :=
  polyOfBytes ((polyBytes a).take offset ++ bytes ++
    (polyBytes a).drop (offset + bytes.length))

/-- The bytes of `pack1.buf_verify`. -/
def InternalStorage.bufVerify (storage : InternalStorage) : List UInt8 :=
  polyBytes storage.pack1[(0 : Fin 8)]

/-! ## Writing rows -/

/-- The loop over the polynomials of a vector: each round computes one
polynomial in memory and stores it with one write. -/
def writeRows {rows : Nat} (region : Region InternalStorage (Vector Poly rows))
    (row : Fin rows → InternalStorage → Poly) : NvmProgram Unit :=
  Program.forRows rows fun index =>
    Program.update fun storage =>
      region.setRow index (row index storage) storage

/-! ## Wiping -/

/-- `nvm_zero` on a polynomial vector: chunks of 256 bytes, that is 64
coefficients, so four chunks a polynomial. -/
def nvmZero {rows : Nat} (region : Region InternalStorage (Vector Poly rows)) :
    NvmProgram Unit :=
  Program.forRows rows fun index =>
    Program.forEach [0, 1, 2, 3] fun chunk =>
      Program.update fun storage =>
        region.setRow index
          (Vector.ofFn fun position =>
            if position.val / 64 = chunk then 0
            else (region.read storage)[index][position]) storage

def wipeNvmSecrets : NvmProgram Unit := do
  nvmZero InternalStorage.yRegion
  nvmZero InternalStorage.pack1Region
  nvmZero InternalStorage.w0Region

end LedgerQrl.Mldsa87
