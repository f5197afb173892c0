import LedgerQrl.Foundation.Index
import Mathlib.Data.List.Basic
import Mathlib.Data.Vector.Basic

namespace LedgerQrl.Mldsa87

/-! # Keccak-256

`keccak256.c`, over any function in the place of `keccakf`. -/

/-- `keccakf` on the words of the state. -/
abbrev Permutation := Vector UInt64 25 → Vector UInt64 25

structure Keccak256Ctx where
  s : Vector UInt64 25
  pos : Nat
  squeezing : Bool

def keccak256Rate : Nat := 136

namespace Keccak256Ctx

def init : Keccak256Ctx where
  s := Vector.replicate 25 0
  pos := 0
  squeezing := false

/-- `s[pos / 8] ^= byte << (8 * (pos % 8))`. -/
def xorByte (s : Vector UInt64 25) (pos : Nat) (byte : UInt8) : Vector UInt64 25 :=
  Vector.ofFn fun index =>
    if index.val = pos / 8 then
      s[index] ^^^ (byte.toUInt64 <<< UInt64.ofNat (8 * (pos % 8)))
    else s[index]

/-- The byte `(s[pos / 8] >> (8 * (pos % 8))) & 0xFF`. -/
def stateByte (s : Vector UInt64 25) (pos : Nat) : UInt8 :=
  ((s[pos / 8]?.getD 0 >>> UInt64.ofNat (8 * (pos % 8))) &&& 0xFF).toUInt8

def wrap (permutation : Permutation) (ctx : Keccak256Ctx) : Keccak256Ctx :=
  if ctx.pos = keccak256Rate then { ctx with s := permutation ctx.s, pos := 0 }
  else ctx

def absorb (permutation : Permutation) : List UInt8 → Keccak256Ctx → Keccak256Ctx
  | [], ctx => ctx
  | byte :: rest, ctx =>
      absorb permutation rest
        (wrap permutation { ctx with s := xorByte ctx.s ctx.pos byte, pos := ctx.pos + 1 })

def finalize (permutation : Permutation) (ctx : Keccak256Ctx) : Keccak256Ctx where
  s := permutation (xorByte (xorByte ctx.s ctx.pos 0x01) (keccak256Rate - 1) 0x80)
  pos := 0
  squeezing := true

/-- The loop of `keccak256_squeeze`. -/
def squeezeBytes (permutation : Permutation) :
    (outlen : Nat) → Keccak256Ctx → List UInt8 × Keccak256Ctx
  | 0, ctx => ([], ctx)
  | outlen + 1, ctx =>
      let rest := squeezeBytes permutation outlen
        (wrap permutation { ctx with pos := ctx.pos + 1 })
      (stateByte ctx.s ctx.pos :: rest.1, rest.2)

def squeeze (permutation : Permutation) (ctx : Keccak256Ctx) : List UInt8 × Keccak256Ctx :=
  squeezeBytes permutation 32
    (if ctx.squeezing then ctx else ctx.finalize permutation)

theorem length_squeezeBytes (permutation : Permutation) :
    ∀ (outlen : Nat) (ctx : Keccak256Ctx),
      (squeezeBytes permutation outlen ctx).1.length = outlen
  | 0, _ => rfl
  | outlen + 1, ctx => by
      rw [squeezeBytes, List.length_cons, length_squeezeBytes permutation outlen]

theorem length_squeeze (permutation : Permutation) (ctx : Keccak256Ctx) :
    (ctx.squeeze permutation).1.length = 32 :=
  length_squeezeBytes permutation 32 _

end Keccak256Ctx

def keccak256 (permutation : Permutation) (bytes : List UInt8) : Vector UInt8 32 :=
  let ctx := (Keccak256Ctx.absorb permutation bytes .init).finalize permutation
  ⟨(ctx.squeeze permutation).1.toArray, Keccak256Ctx.length_squeeze permutation ctx⟩

end LedgerQrl.Mldsa87
