import LedgerQrl.Foundation.Guarded
import LedgerQrl.Mldsa87.Sign

namespace LedgerQrl.Mldsa87

open Foundation

/-! # SHAKE as arbitrary functions

On arbitrary streams a sampler may run forever. Here it is given up after a
number of rounds, which may differ from stream to stream. -/

/-- The two functions, and the rounds that are allowed on the stream of an
input. -/
structure Streams where
  shake128 : Xof
  shake256 : Xof
  rounds : List UInt8 → Nat

namespace Streams

variable (streams : Streams)

def matrixEntry (rho : List UInt8) (i j : Nat) : Option Poly :=
  (loopFor uniformUnfinished uniformRefill
    (streams.rounds (rho ++ nonceBytes ((i <<< 8 + j) % 65536)))
    (uniformStart streams.shake128 rho i j)).map fun state => state.poly

def polyUniformEta (a : Poly) (seed : List UInt8) (nonce : Nat) : Option Poly :=
  (loopFor etaUnfinished etaRefill (streams.rounds (seed ++ nonceBytes nonce))
    (etaStart streams.shake256 a seed nonce)).map fun state => state.poly

def polyVecUniformEta {rows : Nat} (v : Vector Poly rows) (seed : List UInt8)
    (nonce : Nat) : Option (Vector Poly rows) :=
  collect fun i => streams.polyUniformEta v[i] seed ((nonce + i) % 65536)

/-- The polynomial that `poly_challenge_volatile` stores, unless it is given
up. -/
def polyChallenge (seed : List UInt8) : Option Poly :=
  (loopFor challengeUnfinished challengeStep (streams.rounds seed)
    (challengeStart streams.shake256 seed)).map fun state => state.poly

def expandSeed (seed : Vector UInt8 32) : ExpandedSeed :=
  let ctx := ShakeCtx.finalized streams.shake256 (seed.toList ++ [8, 7])
  let rho := ctx.squeeze 32
  let rhoPrime := rho.2.squeeze 64
  let key := rhoPrime.2.squeeze 32
  { rho := rho.1, rhoPrime := rhoPrime.1, key := key.1 }

def messageDigest (pk message : List UInt8) : List UInt8 :=
  let tr := shakeOnce streams.shake256 pk 64
  shakeOnce streams.shake256 (tr ++ messagePre ++ message) 64

/-- The streams give what `shake` gives, except that a sampler may be given up
when `early` holds. -/
structure Underlies (early : Prop) (streams : Streams) (shake : Shake) : Prop where
  matrixEntry : ∀ rho i j,
    streams.matrixEntry rho i j = some (shake.matrixEntry rho i j) ∨
      (early ∧ streams.matrixEntry rho i j = none)
  polyUniformEta : ∀ a seed nonce,
    streams.polyUniformEta a seed nonce = some (shake.polyUniformEta a seed nonce) ∨
      (early ∧ streams.polyUniformEta a seed nonce = none)
  polyChallenge : ∀ seed,
    streams.polyChallenge seed = some (shake.polyChallenge seed) ∨
      (early ∧ streams.polyChallenge seed = none)
  shakeOnce : ∀ input outlen, outlen ≤ 680 →
    Mldsa87.shakeOnce streams.shake256 input outlen =
      Mldsa87.shakeOnce shake.shake256 input outlen
  expandSeed : ∀ seed, streams.expandSeed seed = Mldsa87.expandSeed shake seed

section Underlies

variable {early : Prop} {streams : Streams} {shake : Shake}

theorem Underlies.polyVecUniformEta (underlies : Underlies early streams shake)
    {rows : ℕ} (v : Vector Poly rows) (seed : List UInt8) (nonce : ℕ) :
    streams.polyVecUniformEta v seed nonce =
        some (shake.polyVecUniformEta v seed nonce) ∨
      (early ∧ streams.polyVecUniformEta v seed nonce = none) := by
  by_cases complete : ∀ i : Fin rows,
      streams.polyUniformEta v[i] seed ((nonce + i) % 65536) =
        some (shake.polyUniformEta v[i] seed ((nonce + i) % 65536))
  · exact Or.inl (collect_eq complete)
  · obtain ⟨i, missing⟩ := not_forall.mp complete
    have stopped := (underlies.polyUniformEta v[i] seed ((nonce + i) % 65536)).resolve_left
      missing
    exact Or.inr ⟨stopped.1, collect_eq_none stopped.2⟩

theorem Underlies.messageDigest (underlies : Underlies early streams shake)
    (pk message : List UInt8) :
    streams.messageDigest pk message = Mldsa87.messageDigest shake pk message := by
  have first := underlies.shakeOnce pk 64 (by norm_num)
  rw [Streams.messageDigest, Mldsa87.messageDigest]
  rw [first, underlies.shakeOnce _ 64 (by norm_num)]

end Underlies

end Streams

end LedgerQrl.Mldsa87
