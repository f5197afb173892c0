import LedgerQrl.Foundation.Packing
import LedgerQrl.Mldsa87.Product
import LedgerQrl.Mldsa87.Rounding
import LedgerQrl.Mldsa87.Sign

namespace LedgerQrl.Mldsa87.Spec

open Foundation
open scoped BigOperators

/-! # What the three functions are for

ML-DSA-87 over the ring `Z_q[X] / (X^256 + 1)`, with exact products and
mathematical packing. Only the samplers are those of the code. -/

noncomputable def element (value : ℕ → ℤ) : Rq :=
  Negacyclic.ofCoeffs fun n => (value n : Zq)

/-- The element whose transform `combined_method` samples. -/
noncomputable def matrix (shake : Shake) (rho : List UInt8) (i : Fin 8) (j : Fin 7) :
    Rq :=
  ofLeaves (shake.matrixEntry rho i j)

noncomputable def times (shake : Shake) (rho : List UInt8) (v : Fin 7 → Rq)
    (i : Fin 8) : Rq :=
  ∑ j, matrix shake rho i j * v j

/-- Every coefficient of a vector in `width` bits. -/
def packRows {rows : ℕ} (width : ℕ) (fields : Fin rows → ℕ → ℕ) : List UInt8 :=
  (List.finRange rows).flatMap fun i => bitPack width (fields i) 256

/-! ## Keys -/

noncomputable def secretL (shake : Shake) (rhoPrime : List UInt8) (j : Fin 7) : Rq :=
  (shake.polyUniformEta Poly.zero rhoPrime j).toRq

noncomputable def secretK (shake : Shake) (rhoPrime : List UInt8) (i : Fin 8) : Rq :=
  (shake.polyUniformEta Poly.zero rhoPrime (7 + i)).toRq

noncomputable def keyVector (shake : Shake) (expanded : ExpandedSeed) (i : Fin 8) :
    Rq :=
  times shake expanded.rho (secretL shake expanded.rhoPrime) i +
    secretK shake expanded.rhoPrime i

noncomputable def keyHigh (shake : Shake) (expanded : ExpandedSeed) (i : Fin 8)
    (n : ℕ) : ℤ :=
  (power2Round (Negacyclic.coeff (keyVector shake expanded i) n)).1

noncomputable def keyLow (shake : Shake) (expanded : ExpandedSeed) (i : Fin 8)
    (n : ℕ) : ℤ :=
  (power2Round (Negacyclic.coeff (keyVector shake expanded i) n)).2

noncomputable def publicKey (shake : Shake) (seed : Vector UInt8 32) : List UInt8 :=
  let expanded := expandSeed shake seed
  expanded.rho ++ packRows 10 fun i n => (keyHigh shake expanded i n).toNat

/-! ## Hints -/

abbrev Hints := Fin 8 → ℕ → Bool

def rowPositions (hints : ℕ → Bool) : List ℕ :=
  (List.range 256).filter hints

/-- The positions in the first `count` rows. -/
def positions (hints : Hints) (count : ℕ) : List ℕ :=
  ((List.finRange 8).take count).flatMap fun i => rowPositions (hints i)

def hintCount (hints : Hints) : ℕ := (positions hints 8).length

/-- The positions, unused bytes, and the end index of each row. -/
def hintEncode (hints : Hints) : List UInt8 :=
  ((positions hints 8).map UInt8.ofNat ++ List.replicate (75 - hintCount hints) 0) ++
    (List.finRange 8).map fun (i : Fin 8) => UInt8.ofNat (positions hints (i + 1)).length

def hintEnd (bytes : List UInt8) (i : ℕ) : ℕ := byteAt bytes (75 + i)

def hintStart (bytes : List UInt8) : (i : ℕ) → ℕ
  | 0 => 0
  | i + 1 => hintEnd bytes i

structure WellFormedHints (bytes : List UInt8) : Prop where
  ends : ∀ i < 8, hintStart bytes i ≤ hintEnd bytes i ∧ hintEnd bytes i ≤ 75
  increasing : ∀ i < 8, ∀ j, hintStart bytes i < j → j < hintEnd bytes i →
    byteAt bytes (j - 1) < byteAt bytes j
  unused : ∀ j, hintEnd bytes 7 ≤ j → j < 75 → byteAt bytes j = 0

def hintAt (bytes : List UInt8) : Hints := fun i n =>
  (List.range' (hintStart bytes i) (hintEnd bytes i - hintStart bytes i)).any
    fun j => byteAt bytes j = n

/-! ## Messages and commitments -/

def digest (shake : Shake) (pk message : List UInt8) : List UInt8 :=
  shakeOnce shake.shake256
    (shakeOnce shake.shake256 pk 64 ++ [0, 8] ++ ctx ++ message) 64

def w1Encode (w1 : Fin 8 → ℕ → ℤ) : List UInt8 :=
  packRows 4 fun i n => (w1 i n).toNat

def commitmentHash (shake : Shake) (mu : List UInt8) (w1 : Fin 8 → ℕ → ℤ) :
    List UInt8 :=
  shakeOnce shake.shake256 (mu ++ w1Encode w1) 64

noncomputable def challenge (shake : Shake) (ctilde : List UInt8) : Rq :=
  (shake.polyChallenge ctilde).toRq

/-! ## Verification -/

def publicHigh (pk : List UInt8) (i : Fin 8) (n : ℕ) : ℤ :=
  bitField 10 (pk.drop (32 + i * 320)) n

/-- The coefficients of `z` in a signature. -/
def responseAt (sig : List UInt8) (j : Fin 7) (n : ℕ) : ℤ :=
  gamma1 - bitField 20 (sig.drop (64 + j * 640)) n

/-- `A * z - c * t1 * 2^13`. -/
noncomputable def verifyVector (shake : Shake) (pk sig : List UInt8) (i : Fin 8) : Rq :=
  times shake (pk.take 32) (fun j => element (responseAt sig j)) i -
    challenge shake (sig.take 64) * element (publicHigh pk i) * 2 ^ 13

/-- The verification equation. -/
def Verifies (shake : Shake) (pk sig message : List UInt8) : Prop :=
  WellFormedHints (sig.drop 4544) ∧
    (∀ j, ∀ n < 256, |responseAt sig j n| < gamma1 - beta) ∧
    sig.take 64 = commitmentHash shake (digest shake pk message) fun i n =>
      useHint (hintAt (sig.drop 4544) i n)
        (Negacyclic.coeff (verifyVector shake pk sig i) n)

/-! ## Signing -/

/-- What an attempt depends on. -/
structure Signer where
  shake : Shake
  rho : List UInt8
  mu : List UInt8
  rhoPrime : List UInt8
  s1 : Fin 7 → Rq
  s2 : Fin 8 → Rq
  t0 : Fin 8 → ℕ → ℤ

noncomputable def signer (shake : Shake) (seed rnd : Vector UInt8 32)
    (message : List UInt8) : Signer :=
  let expanded := expandSeed shake seed
  let mu := digest shake (publicKey shake seed) message
  { shake := shake
    rho := expanded.rho
    mu := mu
    rhoPrime := shakeOnce shake.shake256 (expanded.key ++ rnd.toList ++ mu) 64
    s1 := secretL shake expanded.rhoPrime
    s2 := secretK shake expanded.rhoPrime
    t0 := keyLow shake expanded }

/-- Every centred coefficient is below `bound` in absolute value. -/
def NormLt (p : Rq) (bound : ℤ) : Prop :=
  ∀ n < 256, |(Negacyclic.coeff p n).valMinAbs| < bound

namespace Signer

variable (signer : Signer) (k : ℕ)

noncomputable def mask (j : Fin 7) : Rq :=
  element fun n => gamma1 - bitField 20
    (shakeOnce signer.shake.shake256 (signer.rhoPrime ++ nonceBytes (7 * k + j)) 680) n

noncomputable def commitment (i : Fin 8) : Rq :=
  times signer.shake signer.rho (signer.mask k) i

noncomputable def high (i : Fin 8) (n : ℕ) : ℤ :=
  (decompose (Negacyclic.coeff (signer.commitment k i) n)).1

noncomputable def low (i : Fin 8) (n : ℕ) : ℤ :=
  (decompose (Negacyclic.coeff (signer.commitment k i) n)).2

noncomputable def ctilde : List UInt8 :=
  commitmentHash signer.shake signer.mu (signer.high k)

noncomputable def c : Rq := challenge signer.shake (signer.ctilde k)

noncomputable def response (j : Fin 7) : Rq :=
  signer.mask k j + signer.c k * signer.s1 j

noncomputable def residue (i : Fin 8) : Rq :=
  element (signer.low k i) - signer.c k * signer.s2 i

noncomputable def correction (i : Fin 8) : Rq :=
  signer.c k * element (signer.t0 i)

noncomputable def hints : Hints := fun i n =>
  makeHint (Negacyclic.coeff (signer.residue k i + signer.correction k i) n)
    (signer.high k i n)

/-- The attempt may be released. -/
structure Acceptable : Prop where
  response : ∀ j, NormLt (signer.response k j) (gamma1 - beta)
  residue : ∀ i, NormLt (signer.residue k i) (gamma2 - beta)
  correction : ∀ i, NormLt (signer.correction k i) gamma2
  hintCount : hintCount (signer.hints k) ≤ omegaMax

noncomputable def signature : List UInt8 :=
  signer.ctilde k ++
    packRows 20 (fun j n =>
      (gamma1 - (Negacyclic.coeff (signer.response k j) n).valMinAbs).toNat) ++
    hintEncode (signer.hints k)

end Signer

end LedgerQrl.Mldsa87.Spec
