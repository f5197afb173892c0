import LedgerQrl.Foundation.Loop
import LedgerQrl.Mldsa87.Poly

namespace LedgerQrl.Mldsa87

open Foundation

/-! # Sampling from SHAKE streams

The two extendable-output functions are any functions from an input and a
position to a byte. The samplers read them sequentially; that their loops stop
is part of the structure `Shake`. -/

/-- An extendable-output function: input, position, byte. -/
abbrev Xof := List UInt8 → Nat → UInt8

/-- A finalized context: the stream of its input and how far it is squeezed. -/
structure ShakeCtx where
  stream : Nat → UInt8
  position : Nat

namespace ShakeCtx

def finalized (xof : Xof) (input : List UInt8) : ShakeCtx where
  stream := xof input
  position := 0

def bytesFrom (stream : Nat → UInt8) : (position outlen : Nat) → List UInt8
  | _, 0 => []
  | position, outlen + 1 =>
      stream position :: bytesFrom stream (position + 1) outlen

/-- The bytes of `squeeze`, and the context after it. -/
def squeeze (ctx : ShakeCtx) (outlen : Nat) : List UInt8 × ShakeCtx :=
  (bytesFrom ctx.stream ctx.position outlen,
    { ctx with position := ctx.position + outlen })

end ShakeCtx

/-- `init`, `absorb`, `finalize`, one `squeeze` and `clear`. -/
def shakeOnce (xof : Xof) (input : List UInt8) (outlen : Nat) : List UInt8 :=
  ((ShakeCtx.finalized xof input).squeeze outlen).1

@[simp] theorem length_bytesFrom (stream : Nat → UInt8) (outlen : Nat) :
    ∀ position, (ShakeCtx.bytesFrom stream position outlen).length = outlen := by
  induction outlen with
  | zero => exact fun _ => rfl
  | succ outlen induction =>
      intro position
      rw [ShakeCtx.bytesFrom, List.length_cons, induction]

@[simp] theorem length_squeeze (ctx : ShakeCtx) (outlen : Nat) :
    (ctx.squeeze outlen).1.length = outlen := by
  simp [ShakeCtx.squeeze]

@[simp] theorem length_shakeOnce (xof : Xof) (input : List UInt8)
    (outlen : Nat) : (shakeOnce xof input outlen).length = outlen :=
  length_squeeze _ _

def byteAt (buf : List UInt8) (index : Nat) : Nat :=
  (buf[index]?.getD 0).toNat

theorem byteAt_lt (buf : List UInt8) (index : Nat) : byteAt buf index < 256 :=
  UInt8.toNat_lt _

def nonceBytes (nonce : Nat) : List UInt8 :=
  [UInt8.ofNat nonce, UInt8.ofNat (nonce >>> 8)]

/-! ## The matrix entries of `combined_method` -/

def uniformCandidate (low middle high : UInt8) : Nat :=
  (low.toNat ||| middle.toNat <<< 8 ||| high.toNat <<< 16) &&& 0x7fffff

/-- The scanning loop: accepted candidates are stored from `ctr` on, until the
polynomial is full or fewer than three bytes are left. -/
def rejUniform : List UInt8 → Poly → (ctr : Nat) → Poly × Nat
  | low :: middle :: high :: rest, a, ctr =>
      if ctr < 256 then
        let t := uniformCandidate low middle high
        if (t : Int) < qConst then rejUniform rest (a.assign ctr t) (ctr + 1)
        else rejUniform rest a ctr
      else (a, ctr)
  | _, a, ctr => (a, ctr)

structure UniformState where
  poly : Poly
  ctr : Nat
  buf : List UInt8
  bufLen : Nat
  ctx : ShakeCtx

def UniformState.ofScan (scanned : Poly × Nat) (buf : List UInt8)
    (bufLen : Nat) (ctx : ShakeCtx) : UniformState where
  poly := scanned.1
  ctr := scanned.2
  buf := buf
  bufLen := bufLen
  ctx := ctx

/-- Up to the refill loop: the first squeeze is two bytes longer than the
length the refill loop continues with. -/
def uniformStart (xof : Xof) (rho : List UInt8) (i j : Nat) : UniformState :=
  let nonce := (i <<< 8 + j) % 65536
  let ctx := ShakeCtx.finalized xof (rho ++ nonceBytes nonce)
  let squeezed := ctx.squeeze (polyUniformBytes + 2)
  .ofScan (rejUniform squeezed.1 Poly.zero 0) squeezed.1 polyUniformBytes
    squeezed.2

def uniformUnfinished (state : UniformState) : Bool := state.ctr < 256

def uniformRefill (state : UniformState) : UniformState :=
  let off := state.bufLen % 3
  let kept := (state.buf.drop (state.bufLen - off)).take off
  let squeezed := state.ctx.squeeze shake128Rate
  let buf := kept ++ squeezed.1
  .ofScan (rejUniform buf state.poly state.ctr) buf (shake128Rate + off)
    squeezed.2

/-! ## `poly_uniform_eta` -/

def etaCoefficient (t : Nat) : Int :=
  i32 (2 - ((t - (205 * t) >>> 10 * 5 : Nat) : Int))

def rejEta : List UInt8 → Poly → (ctr : Nat) → Poly × Nat
  | byte :: rest, a, ctr =>
      if ctr < 256 then
        let t0 := byte.toNat &&& 0x0F
        let t1 := byte.toNat >>> 4
        let first :=
          if t0 < 15 then (a.assign ctr (etaCoefficient t0), ctr + 1)
          else (a, ctr)
        let second :=
          if t1 < 15 ∧ first.2 < 256 then
            (first.1.assign first.2 (etaCoefficient t1), first.2 + 1)
          else first
        rejEta rest second.1 second.2
      else (a, ctr)
  | [], a, ctr => (a, ctr)

structure EtaState where
  poly : Poly
  ctr : Nat
  ctx : ShakeCtx

def EtaState.ofScan (scanned : Poly × Nat) (ctx : ShakeCtx) : EtaState where
  poly := scanned.1
  ctr := scanned.2
  ctx := ctx

def etaStart (xof : Xof) (a : Poly) (seed : List UInt8) (nonce : Nat) :
    EtaState :=
  let ctx := ShakeCtx.finalized xof (seed ++ nonceBytes nonce)
  let squeezed := ctx.squeeze shake256Rate
  .ofScan (rejEta squeezed.1 a 0) squeezed.2

def etaUnfinished (state : EtaState) : Bool := state.ctr < 256

def etaRefill (state : EtaState) : EtaState :=
  let squeezed := state.ctx.squeeze shake256Rate
  .ofScan (rejEta squeezed.1 state.poly state.ctr) squeezed.2

/-! ## `poly_challenge_volatile`

The loop over `i` and the `while` loop inside it are one loop here: a round
reads one byte and either skips it or places a coefficient and advances `i`. -/

structure ChallengeState where
  i : Nat
  pos : Nat
  signs : Nat
  buf : List UInt8
  ctx : ShakeCtx
  poly : Poly

def challengeStart (xof : Xof) (seed : List UInt8) : ChallengeState :=
  let squeezed := (ShakeCtx.finalized xof seed).squeeze shake256Rate
  { i := 256 - tau
    pos := 8
    signs := (List.range 8).foldl (fun signs i =>
      signs ||| byteAt squeezed.1 i <<< (8 * i)) 0
    buf := squeezed.1
    ctx := squeezed.2
    poly := Poly.zero }

def challengeUnfinished (state : ChallengeState) : Bool := state.i < 256

def challengeFill (state : ChallengeState) : ChallengeState :=
  if state.pos ≥ shake256Rate then
    let squeezed := state.ctx.squeeze shake256Rate
    { state with buf := squeezed.1, ctx := squeezed.2, pos := 0 }
  else state

def challengeStep (state : ChallengeState) : ChallengeState :=
  let state := challengeFill state
  let b := byteAt state.buf state.pos
  let state := { state with pos := state.pos + 1 }
  if b > state.i then state
  else
    let poly := state.poly.assign state.i (state.poly.coeff b)
    { state with
      poly := poly.assign b (1 - 2 * ((state.signs &&& 1 : Nat) : Int))
      signs := state.signs >>> 1
      i := state.i + 1 }

/-! ## SHAKE with samplers that stop -/

/-- The two functions, with streams on which every sampler stops. -/
structure Shake where
  shake128 : Xof
  shake256 : Xof
  uniformHalts : ∀ rho i j,
    Halts uniformUnfinished uniformRefill (uniformStart shake128 rho i j)
  etaHalts : ∀ a seed nonce,
    Halts etaUnfinished etaRefill (etaStart shake256 a seed nonce)
  challengeHalts : ∀ seed,
    Halts challengeUnfinished challengeStep (challengeStart shake256 seed)

namespace Shake

variable (shake : Shake)

/-- The row `i`, column `j` polynomial that `combined_method` samples. -/
def matrixEntry (rho : List UInt8) (i j : Nat) : Poly :=
  (whileLoop _ _ _ (shake.uniformHalts rho i j)).poly

/-- `poly_uniform_eta` on a polynomial that holds `a` before. -/
def polyUniformEta (a : Poly) (seed : List UInt8) (nonce : Nat) : Poly :=
  (whileLoop _ _ _ (shake.etaHalts a seed nonce)).poly

/-- The loop of `poly_vec_l_uniform_eta` and `poly_vec_k_uniform_eta`. -/
def polyVecUniformEta {rows : Nat} (v : Vector Poly rows) (seed : List UInt8)
    (nonce : Nat) : Vector Poly rows :=
  Vector.ofFn fun i => shake.polyUniformEta v[i] seed ((nonce + i) % 65536)

def polyVecLUniformEta (v : PolyVecL) (seed : List UInt8) (nonce : Nat) :
    PolyVecL :=
  shake.polyVecUniformEta v seed nonce

def polyVecKUniformEta (v : PolyVecK) (seed : List UInt8) (nonce : Nat) :
    PolyVecK :=
  shake.polyVecUniformEta v seed nonce

/-- The polynomial that `poly_challenge_volatile` stores. -/
def polyChallenge (seed : List UInt8) : Poly :=
  (whileLoop _ _ _ (shake.challengeHalts seed)).poly

end Shake

/-! ## `poly_z_unpack` and the masking polynomials -/

/-- The pair of 20-bit fields in five bytes from `5 * i` on. -/
def zFields (buf : List UInt8) (i : Nat) : Nat × Nat :=
  ((byteAt buf (5 * i) ||| byteAt buf (5 * i + 1) <<< 8 |||
      byteAt buf (5 * i + 2) <<< 16) &&& 0xFFFFF,
    byteAt buf (5 * i + 2) >>> 4 ||| byteAt buf (5 * i + 3) <<< 4 |||
      byteAt buf (5 * i + 4) <<< 12)

def polyZUnpack (buf : List UInt8) : Poly :=
  Vector.ofFn fun index =>
    let fields := zFields buf (index / 2)
    gamma1 - (if index.val % 2 = 0 then fields.1 else fields.2 : Nat)

/-- The row `j` that `poly_vec_l_uniform_gamma1_volatile` samples. -/
def polyUniformGamma1 (xof : Xof) (seed : List UInt8) (nonce j : Nat) : Poly :=
  let nonceVal := (7 * nonce + j) % 65536
  polyZUnpack (shakeOnce xof (seed ++ nonceBytes nonceVal) 680)

end LedgerQrl.Mldsa87
