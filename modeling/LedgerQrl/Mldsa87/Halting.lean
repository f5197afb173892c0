import LedgerQrl.Mldsa87.SampledRange
import LedgerQrl.Mldsa87.Sign

namespace LedgerQrl.Mldsa87

open Foundation

/-! # Streams on which the samplers stop

Streams of bytes that every sampler accepts make a `Shake` whatever they depend
on. -/

private theorem uniformCandidate_zero : uniformCandidate 0 0 0 = 0 := by decide

theorem rejUniform_full {ctr : ℕ} (full : 256 ≤ ctr) (a : Poly) :
    ∀ bytes : List UInt8, rejUniform bytes a ctr = (a, ctr)
  | [] => by rw [rejUniform]; simp
  | [_] => by rw [rejUniform]; simp
  | [_, _] => by rw [rejUniform]; simp
  | _ :: _ :: _ :: _ => by rw [rejUniform, if_neg (by omega)]

theorem rejUniform_zero (rest : List UInt8) : ∀ (count : ℕ) (a : Poly) (ctr : ℕ),
    256 ≤ ctr + count →
      256 ≤ (rejUniform (List.replicate (3 * count) 0 ++ rest) a ctr).2
  | 0, a, ctr, enough => by
      rw [rejUniform_full (by omega)]
      exact enough
  | count + 1, a, ctr, enough => by
      have split : List.replicate (3 * (count + 1)) (0 : UInt8) ++ rest =
          0 :: 0 :: 0 :: (List.replicate (3 * count) 0 ++ rest) := rfl
      rw [split, rejUniform]
      by_cases room : ctr < 256
      · rw [if_pos room, uniformCandidate_zero, if_pos (by decide)]
        exact rejUniform_zero rest count _ _ (by omega)
      · rw [if_neg room]
        omega

structure AcceptedByte (byte : UInt8) : Prop where
  nibble : byte.toNat &&& 0x0F < 15
  bound : byte.toNat ≤ 256 - tau

theorem acceptedByte_zero : AcceptedByte 0 := ⟨by decide, by decide⟩

theorem rejEta_accepted : ∀ (bytes : List UInt8) (a : Poly) (ctr : ℕ),
    (∀ byte ∈ bytes, AcceptedByte byte) → 256 ≤ ctr + 2 * bytes.length →
      256 ≤ (rejEta bytes a ctr).2
  | [], a, ctr, _, enough => by simpa [rejEta] using enough
  | byte :: rest, a, ctr, accepted, enough => by
      have first := accepted byte List.mem_cons_self
      have others := fun other member => accepted other (List.mem_cons_of_mem byte member)
      have bound := first.bound
      have high : byte.toNat >>> 4 < 15 := by
        rw [tau] at bound
        rw [Nat.shiftRight_eq_div_pow]
        omega
      rw [List.length_cons] at enough
      rw [rejEta]
      by_cases room : ctr < 256
      · rw [if_pos room]
        dsimp only
        rw [if_pos first.nibble]
        dsimp only
        by_cases second : ctr + 1 < 256
        · rw [if_pos ⟨high, second⟩]
          exact rejEta_accepted rest _ _ others (by omega)
        · rw [if_neg (fun both => second both.2)]
          exact rejEta_accepted rest _ _ others (by omega)
      · rw [if_neg room]
        omega

theorem forall_bytesFrom {holds : UInt8 → Prop} {stream : ℕ → UInt8}
    (each : ∀ position, holds (stream position)) (outlen : ℕ) :
    ∀ position, ∀ byte ∈ ShakeCtx.bytesFrom stream position outlen, holds byte := by
  induction outlen with
  | zero => simp [ShakeCtx.bytesFrom]
  | succ outlen induction =>
      intro position byte member
      rw [ShakeCtx.bytesFrom] at member
      rcases List.mem_cons.mp member with rfl | member
      · exact each position
      · exact induction (position + 1) byte member

theorem byteAt_accepted {buf : List UInt8} (accepted : ∀ byte ∈ buf, AcceptedByte byte)
    (index : ℕ) : byteAt buf index ≤ 256 - tau := by
  rw [byteAt]
  rcases Nat.lt_or_ge index buf.length with bound | beyond
  · rw [List.getElem?_eq_getElem bound, Option.getD_some]
    exact (accepted _ (List.getElem_mem bound)).bound
  · rw [List.getElem?_eq_none beyond]
    exact acceptedByte_zero.bound

theorem bytesFrom_const (byte : UInt8) (outlen : ℕ) : ∀ position,
    ShakeCtx.bytesFrom (fun _ => byte) position outlen = List.replicate outlen byte := by
  induction outlen with
  | zero => exact fun _ => rfl
  | succ outlen induction =>
      intro position
      rw [ShakeCtx.bytesFrom, induction, List.replicate_succ]

section Accepted

variable {xof : Xof} (accepted : ∀ input position, AcceptedByte (xof input position))

theorem uniformUnfinished_ofScan (scanned : Poly × ℕ) (buf : List UInt8) (bufLen : ℕ)
    (ctx : ShakeCtx) :
    uniformUnfinished (.ofScan scanned buf bufLen ctx) = decide (scanned.2 < 256) := rfl

theorem uniformUnfinished_zero (rho : List UInt8) (i j : ℕ) :
    uniformUnfinished (uniformStart (fun _ _ => 0) rho i j) = false := by
  have zeros : List.replicate (polyUniformBytes + 2) (0 : UInt8) =
      List.replicate (3 * 256) 0 ++ List.replicate 74 0 := by
    rw [List.replicate_append_replicate]
    rfl
  rw [uniformStart]
  simp only [uniformUnfinished_ofScan, ShakeCtx.squeeze, ShakeCtx.finalized,
    bytesFrom_const, zeros, decide_eq_false_iff_not, Nat.not_lt]
  exact rejUniform_zero _ 256 _ 0 (Nat.le_refl _)

theorem uniformHalts_zero (rho : List UInt8) (i j : ℕ) :
    Halts uniformUnfinished uniformRefill (uniformStart (fun _ _ => 0) rho i j) :=
  halts_of_stopped (uniformUnfinished_zero rho i j)

include accepted

theorem etaUnfinished_accepted (a : Poly) (seed : List UInt8) (nonce : ℕ) :
    etaUnfinished (etaStart xof a seed nonce) = false := by
  rw [etaUnfinished, etaStart]
  have scanned := rejEta_accepted
    ((ShakeCtx.finalized xof (seed ++ nonceBytes nonce)).squeeze shake256Rate).1 a 0
    (forall_bytesFrom (accepted _) _ _) (by rw [length_squeeze]; decide)
  exact decide_eq_false (Nat.not_lt.mpr scanned)

theorem etaHalts_accepted (a : Poly) (seed : List UInt8) (nonce : ℕ) :
    Halts etaUnfinished etaRefill (etaStart xof a seed nonce) :=
  halts_of_stopped (etaUnfinished_accepted accepted a seed nonce)

theorem challengeHalts_accepted (seed : List UInt8) :
    Halts challengeUnfinished challengeStep (challengeStart xof seed) := by
  apply halts_of_measure (fun state => 256 - state.i) (fun state =>
    256 - tau ≤ state.i ∧ (∀ byte ∈ state.buf, AcceptedByte byte) ∧
      ∀ position, AcceptedByte (state.ctx.stream position))
  · intro state running holds
    have unfinished : state.i < 256 := by simpa [challengeUnfinished] using running
    have filled : (challengeFill state).i = state.i ∧
        (∀ byte ∈ (challengeFill state).buf, AcceptedByte byte) ∧
        ∀ position, AcceptedByte ((challengeFill state).ctx.stream position) := by
      rw [challengeFill]
      split
      · exact ⟨rfl, forall_bytesFrom holds.2.2 _ _, holds.2.2⟩
      · exact ⟨rfl, holds.2⟩
    have byte := byteAt_accepted filled.2.1 (challengeFill state).pos
    have placed : ¬ byteAt (challengeFill state).buf (challengeFill state).pos >
        (challengeFill state).i := by
      rw [filled.1]
      omega
    rw [challengeStep]
    dsimp only
    rw [if_neg placed]
    dsimp only
    rw [filled.1]
    exact ⟨⟨by omega, filled.2⟩, by omega⟩
  · exact ⟨Nat.le_refl _, forall_bytesFrom (accepted _) _ _, accepted _⟩

omit accepted

/-- Zero matrices and any function to accepted bytes. -/
def acceptedShake (xof : Xof) (accepted : ∀ input position, AcceptedByte (xof input position)) :
    Shake where
  shake128 := fun _ _ => 0
  shake256 := xof
  uniformHalts := uniformHalts_zero
  etaHalts := etaHalts_accepted accepted
  challengeHalts := challengeHalts_accepted accepted

end Accepted

/-! ## Zero samples -/

theorem zero_assign (ctr : ℕ) : Poly.zero.assign ctr 0 = Poly.zero := by
  rw [Poly.zero, Poly.assign]
  ext index bound
  simp

theorem rejUniform_zero_poly : ∀ (bytes : List UInt8) (ctr : ℕ),
    (∀ byte ∈ bytes, byte = 0) → (rejUniform bytes Poly.zero ctr).1 = Poly.zero
  | [], ctr, _ => by rw [rejUniform]; simp
  | [_], ctr, _ => by rw [rejUniform]; simp
  | [_, _], ctr, _ => by rw [rejUniform]; simp
  | low :: middle :: high :: rest, ctr, zeros => by
      obtain rfl := zeros low (by simp)
      obtain rfl := zeros middle (by simp)
      obtain rfl := zeros high (by simp)
      rw [rejUniform, uniformCandidate_zero]
      split
      · dsimp only
        rw [if_pos (by decide), Int.natCast_zero, zero_assign]
        exact rejUniform_zero_poly rest _ fun byte member => zeros byte (by simp [member])
      · rfl

theorem ofScan_poly (scanned : Poly × ℕ) (buf : List UInt8) (bufLen : ℕ)
    (ctx : ShakeCtx) : (UniformState.ofScan scanned buf bufLen ctx).poly = scanned.1 := rfl

theorem matrixEntry_acceptedShake {xof : Xof}
    (accepted : ∀ input position, AcceptedByte (xof input position)) (rho : List UInt8)
    (i j : ℕ) : (acceptedShake xof accepted).matrixEntry rho i j = Poly.zero := by
  have stopped : whileLoop uniformUnfinished uniformRefill
      (uniformStart (fun _ _ => 0) rho i j) (uniformHalts_zero rho i j) =
        uniformStart (fun _ _ => 0) rho i j :=
    whileLoop_of_stopped _ (uniformUnfinished_zero rho i j)
  change (whileLoop uniformUnfinished uniformRefill
    (uniformStart (fun _ _ => 0) rho i j) (uniformHalts_zero rho i j)).poly = Poly.zero
  rw [stopped, uniformStart]
  simp only [ofScan_poly, ShakeCtx.squeeze, ShakeCtx.finalized, bytesFrom_const]
  exact rejUniform_zero_poly _ 0 fun byte member => List.eq_of_mem_replicate member

theorem acceptedByte_two : AcceptedByte 34 := ⟨by decide, by decide⟩

/-- Both nibbles of the byte `0x22` are the coefficient zero. -/
theorem rejEta_zero_poly : ∀ (bytes : List UInt8) (ctr : ℕ),
    (∀ byte ∈ bytes, byte = 34) → (rejEta bytes Poly.zero ctr).1 = Poly.zero
  | [], ctr, _ => by rw [rejEta]
  | byte :: rest, ctr, const => by
      obtain rfl := const byte (by simp)
      have nibble : etaCoefficient 2 = 0 := by decide
      have rest_const : ∀ byte ∈ rest, byte = 34 :=
        fun byte member => const byte (by simp [member])
      rw [rejEta]
      by_cases room : ctr < 256
      · rw [if_pos room]
        simp only [show (34 : UInt8).toNat &&& 0x0F = 2 by decide,
          show (34 : UInt8).toNat >>> 4 = 2 by decide, nibble, zero_assign,
          show 2 < 15 by decide, if_true, true_and]
        split
        · exact rejEta_zero_poly rest _ rest_const
        · exact rejEta_zero_poly rest _ rest_const
      · rw [if_neg room]

def zeroDerivation : Derivation := fun _ => some (Vector.replicate 64 0)

/-- A constant stream of `0x22`: the secret polynomials are zero. -/
def constantShake : Shake := acceptedShake (fun _ _ => 34) fun _ _ => acceptedByte_two

theorem polyUniformEta_constantShake (seed : List UInt8) (nonce : ℕ) :
    constantShake.polyUniformEta Poly.zero seed nonce = Poly.zero := by
  have unfinished := etaUnfinished_accepted (fun _ _ => acceptedByte_two) Poly.zero seed
    nonce
  have stopped : whileLoop etaUnfinished etaRefill
      (etaStart (fun _ _ => 34) Poly.zero seed nonce)
      (etaHalts_accepted (fun _ _ => acceptedByte_two) Poly.zero seed nonce) =
        etaStart (fun _ _ => 34) Poly.zero seed nonce :=
    whileLoop_of_stopped _ unfinished
  change (whileLoop etaUnfinished etaRefill (etaStart (fun _ _ => 34) Poly.zero seed nonce)
    (etaHalts_accepted (fun _ _ => acceptedByte_two) Poly.zero seed nonce)).poly = _
  have const : ∀ byte ∈ ((ShakeCtx.finalized (fun _ _ => 34)
      (seed ++ nonceBytes nonce)).squeeze shake256Rate).1, byte = 34 := by
    intro byte member
    simp only [ShakeCtx.squeeze, ShakeCtx.finalized, bytesFrom_const] at member
    exact List.eq_of_mem_replicate member
  rw [stopped, etaStart]
  exact rejEta_zero_poly _ 0 const

end LedgerQrl.Mldsa87
