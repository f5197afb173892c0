import LedgerQrl.Mldsa87.Ring
import LedgerQrl.Mldsa87.Sampling

namespace LedgerQrl.Mldsa87

open Foundation Poly

/-! # What the samplers return

The range of every sampled coefficient, and that a sampler which overwrites a
polynomial does not depend on what was in it. -/

def Reduced (a : Poly) : Prop :=
  ∀ index < 256, 0 ≤ a.coeff index ∧ a.coeff index < qConst

theorem Reduced.bounded {a : Poly} (reduced : Reduced a) : a.Bounded qConst := by
  intro index bound
  have range := reduced index bound
  rw [abs_of_nonneg range.1]
  exact range.2.le

theorem reduced_zero : Reduced Poly.zero := by
  intro index bound
  simp [Poly.zero, coeff, bound, qConst]

theorem rejUniform_reduced : ∀ (bytes : List UInt8) (a : Poly) (ctr : ℕ),
    Reduced a → Reduced (rejUniform bytes a ctr).1
  | [], a, ctr, reduced => by simpa only [rejUniform] using reduced
  | [_], a, ctr, reduced => by simpa only [rejUniform] using reduced
  | [_, _], a, ctr, reduced => by simpa only [rejUniform] using reduced
  | low :: middle :: high :: rest, a, ctr, reduced => by
      rw [rejUniform]
      generalize uniformCandidate low middle high = t
      by_cases room : ctr < 256
      · rw [if_pos room]
        by_cases accepted : (t : Int) < qConst
        · simp only [if_pos accepted]
          apply rejUniform_reduced rest
          intro index bound
          rw [coeff_assign _ _ room]
          split
          · exact ⟨Int.natCast_nonneg t, accepted⟩
          · exact reduced index bound
        · simp only [if_neg accepted]
          exact rejUniform_reduced rest a ctr reduced
      · rw [if_neg room]
        exact reduced

theorem UniformState.reduced_ofScan {scanned : Poly × ℕ} (buf : List UInt8)
    (bufLen : ℕ) (ctx : ShakeCtx) (reduced : Reduced scanned.1) :
    Reduced (UniformState.ofScan scanned buf bufLen ctx).poly :=
  reduced

theorem matrixEntry_reduced (shake : Shake) (rho : List UInt8) (i j : ℕ) :
    Reduced (shake.matrixEntry rho i j) := by
  have start : Reduced (uniformStart shake.shake128 rho i j).poly := by
    rw [uniformStart]
    exact UniformState.reduced_ofScan _ _ _
      (rejUniform_reduced _ _ _ reduced_zero)
  have invariant := whileLoop_invariant
    (fun state : UniformState => Reduced state.poly)
    (shake.uniformHalts rho i j) start (by
      intro state _ reduced
      rw [uniformRefill]
      exact UniformState.reduced_ofScan _ _ _
        (rejUniform_reduced _ _ _ reduced))
  exact invariant.1

theorem matrixEntry_bounded (shake : Shake) (rho : List UInt8) (i j : ℕ) :
    (shake.matrixEntry rho i j).Bounded qConst :=
  (matrixEntry_reduced shake rho i j).bounded

/-! ## Secret coefficients -/

/-- The first `ctr` coefficients have been sampled: they agree, and are
small. -/
def SampledTogether (ctr : ℕ) (a b : Poly) : Prop :=
  ∀ index < ctr, a.coeff index = b.coeff index ∧ |a.coeff index| ≤ 2

theorem etaCoefficient_abs_le : ∀ t < 15, |etaCoefficient t| ≤ 2 := by
  decide

theorem SampledTogether.assign {ctr : ℕ} {a b : Poly}
    (together : SampledTogether ctr a b) (room : ctr < 256) {value : Int}
    (small : |value| ≤ 2) :
    SampledTogether (ctr + 1) (a.assign ctr value) (b.assign ctr value) := by
  intro index bound
  rw [coeff_assign _ _ room, coeff_assign _ _ room]
  split
  · exact ⟨rfl, small⟩
  · exact together index (by omega)

theorem rejEta_together :
    ∀ (bytes : List UInt8) (a b : Poly) (ctr : ℕ), SampledTogether ctr a b →
      (rejEta bytes a ctr).2 = (rejEta bytes b ctr).2 ∧
        SampledTogether (rejEta bytes a ctr).2 (rejEta bytes a ctr).1
          (rejEta bytes b ctr).1 := by
  intro bytes
  induction bytes with
  | nil => exact fun a b ctr together => ⟨rfl, together⟩
  | cons byte rest induction =>
      intro a b ctr together
      rw [rejEta, rejEta]
      by_cases room : ctr < 256
      · simp only [if_pos room]
        -- the low nibble, then the high nibble
        by_cases first : byte.toNat &&& 0x0F < 15
        · have step := together.assign room (etaCoefficient_abs_le _ first)
          simp only [if_pos first]
          by_cases second : byte.toNat >>> 4 < 15 ∧ ctr + 1 < 256
          · simp only [if_pos second]
            exact induction _ _ _
              (step.assign second.2 (etaCoefficient_abs_le _ second.1))
          · simp only [if_neg second]
            exact induction _ _ _ step
        · simp only [if_neg first]
          by_cases second : byte.toNat >>> 4 < 15 ∧ ctr < 256
          · simp only [if_pos second]
            exact induction _ _ _
              (together.assign room (etaCoefficient_abs_le _ second.1))
          · simp only [if_neg second]
            exact induction _ _ _ together
      · simp only [if_neg room]
        exact ⟨trivial, together⟩

structure EtaTogether (left right : EtaState) : Prop where
  ctr : left.ctr = right.ctr
  ctx : left.ctx = right.ctx
  sampled : SampledTogether left.ctr left.poly right.poly

theorem etaTogether_start (xof : Xof) (a b : Poly) (seed : List UInt8) (nonce : ℕ) :
    EtaTogether (etaStart xof a seed nonce) (etaStart xof b seed nonce) := by
  have start := rejEta_together
    ((ShakeCtx.finalized xof (seed ++ nonceBytes nonce)).squeeze shake256Rate).1 a b 0
    (fun index bound => absurd bound (Nat.not_lt_zero _))
  exact ⟨start.1, rfl, start.2⟩

theorem EtaTogether.condition (left right : EtaState) (together : EtaTogether left right) :
    etaUnfinished left = etaUnfinished right := by
  rw [etaUnfinished, etaUnfinished, together.ctr]

theorem EtaTogether.refill (left right : EtaState) (together : EtaTogether left right) :
    EtaTogether (etaRefill left) (etaRefill right) := by
  have scanned := rejEta_together (left.ctx.squeeze shake256Rate).1 left.poly right.poly
    left.ctr together.sampled
  rw [together.ctr, together.ctx] at scanned
  rw [etaRefill, etaRefill, together.ctr, together.ctx]
  exact ⟨scanned.1, rfl, scanned.2⟩

private theorem polyUniformEta_together (shake : Shake) (a b : Poly)
    (seed : List UInt8) (nonce : ℕ) :
    SampledTogether 256 (shake.polyUniformEta a seed nonce)
      (shake.polyUniformEta b seed nonce) := by
  have related := whileLoop_simulates EtaTogether (shake.etaHalts a seed nonce)
    (shake.etaHalts b seed nonce) (etaTogether_start shake.shake256 a b seed nonce)
    EtaTogether.condition fun left right together _ => together.refill
  have finished := (whileLoop_invariant (fun _ : EtaState => True)
    (shake.etaHalts a seed nonce) trivial (fun _ _ _ => trivial)).2
  intro index bound
  apply related.sampled
  rw [etaUnfinished, decide_eq_false_iff_not] at finished
  omega

theorem polyUniformEta_overwrites (shake : Shake) (a b : Poly)
    (seed : List UInt8) (nonce : ℕ) :
    shake.polyUniformEta a seed nonce = shake.polyUniformEta b seed nonce :=
  ext_coeff fun index bound =>
    (polyUniformEta_together shake a b seed nonce index bound).1

theorem polyUniformEta_bounded (shake : Shake) (a : Poly) (seed : List UInt8)
    (nonce : ℕ) : (shake.polyUniformEta a seed nonce).Bounded 2 :=
  fun index bound => (polyUniformEta_together shake a a seed nonce index bound).2

theorem polyVecUniformEta_bounded {rows : ℕ} (shake : Shake) (v : Vector Poly rows)
    (seed : List UInt8) (nonce : ℕ) (i : Fin rows) :
    (shake.polyVecUniformEta v seed nonce)[i].Bounded 2 := by
  rw [Shake.polyVecUniformEta, getElem_index, Vector.getElem_ofFn]
  exact polyUniformEta_bounded shake _ _ _

/-! ## The challenge and the masking polynomials -/

theorem polyChallenge_bounded (shake : Shake) (seed : List UInt8) :
    (shake.polyChallenge seed).Bounded 1 := by
  have invariant := whileLoop_invariant
    (fun state : ChallengeState => state.poly.Bounded 1)
    (shake.challengeHalts seed)
    (fun index bound => by
      simp [challengeStart, Poly.zero, coeff, bound])
    (by
      intro state running bounded
      have filled : (challengeFill state).poly = state.poly ∧
          (challengeFill state).i = state.i := by
        rw [challengeFill]
        split <;> exact ⟨rfl, rfl⟩
      have inRange : state.i < 256 := by
        rwa [challengeUnfinished, decide_eq_true_eq] at running
      rw [challengeStep]
      simp only [filled.1, filled.2]
      split
      · exact bounded
      · rename_i chosen
        have sign : ∀ bit : ℕ, bit &&& 1 = 0 ∨ bit &&& 1 = 1 := by
          intro bit
          rw [Nat.and_one_is_mod]
          omega
        intro index bound
        rw [coeff_assign _ _ (by omega), coeff_assign _ _ inRange]
        split
        · rcases sign (challengeFill state).signs with bit | bit <;>
            rw [bit] <;> decide
        · split
          · exact bounded _ (by omega)
          · exact bounded index bound)
  exact invariant.1

theorem zFields_lt (buf : List UInt8) (i : ℕ) :
    (zFields buf i).1 < 1048576 ∧ (zFields buf i).2 < 1048576 := by
  constructor
  · exact Nat.and_lt_two_pow (n := 20) _ (by norm_num)
  · have low := byteAt_lt buf (5 * i + 2)
    have middle := byteAt_lt buf (5 * i + 3)
    have high := byteAt_lt buf (5 * i + 4)
    rw [zFields]
    refine Nat.or_lt_two_pow (n := 20) (Nat.or_lt_two_pow ?_ ?_) ?_
    · rw [Nat.shiftRight_eq_div_pow]
      omega
    · rw [Nat.shiftLeft_eq]
      omega
    · rw [Nat.shiftLeft_eq]
      omega

theorem polyZUnpack_range (buf : List UInt8) :
    ∀ index < 256, -gamma1 < (polyZUnpack buf).coeff index ∧
      (polyZUnpack buf).coeff index ≤ gamma1 := by
  intro index bound
  have fields := zFields_lt buf (index / 2)
  rw [polyZUnpack, coeff_ofFn _ bound, gamma1]
  dsimp only
  split <;> omega

theorem polyZUnpack_bounded (buf : List UInt8) :
    (polyZUnpack buf).Bounded gamma1 := by
  intro index bound
  have range := polyZUnpack_range buf index bound
  rw [abs_le]
  omega

end LedgerQrl.Mldsa87
