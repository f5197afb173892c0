import LedgerQrl.Mldsa87.ChallengeSampling
import LedgerQrl.Mldsa87.Halting

namespace LedgerQrl.Mldsa87

open Foundation Poly

/-! # Samplers on arbitrary streams

On a stream with enough accepted items each loop stops, and holds what the stream
prescribes. Where a `Shake` has the stream, its samplers hold the same. -/

/-! ## A stream that climbs

Its bytes count up from 120. The first block has 25 nibbles that are not accepted, so
that the last accepted one is found in the second, in the lower half of a byte. -/

def climbing (position : ℕ) : UInt8 := UInt8.ofNat (position + 120)

theorem length_acceptedNibbles_climbing :
    (acceptedNibbles climbing 272).length = 247 ∧
      (acceptedNibbles climbing 281).length = 256 := by
  decide +kernel

theorem enough_climbing : 256 ≤ (acceptedNibbles climbing 281).length := by
  rw [length_acceptedNibbles_climbing.2]

theorem findsIndices_climbing : FindsIndices climbing := by
  apply findsIndices_of_small
  intro pos
  refine ⟨256 * pos + 136, by omega, ?_⟩
  have zero : (climbing (256 * pos + 136)).toNat = 0 := by
    rw [climbing, UInt8.toNat_ofNat']
    omega
  rw [zero]
  exact Nat.zero_le _

def climbingShake : Shake where
  shake128 := fun _ _ => 0
  shake256 := fun _ => climbing
  uniformHalts := uniformHalts_zero
  etaHalts := fun a seed nonce =>
    @etaHalts_of_enough (fun _ => climbing) seed nonce 281 enough_climbing a
  challengeHalts := fun _ => challengeHalts_of_finds findsIndices_climbing

/-! ## Secret polynomials -/

/-- Sampling follows the stream of nibbles, whatever the polynomial held; the polynomials
and the rows of `Shake` are sampled so. -/
theorem polyUniformEta_follows {xof : Xof} {seed : List UInt8} {nonce count : ℕ}
    (enough : 256 ≤ (acceptedNibbles (xof (seed ++ nonceBytes nonce)) count).length)
    (a : Poly) :
    ∃ (halts : Halts etaUnfinished etaRefill (etaStart xof a seed nonce))
      (logHalts : Halts etaUnfinishedInto (etaRefillInto logAssign)
        (etaStartInto logAssign xof [] seed nonce)),
      FollowsNibbles (xof (seed ++ nonceBytes nonce)) count a (whileLoop _ _ _ halts).poly
          (whileLoop _ _ _ logHalts).store ∧
        ∀ shake : Shake, shake.shake256 = xof →
          shake.polyUniformEta a seed nonce = (whileLoop _ _ _ halts).poly ∧
          ∀ (rows : ℕ) (v : Vector Poly rows) (first : ℕ) (i : Fin rows),
            v[i] = a → (first + i) % 65536 = nonce →
              (shake.polyVecUniformEta v seed first)[i] = (whileLoop _ _ _ halts).poly := by
  obtain ⟨intoHalts, stored⟩ := etaInto_run a enough
  obtain ⟨logHalts, logged⟩ := etaInto_run [] enough
  have halts := intoHalts.simulates SameEta (sameEta_start xof a seed nonce)
    SameEta.condition fun into state same _ => same.refill
  have same := whileLoop_simulates SameEta intoHalts halts (sameEta_start xof a seed nonce)
    SameEta.condition fun into state same _ => same.refill
  refine ⟨halts, logHalts, ?_, ?_⟩
  · rw [same.1, stored, logged]
    exact followsNibbles_fillFrom enough a
  · intro shake equal
    subst equal
    refine ⟨rfl, fun rows v first i row number => ?_⟩
    subst row number
    rw [Shake.polyVecUniformEta, getElem_index, Vector.getElem_ofFn]
    rfl

/-- The climbing stream needs its second block. -/
theorem polyUniformEta_follows_climbing :
    (acceptedNibbles climbing (2 * shake256Rate)).length < 256 ∧
      ∃ logHalts : Halts etaUnfinishedInto (etaRefillInto logAssign)
        (etaStartInto logAssign (fun _ => climbing) [] (List.replicate 64 7) 1),
        FollowsNibbles climbing 281 Poly.zero
            (climbingShake.polyUniformEta Poly.zero (List.replicate 64 7) 1)
            (whileLoop _ _ _ logHalts).store ∧
          (climbingShake.polyVecLUniformEta (Vector.replicate 7 Poly.zero)
              (List.replicate 64 7) 0)[1] =
            climbingShake.polyUniformEta Poly.zero (List.replicate 64 7) 1 := by
  constructor
  · exact length_acceptedNibbles_climbing.1.trans_lt (by decide)
  · obtain ⟨halts, logHalts, follows, sampled⟩ :=
      @polyUniformEta_follows (fun _ => climbing) (List.replicate 64 7) 1 281
        enough_climbing Poly.zero
    obtain ⟨poly, row⟩ := sampled climbingShake rfl
    refine ⟨logHalts, ?_, ?_⟩
    · rw [poly]
      exact follows
    · rw [poly]
      exact row 7 (Vector.replicate 7 Poly.zero) 0 1 (Vector.getElem_replicate _) rfl

/-! ## Challenges -/

/-- Both functions store the challenge of the stream, whatever the polynomial held. -/
theorem polyChallenge_shuffles {xof : Xof} {seed : List UInt8} (length : seed.length = 64)
    (finds : FindsIndices (xof seed)) (c : Poly) :
    ∃ halts : Halts challengeUnfinished challengeStep (challengeStartOn xof c seed),
      ChallengeOf (xof seed) (whileLoop _ _ _ halts).poly ∧
        polyChallenge xof c seed halts = some (whileLoop _ _ _ halts).poly ∧
        ∀ shake : Shake, shake.shake256 = xof →
          ∀ (seedOf : InternalStorage → List UInt8) (storage : InternalStorage),
            seedOf storage = seed →
              (polyChallengeVolatile shake seedOf).finish storage =
                { storage with cp := (whileLoop _ _ _ halts).poly } := by
  have start := challengeStartOn_eq xof c seed
  have halts : Halts challengeUnfinished challengeStep (challengeStartOn xof c seed) := by
    rw [start]
    exact challengeHalts_of_finds finds
  have challenge : ChallengeOf (xof seed) (whileLoop _ _ _ halts).poly := by
    revert halts
    rw [start]
    intro halts
    rcases shuffled_run halts with ⟨pos, shuffled⟩
    exact shuffled.challengeOf
  refine ⟨halts, challenge, if_neg (not_not_intro length), ?_⟩
  intro shake equal seedOf storage held
  subst equal
  obtain ⟨pos, shuffled⟩ := (challengeOf_polyChallenge shake seed).shuffled
  rw [polyChallengeVolatile, Program.finish_update, held, challenge.unique pos _ shuffled]

theorem polyChallenge_shuffles_climbing :
    ∃ halts : Halts challengeUnfinished challengeStep
        (challengeStartOn (fun _ => climbing) Poly.zero (List.replicate 64 7)),
      ChallengeOf climbing (whileLoop _ _ _ halts).poly ∧
        polyChallenge (fun _ => climbing) Poly.zero (List.replicate 64 7) halts =
          some (whileLoop _ _ _ halts).poly ∧
        ∀ storage : InternalStorage,
          (polyChallengeVolatile climbingShake fun _ => List.replicate 64 7).finish storage =
            { storage with cp := (whileLoop _ _ _ halts).poly } := by
  obtain ⟨halts, challenge, whole, volatile⟩ :=
    @polyChallenge_shuffles (fun _ => climbing) (List.replicate 64 7) List.length_replicate
      findsIndices_climbing Poly.zero
  exact ⟨halts, challenge, whole, fun storage => volatile climbingShake rfl _ storage rfl⟩

end LedgerQrl.Mldsa87
