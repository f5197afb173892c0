import LedgerQrl.Mldsa87.ChallengeSampling
import LedgerQrl.Mldsa87.Streams
import LedgerQrl.Mldsa87.UniformSampling

namespace LedgerQrl.Mldsa87

open Foundation

/-! # Streams that are cut off

A sampler that is given up has read a part of its stream only. With zeros behind
that part it would have stopped, so a run on arbitrary streams is a run on
streams on which every sampler stops. -/

/-- Zeros from `limit` on. -/
def cutStream (limit : ℕ) (stream : ℕ → UInt8) (position : ℕ) : UInt8 :=
  if position < limit then stream position else 0

theorem cutStream_zero {limit position : ℕ} (stream : ℕ → UInt8)
    (beyond : limit ≤ position) : cutStream limit stream position = 0 :=
  if_neg (Nat.not_lt.mpr beyond)

/-! ## Contexts -/

theorem bytesFrom_congr {first second : ℕ → UInt8} (outlen : ℕ) : ∀ position,
    (∀ index < position + outlen, first index = second index) →
      ShakeCtx.bytesFrom first position outlen =
        ShakeCtx.bytesFrom second position outlen := by
  induction outlen with
  | zero => exact fun _ _ => rfl
  | succ outlen induction =>
      intro position agree
      rw [ShakeCtx.bytesFrom, ShakeCtx.bytesFrom, agree position (by omega),
        induction (position + 1) fun index bound => agree index (by omega)]

/-- The contexts have squeezed as much, and give the same for `more` bytes. -/
structure ShakeCtx.Agree (more : ℕ) (first second : ShakeCtx) : Prop where
  position : first.position = second.position
  stream : ∀ index < first.position + more, first.stream index = second.stream index

section Contexts

variable {more outlen : ℕ} {first second : ShakeCtx}

theorem ShakeCtx.Agree.bytes (agree : ShakeCtx.Agree more first second)
    (within : outlen ≤ more) : (first.squeeze outlen).1 = (second.squeeze outlen).1 := by
  rw [ShakeCtx.squeeze, ShakeCtx.squeeze, ← agree.position]
  exact bytesFrom_congr outlen _ fun index bound => agree.stream index (by omega)

theorem ShakeCtx.Agree.squeeze {rest : ℕ} (agree : ShakeCtx.Agree more first second)
    (within : outlen + rest ≤ more) :
    ShakeCtx.Agree rest (first.squeeze outlen).2 (second.squeeze outlen).2 where
  position := by
    simp only [ShakeCtx.squeeze, agree.position]
  stream := by
    intro index bound
    apply agree.stream
    simp only [ShakeCtx.squeeze] at bound
    omega

theorem agree_finalized {limit : ℕ} (xof other : Xof) (input : List UInt8)
    (same : other input = cutStream limit (xof input)) :
    ShakeCtx.Agree limit (ShakeCtx.finalized xof input) (ShakeCtx.finalized other input) where
  position := rfl
  stream := by
    intro index bound
    have within : index < limit := by simpa [ShakeCtx.finalized] using bound
    simp only [ShakeCtx.finalized, same, cutStream, if_pos within]

end Contexts

/-! ## A budget of rounds reads a part of the stream -/

section Cut

variable {xof other : Xof} {input : List UInt8} {budget : ℕ}

def cutLimit (rounds : ℕ) : ℕ := 842 + 168 * rounds

structure UniformAgree (rounds : ℕ) (first second : UniformState) : Prop where
  poly : first.poly = second.poly
  ctr : first.ctr = second.ctr
  buf : first.buf = second.buf
  bufLen : first.bufLen = second.bufLen
  ctx : ShakeCtx.Agree (168 * rounds) first.ctx second.ctx

theorem UniformAgree.refill {rounds : ℕ} {first second : UniformState}
    (agree : UniformAgree (rounds + 1) first second) :
    UniformAgree rounds (uniformRefill first) (uniformRefill second) := by
  have bytes := agree.ctx.bytes (show shake128Rate ≤ 168 * (rounds + 1) by
    rw [shake128Rate]
    omega)
  have rest := agree.ctx.squeeze (show shake128Rate + 168 * rounds ≤ 168 * (rounds + 1) by
    rw [shake128Rate]
    omega)
  rw [uniformRefill, uniformRefill, agree.poly, agree.ctr, agree.buf, agree.bufLen, bytes]
  exact ⟨rfl, rfl, rfl, rfl, rest⟩

theorem uniform_cut (rho : List UInt8) (i j : ℕ)
    (same : other (rho ++ nonceBytes ((i <<< 8 + j) % 65536)) =
      cutStream (cutLimit budget) (xof (rho ++ nonceBytes ((i <<< 8 + j) % 65536)))) :
    (loopFor uniformUnfinished uniformRefill budget
        (uniformStart xof rho i j)).map UniformState.poly =
      (loopFor uniformUnfinished uniformRefill budget
        (uniformStart other rho i j)).map UniformState.poly := by
  apply loopFor_map_eq UniformAgree
  · intro rounds first second agree
    rw [uniformUnfinished, uniformUnfinished, agree.ctr]
  · exact fun agree => agree.poly
  · exact fun agree => agree.refill
  · have whole := agree_finalized xof other _ same
    have first : polyUniformBytes + 2 = 842 := rfl
    have bytes := whole.bytes (show polyUniformBytes + 2 ≤ cutLimit budget by
      rw [cutLimit, first]
      omega)
    have rest := whole.squeeze
      (show polyUniformBytes + 2 + 168 * budget ≤ cutLimit budget by
        rw [cutLimit, first])
    rw [uniformStart, uniformStart]
    rw [bytes]
    exact ⟨rfl, rfl, rfl, rfl, rest⟩

structure EtaAgree (rounds : ℕ) (first second : EtaState) : Prop where
  poly : first.poly = second.poly
  ctr : first.ctr = second.ctr
  ctx : ShakeCtx.Agree (136 * rounds) first.ctx second.ctx

theorem EtaAgree.refill {rounds : ℕ} {first second : EtaState}
    (agree : EtaAgree (rounds + 1) first second) :
    EtaAgree rounds (etaRefill first) (etaRefill second) := by
  have bytes := agree.ctx.bytes (show shake256Rate ≤ 136 * (rounds + 1) by
    rw [shake256Rate]
    omega)
  have rest := agree.ctx.squeeze (show shake256Rate + 136 * rounds ≤ 136 * (rounds + 1) by
    rw [shake256Rate]
    omega)
  rw [etaRefill, etaRefill, agree.poly, agree.ctr, bytes]
  exact ⟨rfl, rfl, rest⟩

theorem eta_cut (a : Poly) (seed : List UInt8) (nonce : ℕ)
    (same : other (seed ++ nonceBytes nonce) =
      cutStream (cutLimit budget) (xof (seed ++ nonceBytes nonce))) :
    (loopFor etaUnfinished etaRefill budget
        (etaStart xof a seed nonce)).map EtaState.poly =
      (loopFor etaUnfinished etaRefill budget
        (etaStart other a seed nonce)).map EtaState.poly := by
  apply loopFor_map_eq EtaAgree
  · intro rounds first second agree
    rw [etaUnfinished, etaUnfinished, agree.ctr]
  · exact fun agree => agree.poly
  · exact fun agree => agree.refill
  · have whole := agree_finalized xof other _ same
    have bytes := whole.bytes (show shake256Rate ≤ cutLimit budget by
      rw [cutLimit, shake256Rate]
      omega)
    have rest := whole.squeeze (show shake256Rate + 136 * budget ≤ cutLimit budget by
      rw [cutLimit, shake256Rate]
      omega)
    rw [etaStart, etaStart]
    rw [bytes]
    exact ⟨rfl, rfl, rest⟩

structure ChallengeAgree (rounds : ℕ) (first second : ChallengeState) : Prop where
  i : first.i = second.i
  pos : first.pos = second.pos
  signs : first.signs = second.signs
  buf : first.buf = second.buf
  poly : first.poly = second.poly
  ctx : ShakeCtx.Agree (136 * rounds) first.ctx second.ctx

theorem ChallengeAgree.fill {rounds : ℕ} {first second : ChallengeState}
    (agree : ChallengeAgree (rounds + 1) first second) :
    ChallengeAgree rounds (challengeFill first) (challengeFill second) := by
  have bytes := agree.ctx.bytes (show shake256Rate ≤ 136 * (rounds + 1) by
    rw [shake256Rate]
    omega)
  have rest := agree.ctx.squeeze (show shake256Rate + 136 * rounds ≤ 136 * (rounds + 1) by
    rw [shake256Rate]
    omega)
  have kept : ShakeCtx.Agree (136 * rounds) first.ctx second.ctx :=
    ⟨agree.ctx.position, fun index bound => agree.ctx.stream index (by omega)⟩
  rw [challengeFill, challengeFill, agree.pos]
  split
  · exact ⟨agree.i, rfl, agree.signs, bytes, agree.poly, rest⟩
  · exact ⟨agree.i, agree.pos, agree.signs, agree.buf, agree.poly, kept⟩

theorem ChallengeAgree.step {rounds : ℕ} {first second : ChallengeState}
    (agree : ChallengeAgree (rounds + 1) first second) :
    ChallengeAgree rounds (challengeStep first) (challengeStep second) := by
  have filled := agree.fill
  rw [challengeStep, challengeStep]
  generalize challengeFill first = left at filled ⊢
  generalize challengeFill second = right at filled ⊢
  dsimp only
  rw [filled.i, filled.pos, filled.buf, filled.poly, filled.signs]
  split
  · exact ⟨rfl, rfl, rfl, rfl, rfl, filled.ctx⟩
  · exact ⟨rfl, rfl, rfl, rfl, rfl, filled.ctx⟩

theorem challenge_cut (same : other input = cutStream (cutLimit budget) (xof input)) :
    (loopFor challengeUnfinished challengeStep budget
        (challengeStart xof input)).map ChallengeState.poly =
      (loopFor challengeUnfinished challengeStep budget
        (challengeStart other input)).map ChallengeState.poly := by
  apply loopFor_map_eq ChallengeAgree
  · intro rounds first second agree
    rw [challengeUnfinished, challengeUnfinished, agree.i]
  · exact fun agree => agree.poly
  · exact fun agree => agree.step
  · have whole := agree_finalized xof other _ same
    have bytes := whole.bytes (show shake256Rate ≤ cutLimit budget by
      rw [cutLimit, shake256Rate]
      omega)
    have rest := whole.squeeze (show shake256Rate + 136 * budget ≤ cutLimit budget by
      rw [cutLimit, shake256Rate]
      omega)
    rw [challengeStart, challengeStart]
    rw [bytes]
    exact ⟨rfl, rfl, rfl, rfl, rfl, rest⟩

end Cut

/-! ## Streams that end in zeros -/

section Halting

variable {xof : Xof} {input : List UInt8} {limit : ℕ}

theorem bytesFrom_zero {stream : ℕ → UInt8}
    (zeros : ∀ position, limit ≤ position → stream position = 0) (outlen : ℕ) :
    ∀ {position}, limit ≤ position →
      ShakeCtx.bytesFrom stream position outlen = List.replicate outlen 0 := by
  induction outlen with
  | zero => exact fun _ => rfl
  | succ outlen induction =>
      intro position beyond
      rw [ShakeCtx.bytesFrom, List.replicate_succ, zeros position beyond,
        induction (Nat.le_succ_of_le beyond)]

theorem rejUniform_ctr (bytes : List UInt8) (a : Poly) {ctr : ℕ} (room : ctr < 256) :
    (rejUniform bytes a ctr).2 = ctr + min (256 - ctr) (blockCandidates bytes).length := by
  rw [scans_rejUniform bytes a ctr room.le, List.length_take, List.length_map]

theorem blockCandidates_zeros {kept : List UInt8} (few : kept.length < 3) (outlen : ℕ) :
    0 < (blockCandidates (kept ++ List.replicate (outlen + 6) 0)).length := by
  have zero : uniformCandidate 0 0 0 = 0 := by decide
  have accepted : ((0 : ℕ) : Int) < qConst := by decide
  have found : ∀ count, 0 < (blockCandidates (List.replicate (count + 3) 0)).length := by
    intro count
    rw [List.replicate_succ, List.replicate_succ, List.replicate_succ, blockCandidates, zero,
      if_pos accepted, List.length_cons]
    exact Nat.succ_pos _
  have later : ∀ low middle high count, 0 < (blockCandidates
      (low :: middle :: high :: List.replicate (count + 3) 0)).length := by
    intro low middle high count
    rw [blockCandidates]
    split
    · exact Nat.succ_pos _
    · exact found count
  rcases kept with _ | ⟨low, _ | ⟨middle, _ | ⟨high, rest⟩⟩⟩
  · exact found (outlen + 3)
  · exact later low 0 0 (outlen + 1)
  · exact later low middle 0 (outlen + 2)
  · simp only [List.length_cons] at few
    omega

theorem uniformHalts_zeros (rho : List UInt8) (i j : ℕ)
    (zeros : ∀ position, limit ≤ position →
      xof (rho ++ nonceBytes ((i <<< 8 + j) % 65536)) position = 0) :
    Halts uniformUnfinished uniformRefill (uniformStart xof rho i j) := by
  apply halts_of_measure (fun state => limit - state.ctx.position + (256 - state.ctr))
    (fun state => state.ctx.stream = xof (rho ++ nonceBytes ((i <<< 8 + j) % 65536)))
  · intro state running stream
    rw [uniformUnfinished, decide_eq_true_eq] at running
    refine ⟨stream, ?_⟩
    have counted := rejUniform_ctr ((state.buf.drop (state.bufLen - state.bufLen % 3)).take
      (state.bufLen % 3) ++ (state.ctx.squeeze shake128Rate).1) state.poly running
    have moved : (uniformRefill state).ctx.position = state.ctx.position + 168 := rfl
    have ctr : (uniformRefill state).ctr = state.ctr + min (256 - state.ctr)
      (blockCandidates ((state.buf.drop (state.bufLen - state.bufLen % 3)).take
        (state.bufLen % 3) ++ (state.ctx.squeeze shake128Rate).1)).length := counted
    rw [moved, ctr]
    rcases Nat.lt_or_ge state.ctx.position limit with before | beyond
    · omega
    · have block : (state.ctx.squeeze shake128Rate).1 = List.replicate (162 + 6) 0 := by
        rw [ShakeCtx.squeeze, stream]
        exact bytesFrom_zero zeros _ beyond
      have few : ((state.buf.drop (state.bufLen - state.bufLen % 3)).take
          (state.bufLen % 3)).length < 3 := by
        rw [List.length_take]
        omega
      have accepted := blockCandidates_zeros few 162
      rw [block]
      omega
  · rfl

theorem etaHalts_zeros (a : Poly) (seed : List UInt8) (nonce : ℕ)
    (zeros : ∀ position, limit ≤ position → xof (seed ++ nonceBytes nonce) position = 0) :
    Halts etaUnfinished etaRefill (etaStart xof a seed nonce) := by
  have enough : 256 ≤
      (acceptedNibbles (xof (seed ++ nonceBytes nonce)) (2 * limit + 256)).length := by
    have behind : ∀ m < 256, nibble (xof (seed ++ nonceBytes nonce)) (2 * limit + m) = 0 := by
      intro m _
      rw [nibble, zeros _ (show limit ≤ (2 * limit + m) / 2 by omega)]
      split
      · rfl
      · rfl
    have kept : accepted (fun m => nibble (xof (seed ++ nonceBytes nonce)) (2 * limit + m))
        (fun t => t < 15) 256 = List.replicate 256 0 := accepted_replicate rfl behind
    rw [acceptedNibbles, accepted_add, kept, List.length_append, List.length_replicate]
    exact Nat.le_add_left _ _
  exact etaHalts_of_enough enough a

theorem challengeHalts_zeros
    (zeros : ∀ position, limit ≤ position → xof input position = 0) :
    Halts challengeUnfinished challengeStep (challengeStart xof input) := by
  apply challengeHalts_of_finds
  apply findsIndices_of_small
  intro pos
  refine ⟨max pos limit, Nat.le_max_left _ _, ?_⟩
  rw [zeros _ (Nat.le_max_right _ _)]
  exact Nat.zero_le _

end Halting

/-! ## Arbitrary streams and streams of a `Shake` -/

namespace Streams

/-- The part of each stream that is read. -/
def cut (streams : Streams) (xof : Xof) : Xof := fun input =>
  cutStream (cutLimit (streams.rounds input)) (xof input)

theorem cut_zero (streams : Streams) (xof : Xof) (input : List UInt8) :
    ∀ position, cutLimit (streams.rounds input) ≤ position →
      streams.cut xof input position = 0 :=
  fun _ beyond => cutStream_zero _ beyond

def completed (streams : Streams) : Shake where
  shake128 := streams.cut streams.shake128
  shake256 := streams.cut streams.shake256
  uniformHalts := fun rho i j => uniformHalts_zeros rho i j (streams.cut_zero _ _)
  etaHalts := fun a seed nonce => etaHalts_zeros a seed nonce (streams.cut_zero _ _)
  challengeHalts := fun _ => challengeHalts_zeros (streams.cut_zero _ _)

theorem ends_or_stops {State : Type} {condition : State → Bool} {body : State → State}
    {view : State → Poly} {budget : ℕ} {first second : State}
    (halts : Halts condition body second)
    (same : (loopFor condition body budget first).map view =
      (loopFor condition body budget second).map view) :
    (loopFor condition body budget first).map view =
        some (view (whileLoop condition body second halts)) ∨
      (True ∧ (loopFor condition body budget first).map view = none) := by
  rw [same]
  cases finished : loopFor condition body budget second with
  | none => exact Or.inr ⟨trivial, rfl⟩
  | some last =>
      rw [whileLoop_eq halts finished]
      exact Or.inl rfl

theorem shakeOnce_cut (streams : Streams) (xof : Xof) (input : List UInt8) {outlen : ℕ}
    (within : outlen ≤ 842) :
    shakeOnce xof input outlen = shakeOnce (streams.cut xof) input outlen := by
  have agree := agree_finalized xof (streams.cut xof) input rfl
  apply agree.bytes
  rw [cutLimit]
  omega

theorem completed_shake128 (streams : Streams) (input : List UInt8) :
    streams.completed.shake128 input =
      cutStream (cutLimit (streams.rounds input)) (streams.shake128 input) := rfl

theorem completed_shake256 (streams : Streams) (input : List UInt8) :
    streams.completed.shake256 input =
      cutStream (cutLimit (streams.rounds input)) (streams.shake256 input) := rfl

theorem underlies_completed (streams : Streams) :
    streams.Underlies True streams.completed where
  matrixEntry rho i j := by
    rw [Streams.matrixEntry, Shake.matrixEntry]
    apply ends_or_stops
    exact uniform_cut rho i j (streams.completed_shake128 _)
  polyUniformEta a seed nonce := by
    rw [Streams.polyUniformEta, Shake.polyUniformEta]
    apply ends_or_stops
    exact eta_cut a seed nonce (streams.completed_shake256 _)
  polyChallenge seed := by
    rw [Streams.polyChallenge, Shake.polyChallenge]
    apply ends_or_stops
    exact challenge_cut (streams.completed_shake256 _)
  shakeOnce input _ within := streams.shakeOnce_cut _ input (within.trans (by norm_num))
  expandSeed seed := by
    have whole := agree_finalized streams.shake256 (streams.cut streams.shake256)
      (seed.toList ++ [8, 7]) rfl
    have second := whole.squeeze (show 32 + 96 ≤ cutLimit _ by
      rw [cutLimit]
      omega)
    have third := second.squeeze (show 64 + 32 ≤ 96 by norm_num)
    have rho := whole.bytes (show 32 ≤ cutLimit _ by
      rw [cutLimit]
      omega)
    have rhoPrime := second.bytes (show 64 ≤ 96 by norm_num)
    have key := third.bytes (show 32 ≤ 32 by norm_num)
    rw [Streams.expandSeed, Mldsa87.expandSeed]
    simp only [completed, rho, rhoPrime, key]

/-! ## Rounds that are enough -/

section Rounds

variable {shake128 shake256 : Xof}

/-- So many rounds are enough for every loop on the stream of an input. -/
structure Enough (shake128 shake256 : Xof) (input : List UInt8) (rounds : ℕ) : Prop where
  uniform : ∀ rho i j, rho ++ nonceBytes ((i <<< 8 + j) % 65536) = input →
    (loopFor uniformUnfinished uniformRefill rounds (uniformStart shake128 rho i j)).isSome
  eta : ∀ a seed nonce, seed ++ nonceBytes nonce = input →
    (loopFor etaUnfinished etaRefill rounds (etaStart shake256 a seed nonce)).isSome
  challenge :
    (loopFor challengeUnfinished challengeStep rounds (challengeStart shake256 input)).isSome

theorem loopFor_isSome_mono {State : Type} {condition : State → Bool} {body : State → State}
    {state : State} {budget larger : ℕ} (le : budget ≤ larger)
    (finished : (loopFor condition body budget state).isSome) :
    (loopFor condition body larger state).isSome := by
  obtain ⟨result, ends⟩ := Option.isSome_iff_exists.mp finished
  rw [loopFor_mono le ends, Option.isSome_some]

theorem exists_uniform_rounds (shake : Shake) (input : List UInt8) :
    ∃ rounds, ∀ rho i j, rho ++ nonceBytes ((i <<< 8 + j) % 65536) = input →
      (loopFor uniformUnfinished uniformRefill rounds
        (uniformStart shake.shake128 rho i j)).isSome := by
  by_cases used : ∃ rho i j, rho ++ nonceBytes ((i <<< 8 + j) % 65536) = input
  · obtain ⟨rho, i, j, same⟩ := used
    obtain ⟨rounds, finished⟩ := shake.uniformHalts rho i j
    refine ⟨rounds, ?_⟩
    intro other row column equal
    rw [uniformStart, same] at finished
    rw [uniformStart, equal]
    exact finished
  · exact ⟨0, fun rho i j same => absurd ⟨rho, i, j, same⟩ used⟩

theorem exists_eta_rounds (shake : Shake) (input : List UInt8) :
    ∃ rounds, ∀ a seed nonce, seed ++ nonceBytes nonce = input →
      (loopFor etaUnfinished etaRefill rounds (etaStart shake.shake256 a seed nonce)).isSome := by
  by_cases used : ∃ seed nonce, seed ++ nonceBytes nonce = input
  · obtain ⟨seed, nonce, same⟩ := used
    obtain ⟨rounds, finished⟩ := shake.etaHalts Poly.zero seed nonce
    refine ⟨rounds, ?_⟩
    intro a other number equal
    obtain ⟨result, ends⟩ := Option.isSome_iff_exists.mp finished
    obtain ⟨last, stops, _⟩ := loopFor_simulates EtaTogether EtaTogether.condition
      (fun left right together _ => together.refill) rounds
      (etaTogether_start shake.shake256 Poly.zero a seed nonce) ends
    have started : etaStart shake.shake256 a other number =
        etaStart shake.shake256 a seed nonce := by
      rw [etaStart, etaStart, equal, same]
    rw [started, stops, Option.isSome_some]
  · exact ⟨0, fun a seed nonce same => absurd ⟨seed, nonce, same⟩ used⟩

theorem exists_enough (shake : Shake) (input : List UInt8) :
    ∃ rounds, Enough shake.shake128 shake.shake256 input rounds := by
  obtain ⟨uniform, uniformEnds⟩ := exists_uniform_rounds shake input
  obtain ⟨eta, etaEnds⟩ := exists_eta_rounds shake input
  obtain ⟨challenge, challengeEnds⟩ := shake.challengeHalts input
  refine ⟨uniform + eta + challenge, ?_, ?_, ?_⟩
  · intro rho i j same
    exact loopFor_isSome_mono (by omega) (uniformEnds rho i j same)
  · intro a seed nonce same
    exact loopFor_isSome_mono (by omega) (etaEnds a seed nonce same)
  · exact loopFor_isSome_mono (by omega) challengeEnds

theorem ends {State : Type} {condition : State → Bool} {body : State → State}
    {view : State → Poly} {budget : ℕ} {state : State} (halts : Halts condition body state)
    (finished : (loopFor condition body budget state).isSome) :
    (loopFor condition body budget state).map view =
      some (view (whileLoop condition body state halts)) := by
  obtain ⟨last, stops⟩ := Option.isSome_iff_exists.mp finished
  rw [stops, whileLoop_eq halts stops, Option.map_some]

theorem exists_underlies (shake : Shake) : ∃ rounds,
    Underlies False
      { shake128 := shake.shake128, shake256 := shake.shake256, rounds := rounds } shake := by
  obtain ⟨rounds, enough⟩ := Classical.skolem.mp (exists_enough shake)
  refine ⟨rounds, ?_, ?_, ?_, ?_, ?_⟩
  · intro rho i j
    exact Or.inl (ends (shake.uniformHalts rho i j) ((enough _).uniform rho i j rfl))
  · intro a seed nonce
    exact Or.inl (ends (shake.etaHalts a seed nonce) ((enough _).eta a seed nonce rfl))
  · intro seed
    exact Or.inl (ends (shake.challengeHalts seed) (enough seed).challenge)
  · exact fun _ _ _ => rfl
  · exact fun _ => rfl

end Rounds

end Streams

end LedgerQrl.Mldsa87
