import LedgerQrl.Mldsa87.EtaSampling

namespace LedgerQrl.Mldsa87

open Foundation Poly

/-! # Challenges from streams

The loops of `poly_challenge_volatile` and `poly_challenge` shuffle the stream behind its
eight sign bytes into a cleared polynomial. -/

/-! ## The shuffle -/

/-- The next byte from `pos` on that is at most `i`. -/
structure NextIndex (stream : ℕ → UInt8) (i pos found : ℕ) : Prop where
  behind : pos ≤ found
  small : (stream found).toNat ≤ i
  first : ∀ earlier, pos ≤ earlier → earlier < found → i < (stream earlier).toNat

def signBit (stream : ℕ → UInt8) (t : ℕ) : ℕ :=
  ((stream (t / 8)).toNat.testBit (t % 8)).toNat

/-- The coefficient at `b` moves to `i`, and a sign takes its place. -/
def place (c : Poly) (i b signBit : ℕ) : Poly :=
  (c.assign i (c.coeff b)).assign b (1 - 2 * (signBit : Int))

/-- The polynomial before index `i`, with the stream read up to `pos`. -/
inductive Shuffled (stream : ℕ → UInt8) : (i pos : ℕ) → Poly → Prop where
  | start : Shuffled stream (256 - tau) 8 Poly.zero
  | next {i pos found : ℕ} {c : Poly} (earlier : Shuffled stream i pos c)
      (room : i < 256) (next : NextIndex stream i pos found) :
      Shuffled stream (i + 1) (found + 1)
        (place c i (stream found).toNat (signBit stream (i - (256 - tau))))

theorem NextIndex.unique {stream : ℕ → UInt8} {i pos found other : ℕ}
    (first : NextIndex stream i pos found) (second : NextIndex stream i pos other) :
    found = other := by
  rcases Nat.lt_trichotomy found other with before | same | behind
  · have large := second.first found first.behind before
    have small := first.small
    omega
  · exact same
  · have large := first.first other second.behind behind
    have small := second.small
    omega

namespace Shuffled

variable {stream : ℕ → UInt8} {i pos : ℕ} {c : Poly}

theorem from_le (shuffled : Shuffled stream i pos c) : 256 - tau ≤ i := by
  induction shuffled with
  | start => exact Nat.le_refl _
  | next _ _ _ induction => exact Nat.le_succ_of_le induction

theorem le_size (shuffled : Shuffled stream i pos c) : i ≤ 256 := by
  cases shuffled with
  | start => exact Nat.sub_le _ _
  | next _ room _ => exact room

theorem unique (shuffled : Shuffled stream i pos c) : ∀ {otherPos : ℕ} {other : Poly},
    Shuffled stream i otherPos other → otherPos = pos ∧ other = c := by
  induction shuffled with
  | start =>
      intro otherPos other again
      generalize index : 256 - tau = start at again
      cases again with
      | start => exact ⟨rfl, rfl⟩
      | next earlier _ _ =>
          have later := earlier.from_le
          omega
  | next earlier room found induction =>
      rename_i i pos position c
      intro otherPos other again
      generalize index : i + 1 = start at again
      cases again with
      | start =>
          have later := earlier.from_le
          omega
      | next otherEarlier _ otherFound =>
          obtain rfl := Nat.succ.inj index
          obtain ⟨rfl, rfl⟩ := induction otherEarlier
          obtain rfl := found.unique otherFound
          exact ⟨rfl, rfl⟩

theorem pos_le {j later : ℕ} {d : Poly} (shuffled : Shuffled stream j later d)
    (earlier : Shuffled stream i pos c) (le : i ≤ j) : pos ≤ later := by
  induction shuffled with
  | start =>
      obtain rfl : i = 256 - tau := Nat.le_antisymm le earlier.from_le
      exact (start.unique earlier).1.le
  | next before room found induction =>
      rename_i j between position d
      rcases Nat.lt_or_eq_of_le le with less | rfl
      · have read := induction (Nat.le_of_lt_succ less)
        have behind := found.behind
        omega
      · exact ((before.next room found).unique earlier).1.le

end Shuffled

/-! ## The weight -/

def support (c : Poly) : Finset ℕ := (Finset.range 256).filter fun n => c.coeff n ≠ 0

/-- Signs before index `i`, one for each index since the first. -/
structure Signs (c : Poly) (i : ℕ) : Prop where
  sign : ∀ n < 256, c.coeff n = 0 ∨ c.coeff n = 1 ∨ c.coeff n = -1
  above : ∀ n, i ≤ n → n < 256 → c.coeff n = 0
  weight : (support c).card = i - (256 - tau)

theorem signs_zero : Signs Poly.zero (256 - tau) := by
  have zero : ∀ n < 256, Poly.zero.coeff n = 0 := fun n bound => by
    simp [Poly.zero, coeff, bound]
  constructor
  · exact fun n bound => .inl (zero n bound)
  · exact fun n _ bound => zero n bound
  · rw [support, Finset.filter_false_of_mem, Finset.card_empty, Nat.sub_self]
    exact fun n member => not_not_intro (zero n (Finset.mem_range.mp member))

theorem coeff_place (c : Poly) {i b : ℕ} (bit : ℕ) (room : i < 256) (small : b < 256)
    (n : ℕ) :
    (place c i b bit).coeff n =
      if b = n then 1 - 2 * (bit : Int) else if i = n then c.coeff b else c.coeff n := by
  rw [place, coeff_assign _ _ small, coeff_assign _ _ room]

theorem support_place {c : Poly} {i b bit : ℕ} (room : i < 256) (small : b ≤ i)
    (sign : 1 - 2 * (bit : Int) ≠ 0) (free : c.coeff i = 0) :
    support (place c i b bit) = insert (if c.coeff b = 0 then b else i) (support c) := by
  ext n
  simp only [support, Finset.mem_insert, Finset.mem_filter, Finset.mem_range,
    coeff_place c bit room (Nat.lt_of_le_of_lt small room)]
  by_cases here : b = n
  · subst here
    rw [if_pos rfl]
    by_cases zero : c.coeff b = 0
    · simp [zero, sign, Nat.lt_of_le_of_lt small room]
    · simp [zero, sign, Nat.lt_of_le_of_lt small room]
  · rw [if_neg here]
    by_cases atEnd : i = n
    · subst atEnd
      by_cases zero : c.coeff b = 0
      · simp [zero, free, Ne.symm here]
      · simp [zero, room]
    · rw [if_neg atEnd]
      by_cases zero : c.coeff b = 0
      · simp [zero, Ne.symm here]
      · simp [zero, Ne.symm atEnd]

theorem Signs.place {c : Poly} {i b bit : ℕ} (signs : Signs c i) (from_le : 256 - tau ≤ i)
    (room : i < 256) (small : b ≤ i) (binary : bit < 2) :
    Signs (place c i b bit) (i + 1) := by
  have free := signs.above i (Nat.le_refl _) room
  have within : b < 256 := Nat.lt_of_le_of_lt small room
  have sign : 1 - 2 * (bit : Int) = 1 ∨ 1 - 2 * (bit : Int) = -1 := by omega
  have nonzero : 1 - 2 * (bit : Int) ≠ 0 := by omega
  constructor
  · intro n bound
    rw [coeff_place c bit room within]
    split
    · exact .inr sign
    · split
      · exact signs.sign b within
      · exact signs.sign n bound
  · intro n above bound
    rw [coeff_place c bit room within, if_neg (by omega), if_neg (by omega)]
    exact signs.above n (Nat.le_of_succ_le above) bound
  · have fresh : (if c.coeff b = 0 then b else i) ∉ support c := by
      rw [support, Finset.mem_filter]
      split
      · rename_i zero
        exact fun member => member.2 zero
      · exact fun member => member.2 free
    rw [support_place room small nonzero free, Finset.card_insert_of_notMem fresh,
      signs.weight]
    omega

theorem signBit_lt (stream : ℕ → UInt8) (t : ℕ) : signBit stream t < 2 :=
  Bool.toNat_lt _

theorem Shuffled.signs {stream : ℕ → UInt8} {i pos : ℕ} {c : Poly}
    (shuffled : Shuffled stream i pos c) : Signs c i := by
  induction shuffled with
  | start => exact signs_zero
  | next earlier room next induction =>
      exact induction.place earlier.from_le room next.small (signBit_lt _ _)

/-! ## The loop -/

def clearPoly (c : Poly) : Poly := (List.range 256).foldl (fun c i => c.assign i 0) c

theorem clearPoly_eq (c : Poly) : clearPoly c = Poly.zero := by
  have cleared : ∀ count ≤ 256, ∀ n,
      ((List.range count).foldl (fun c i => c.assign i 0) c).coeff n =
        if n < count then 0 else c.coeff n := by
    intro count
    induction count with
    | zero => exact fun _ n => (if_neg (Nat.not_lt_zero n)).symm
    | succ count induction =>
        intro within n
        rw [List.range_succ, List.foldl_append, List.foldl_cons, List.foldl_nil,
          coeff_assign _ _ within, induction (Nat.le_of_succ_le within)]
        rcases Nat.lt_trichotomy n count with before | rfl | behind
        · rw [if_neg (by omega), if_pos before, if_pos (by omega)]
        · rw [if_pos rfl, if_pos (by omega)]
        · rw [if_neg (by omega), if_neg (by omega), if_neg (by omega)]
  apply Poly.ext_coeff
  intro n bound
  rw [clearPoly, cleared 256 (Nat.le_refl _), if_pos bound]
  simp [Poly.zero, coeff, bound]

/-- Both functions up to their loops, on a polynomial that holds `c`. -/
def challengeStartOn (xof : Xof) (c : Poly) (seed : List UInt8) : ChallengeState :=
  { challengeStart xof seed with poly := clearPoly c }

theorem challengeStartOn_eq (xof : Xof) (c : Poly) (seed : List UInt8) :
    challengeStartOn xof c seed = challengeStart xof seed := by
  rw [challengeStartOn, clearPoly_eq]
  rfl

theorem testBit_signs (buf : List UInt8) (t : ℕ) : ∀ count : ℕ,
    ((List.range count).foldl (fun signs i => signs ||| byteAt buf i <<< (8 * i)) 0).testBit
        t = (decide (t < 8 * count) && (byteAt buf (t / 8)).testBit (t % 8)) := by
  intro count
  induction count with
  | zero => simp
  | succ count induction =>
      rw [List.range_succ, List.foldl_append, List.foldl_cons, List.foldl_nil,
        Nat.testBit_or, induction, Nat.testBit_shiftLeft]
      rcases Nat.lt_or_ge t (8 * count) with before | inside
      · have later : t < 8 * (count + 1) := by omega
        simp [before, later]
      · rcases Nat.lt_or_ge t (8 * (count + 1)) with here | behind
        · have byte : t / 8 = count := by omega
          have bit : t % 8 = t - 8 * count := by omega
          simp [Nat.not_lt.mpr inside, here, inside, byte, bit]
        · have none : (byteAt buf count).testBit (t - 8 * count) = false := by
            apply Nat.testBit_eq_false_of_lt
            calc byteAt buf count < 2 ^ 8 := byteAt_lt buf count
              _ ≤ 2 ^ (t - 8 * count) := Nat.pow_le_pow_right (by norm_num) (by omega)
          simp [Nat.not_lt.mpr inside, Nat.not_lt.mpr behind, none]

theorem byteAt_bytesFrom (stream : ℕ → UInt8) {outlen : ℕ} : ∀ {position index : ℕ},
    index < outlen →
      byteAt (ShakeCtx.bytesFrom stream position outlen) index =
        (stream (position + index)).toNat := by
  induction outlen with
  | zero => exact fun bound => absurd bound (Nat.not_lt_zero _)
  | succ outlen induction =>
      intro position index bound
      cases index with
      | zero => rfl
      | succ index =>
          have later := @induction (position + 1) index (Nat.lt_of_succ_lt_succ bound)
          rw [byteAt] at later
          rw [ShakeCtx.bytesFrom, byteAt, List.getElem?_cons_succ, later]
          congr 2
          ring

def ChallengeState.read (state : ChallengeState) : ℕ :=
  state.ctx.position - shake256Rate + state.pos

/-- The loop at index `i`, with the bytes since `pos` skipped. -/
structure ChallengeReached (stream : ℕ → UInt8) (state : ChallengeState) (pos : ℕ) :
    Prop where
  shuffled : Shuffled stream state.i pos state.poly
  ctx : state.ctx.stream = stream
  squeezed : shake256Rate ≤ state.ctx.position
  buf : state.buf =
    ShakeCtx.bytesFrom stream (state.ctx.position - shake256Rate) shake256Rate
  inside : state.pos ≤ shake256Rate
  behind : pos ≤ state.read
  skipped : ∀ earlier, pos ≤ earlier → earlier < state.read →
    state.i < (stream earlier).toNat
  signs : ∀ t, state.i - (256 - tau) + t < 64 →
    state.signs.testBit t =
      (stream ((state.i - (256 - tau) + t) / 8)).toNat.testBit
        ((state.i - (256 - tau) + t) % 8)

theorem challengeReached_start (xof : Xof) (seed : List UInt8) :
    ChallengeReached (xof seed) (challengeStart xof seed) 8 where
  shuffled := .start
  ctx := rfl
  squeezed := by
    rw [challengeStart]
    exact Nat.le_add_left _ _
  buf := by
    simp only [challengeStart, ShakeCtx.squeeze, ShakeCtx.finalized, Nat.zero_add, Nat.sub_self]
  inside := by
    rw [challengeStart, shake256Rate]
    norm_num
  behind := by
    rw [ChallengeState.read, challengeStart]
    exact Nat.le_add_left _ _
  skipped := by
    intro earlier from_le before
    have read : (challengeStart xof seed).read = 8 := by
      simp only [ChallengeState.read, challengeStart, ShakeCtx.squeeze, ShakeCtx.finalized,
        Nat.zero_add, Nat.sub_self]
    omega
  signs := by
    intro t inside
    have first : (challengeStart xof seed).i - (256 - tau) = 0 := Nat.sub_self _
    rw [first, Nat.zero_add] at inside
    have bits := testBit_signs (ShakeCtx.bytesFrom (xof seed) 0 shake256Rate) t 8
    rw [decide_eq_true inside, Bool.true_and,
      byteAt_bytesFrom (xof seed) (show t / 8 < shake256Rate by rw [shake256Rate]; omega),
      Nat.zero_add] at bits
    rw [first, Nat.zero_add]
    exact bits

section Steps

variable {stream : ℕ → UInt8} {state : ChallengeState} {pos : ℕ}

theorem ChallengeReached.fill (reached : ChallengeReached stream state pos) :
    ChallengeReached stream (challengeFill state) pos ∧
      (challengeFill state).pos < shake256Rate ∧
      (challengeFill state).i = state.i ∧ (challengeFill state).read = state.read := by
  have inside := reached.inside
  have squeezed := reached.squeezed
  by_cases used : state.pos ≥ shake256Rate
  · have filled : challengeFill state =
        { state with
          buf := (state.ctx.squeeze shake256Rate).1
          ctx := (state.ctx.squeeze shake256Rate).2
          pos := 0 } := if_pos used
    have read : (challengeFill state).read = state.read := by
      rw [filled, ChallengeState.read, ChallengeState.read, ShakeCtx.squeeze]
      simp only
      omega
    refine ⟨?_, ?_, ?_, read⟩
    · constructor
      · rw [filled]
        exact reached.shuffled
      · rw [filled]
        exact reached.ctx
      · rw [filled]
        exact Nat.le_add_left _ _
      · rw [filled, ShakeCtx.squeeze, reached.ctx]
        simp only [Nat.add_sub_cancel]
      · rw [filled]
        exact Nat.zero_le _
      · rw [read]
        exact reached.behind
      · rw [read, filled]
        exact reached.skipped
      · rw [filled]
        exact reached.signs
    · rw [filled, shake256Rate]
      norm_num
    · rw [filled]
  · have same : challengeFill state = state := if_neg used
    rw [same]
    exact ⟨reached, Nat.lt_of_not_le used, rfl, rfl⟩

theorem challengeFill_free (free : state.pos < shake256Rate) : challengeFill state = state :=
  if_neg (Nat.not_le.mpr free)

theorem ChallengeReached.byte (reached : ChallengeReached stream state pos)
    (free : state.pos < shake256Rate) :
    byteAt state.buf state.pos = (stream state.read).toNat := by
  rw [reached.buf, byteAt_bytesFrom stream free, ChallengeState.read]

theorem ChallengeReached.sign (reached : ChallengeReached stream state pos)
    (running : state.i < 256) :
    state.signs &&& 1 = signBit stream (state.i - (256 - tau)) := by
  have inside : state.i - (256 - tau) + 0 < 64 := by
    rw [tau]
    omega
  have bit := reached.signs 0 inside
  rw [Nat.add_zero] at bit
  rw [signBit, ← bit, Nat.toNat_testBit, Nat.and_one_is_mod, pow_zero, Nat.div_one]

theorem ChallengeReached.skip (reached : ChallengeReached stream state pos)
    (free : state.pos < shake256Rate) (large : state.i < (stream state.read).toNat) :
    ChallengeReached stream (challengeStep state) pos ∧
      (challengeStep state).read = state.read + 1 := by
  have skipped : challengeStep state = { state with pos := state.pos + 1 } := by
    rw [challengeStep, challengeFill_free free]
    simp only [reached.byte free]
    rw [if_pos large]
  have read : (challengeStep state).read = state.read + 1 := by
    rw [skipped, ChallengeState.read, ChallengeState.read, Nat.add_assoc]
  refine ⟨?_, read⟩
  rw [skipped] at read ⊢
  constructor
  · exact reached.shuffled
  · exact reached.ctx
  · exact reached.squeezed
  · exact reached.buf
  · exact free
  · rw [read]
    exact Nat.le_succ_of_le reached.behind
  · intro earlier from_le before
    rw [read] at before
    rcases Nat.lt_or_eq_of_le (Nat.le_of_lt_succ before) with passed | rfl
    · exact reached.skipped earlier from_le passed
    · exact large
  · exact reached.signs

theorem ChallengeReached.place (reached : ChallengeReached stream state pos)
    (free : state.pos < shake256Rate) (running : state.i < 256)
    (small : (stream state.read).toNat ≤ state.i) :
    ChallengeReached stream (challengeStep state) (state.read + 1) ∧
      (challengeStep state).read = state.read + 1 := by
  have placed : challengeStep state =
      { state with
        pos := state.pos + 1
        poly := Mldsa87.place state.poly state.i (stream state.read).toNat
          (signBit stream (state.i - (256 - tau)))
        signs := state.signs >>> 1
        i := state.i + 1 } := by
    rw [challengeStep, challengeFill_free free]
    simp only [reached.byte free, reached.sign running, Mldsa87.place]
    rw [if_neg (Nat.not_lt.mpr small)]
  have read : (challengeStep state).read = state.read + 1 := by
    rw [placed, ChallengeState.read, ChallengeState.read, Nat.add_assoc]
  have index := reached.shuffled.from_le
  have next : NextIndex stream state.i pos state.read :=
    { behind := reached.behind
      small := small
      first := reached.skipped }
  refine ⟨?_, read⟩
  rw [placed] at read ⊢
  constructor
  · exact reached.shuffled.next running next
  · exact reached.ctx
  · exact reached.squeezed
  · exact reached.buf
  · exact free
  · exact read.ge
  · intro earlier from_le before
    rw [read] at before
    omega
  · intro t inside
    have shifted : state.i + 1 - (256 - tau) + t = state.i - (256 - tau) + (1 + t) := by
      omega
    rw [shifted] at inside ⊢
    rw [← reached.signs (1 + t) inside, Nat.testBit_shiftRight]

/-- A round reads one byte: it is skipped, or it is the next index. -/
theorem ChallengeReached.step (reached : ChallengeReached stream state pos)
    (running : state.i < 256) :
    ∃ later, ChallengeReached stream (challengeStep state) later ∧
      (challengeStep state).read = state.read + 1 := by
  rcases reached.fill with ⟨filled, free, sameIndex, sameRead⟩
  have same : challengeStep state = challengeStep (challengeFill state) := by
    rw [challengeStep, challengeStep, challengeFill_free free]
  rw [same, ← sameRead]
  rw [← sameIndex] at running
  rcases Nat.lt_or_ge (challengeFill state).i (stream (challengeFill state).read).toNat with
    large | small
  · exact ⟨pos, filled.skip free large⟩
  · exact ⟨(challengeFill state).read + 1, filled.place free running small⟩

end Steps

/-! ## Runs -/

/-- The inner loop finds an index for every coefficient. -/
def FindsIndices (stream : ℕ → UInt8) : Prop :=
  ∀ i pos c, Shuffled stream i pos c → i < 256 → ∃ found, NextIndex stream i pos found

theorem findsIndices_of_small {stream : ℕ → UInt8}
    (small : ∀ pos, ∃ found, pos ≤ found ∧ (stream found).toNat ≤ 256 - tau) :
    FindsIndices stream := by
  intro i pos c shuffled _
  have some : ∃ found, pos ≤ found ∧ (stream found).toNat ≤ i := by
    obtain ⟨found, behind, low⟩ := small pos
    exact ⟨found, behind, low.trans shuffled.from_le⟩
  refine ⟨Nat.find some, (Nat.find_spec some).1, (Nat.find_spec some).2, ?_⟩
  intro earlier behind before
  by_contra low
  exact Nat.find_min some before ⟨behind, Nat.le_of_not_lt low⟩

theorem FindsIndices.complete {stream : ℕ → UInt8} (finds : FindsIndices stream) :
    ∃ last c, Shuffled stream 256 last c := by
  have partly : ∀ count ≤ tau, ∃ pos c, Shuffled stream (256 - tau + count) pos c := by
    intro count
    induction count with
    | zero => exact fun _ => ⟨8, Poly.zero, .start⟩
    | succ count induction =>
        intro within
        rcases induction (Nat.le_of_succ_le within) with ⟨pos, c, shuffled⟩
        have room : 256 - tau + count < 256 := by
          rw [tau] at within ⊢
          omega
        rcases finds _ _ _ shuffled room with ⟨found, next⟩
        exact ⟨_, _, shuffled.next room next⟩
  exact partly tau (Nat.le_refl _)

theorem challengeHalts_of_finds {xof : Xof} {seed : List UInt8}
    (finds : FindsIndices (xof seed)) :
    Halts challengeUnfinished challengeStep (challengeStart xof seed) := by
  rcases finds.complete with ⟨last, _, complete⟩
  have decreases : ∀ state, challengeUnfinished state = true →
      (∃ pos, ChallengeReached (xof seed) state pos) →
        (∃ pos, ChallengeReached (xof seed) (challengeStep state) pos) ∧
          last - (challengeStep state).read < last - state.read := by
    rintro state running ⟨pos, reached⟩
    rw [challengeUnfinished, decide_eq_true_eq] at running
    rcases reached.step running with ⟨later, stepped, read⟩
    rcases finds _ _ _ reached.shuffled running with ⟨found, next⟩
    have ahead : state.read ≤ found := by
      by_contra passed
      have large := reached.skipped found next.behind (Nat.lt_of_not_le passed)
      have small := next.small
      omega
    have within := complete.pos_le (reached.shuffled.next running next) running
    refine ⟨⟨later, stepped⟩, ?_⟩
    rw [read]
    omega
  apply halts_of_measure (fun state => last - state.read)
    (fun state => ∃ pos, ChallengeReached (xof seed) state pos)
  · exact decreases
  · exact ⟨8, challengeReached_start xof seed⟩

theorem shuffled_run {xof : Xof} {seed : List UInt8}
    (halts : Halts challengeUnfinished challengeStep (challengeStart xof seed)) :
    ∃ pos, Shuffled (xof seed) 256 pos (whileLoop _ _ _ halts).poly := by
  rcases whileLoop_invariant (fun state => ∃ pos, ChallengeReached (xof seed) state pos) halts
    ⟨8, challengeReached_start xof seed⟩ (by
      rintro state running ⟨pos, reached⟩
      rw [challengeUnfinished, decide_eq_true_eq] at running
      rcases reached.step running with ⟨later, stepped, _⟩
      exact ⟨later, stepped⟩) with ⟨⟨pos, reached⟩, finished⟩
  rw [challengeUnfinished, decide_eq_false_iff_not, Nat.not_lt] at finished
  have last := Nat.le_antisymm reached.shuffled.le_size finished
  have shuffled := reached.shuffled
  rw [last] at shuffled
  exact ⟨pos, shuffled⟩

/-- `poly_challenge` on a polynomial that holds `c`; `none` is `ERR_INVALID_SEED_LENGTH`. -/
def polyChallenge (xof : Xof) (c : Poly) (seed : List UInt8)
    (halts : Halts challengeUnfinished challengeStep (challengeStartOn xof c seed)) :
    Option Poly :=
  if seed.length ≠ 64 then none else some (whileLoop _ _ _ halts).poly

/-- The challenge of a stream: its shuffle, with 60 signs. -/
structure ChallengeOf (stream : ℕ → UInt8) (challenge : Poly) : Prop where
  shuffled : ∃ pos, Shuffled stream 256 pos challenge
  unique : ∀ pos other, Shuffled stream 256 pos other → other = challenge
  weight : (support challenge).card = 60
  sign : ∀ n ∈ support challenge, challenge.coeff n = 1 ∨ challenge.coeff n = -1

theorem Shuffled.challengeOf {stream : ℕ → UInt8} {pos : ℕ} {challenge : Poly}
    (shuffled : Shuffled stream 256 pos challenge) : ChallengeOf stream challenge where
  shuffled := ⟨pos, shuffled⟩
  unique := fun _ _ other => (shuffled.unique other).2
  weight := shuffled.signs.weight
  sign := by
    intro n member
    rw [support, Finset.mem_filter, Finset.mem_range] at member
    rcases shuffled.signs.sign n member.1 with zero | sign
    · exact absurd zero member.2
    · exact sign

theorem challengeOf_polyChallenge (shake : Shake) (seed : List UInt8) :
    ChallengeOf (shake.shake256 seed) (shake.polyChallenge seed) := by
  rcases shuffled_run (shake.challengeHalts seed) with ⟨pos, shuffled⟩
  exact shuffled.challengeOf

end LedgerQrl.Mldsa87
