import LedgerQrl.Foundation.Filling
import LedgerQrl.Mldsa87.SampledRange

namespace LedgerQrl.Mldsa87

open Foundation Poly

/-! # Secret polynomials from streams

`poly_uniform_eta` stores the first 256 accepted nibbles of its stream, wherever
its blocks are cut. The loop is also run on a log of its assignments, in the
place of the polynomial. -/

theorem bytesFrom_add (stream : ℕ → UInt8) (first second : ℕ) : ∀ position,
    ShakeCtx.bytesFrom stream position (first + second) =
      ShakeCtx.bytesFrom stream position first ++
        ShakeCtx.bytesFrom stream (position + first) second := by
  induction first with
  | zero => simp [ShakeCtx.bytesFrom]
  | succ first induction =>
      intro position
      rw [Nat.add_right_comm, ShakeCtx.bytesFrom, ShakeCtx.bytesFrom, induction,
        List.cons_append, Nat.add_assoc, Nat.add_comm 1]

/-! ## The stream of nibbles -/

/-- The nibbles of a stream, the low one of each byte first. -/
def nibble (stream : ℕ → UInt8) (n : ℕ) : ℕ :=
  if n % 2 = 0 then (stream (n / 2)).toNat % 16 else (stream (n / 2)).toNat / 16

def acceptedNibbles (stream : ℕ → UInt8) (count : ℕ) : List ℕ :=
  accepted (nibble stream) (· < 15) count

def blockNibbles (bytes : List UInt8) : List ℕ :=
  (bytes.flatMap fun byte => [byte.toNat % 16, byte.toNat / 16]).filter (· < 15)

theorem blockNibbles_append (first second : List UInt8) :
    blockNibbles (first ++ second) = blockNibbles first ++ blockNibbles second := by
  rw [blockNibbles, List.flatMap_append, List.filter_append]
  rfl

theorem blockNibbles_bytesFrom (stream : ℕ → UInt8) (count : ℕ) :
    blockNibbles (ShakeCtx.bytesFrom stream 0 count) = acceptedNibbles stream (2 * count) := by
  induction count with
  | zero => rfl
  | succ count induction =>
      have even : nibble stream (2 * count) = (stream count).toNat % 16 := by
        rw [nibble, if_pos (by omega), Nat.mul_div_cancel_left _ (by norm_num)]
      have odd : nibble stream (2 * count + 1) = (stream count).toNat / 16 := by
        rw [nibble, if_neg (by omega), show (2 * count + 1) / 2 = count by omega]
      rw [bytesFrom_add, blockNibbles_append, induction, Nat.mul_succ, acceptedNibbles,
        acceptedNibbles, accepted_add, Nat.zero_add]
      congr 1
      simp only [blockNibbles, ShakeCtx.bytesFrom, accepted, List.range_succ, List.range_zero,
        List.flatMap_cons, List.flatMap_nil, List.append_nil, List.nil_append,
        List.map_cons, List.map_nil, Nat.add_zero, even, odd, List.singleton_append]

/-! ## A scan into any store -/

section Store

variable {Store : Type} (assign : Store → ℕ → Int → Store)

/-- `rej_eta` with the assignments of `assign`. -/
def rejEtaInto : List UInt8 → Store → (ctr : ℕ) → Store × ℕ
  | byte :: rest, store, ctr =>
      if ctr < 256 then
        let t0 := byte.toNat &&& 0x0F
        let t1 := byte.toNat >>> 4
        let first :=
          if t0 < 15 then (assign store ctr (etaCoefficient t0), ctr + 1)
          else (store, ctr)
        let second :=
          if t1 < 15 ∧ first.2 < 256 then
            (assign first.1 first.2 (etaCoefficient t1), first.2 + 1)
          else first
        rejEtaInto rest second.1 second.2
      else (store, ctr)
  | [], store, ctr => (store, ctr)

theorem rejEtaInto_full {ctr : ℕ} (full : 256 ≤ ctr) (store : Store) :
    ∀ bytes : List UInt8, rejEtaInto assign bytes store ctr = (store, ctr)
  | [] => rfl
  | _ :: _ => by rw [rejEtaInto, if_neg (Nat.not_lt.mpr full)]

theorem scans_rejEtaInto (bytes : List UInt8) :
    Scans assign 256 ((blockNibbles bytes).map etaCoefficient)
      (rejEtaInto assign bytes) := by
  induction bytes with
  | nil => exact scans_nil
  | cons byte rest induction =>
      have low : byte.toNat &&& 0x0F = byte.toNat % 16 :=
        Nat.and_two_pow_sub_one_eq_mod _ 4
      have high : byte.toNat >>> 4 = byte.toNat / 16 := Nat.shiftRight_eq_div_pow _ 4
      have values : blockNibbles (byte :: rest) =
          [byte.toNat % 16, byte.toNat / 16].filter (· < 15) ++ blockNibbles rest := by
        rw [blockNibbles, List.flatMap_cons, List.filter_append]
        rfl
      have full := rejEtaInto_full assign (le_refl 256)
      rw [values, List.map_append]
      generalize byte.toNat % 16 = t0 at low values ⊢
      generalize byte.toNat / 16 = t1 at high values ⊢
      intro store ctr within
      by_cases room : ctr < 256
      · rw [rejEtaInto, if_pos room]
        simp only [low, high]
        by_cases first : t0 < 15
        · by_cases second : t1 < 15
          · have both := (induction.accept (etaCoefficient t1)).accept (etaCoefficient t0)
            have scanned := both store ctr within
            simp only [if_pos room] at scanned
            simp only [first, second, List.filter_cons, List.filter_nil, decide_true, if_true,
              true_and, List.map_cons, List.map_nil, List.cons_append, List.nil_append]
            rw [← scanned]
            split
            · rfl
            · rename_i last
              obtain rfl : ctr = 255 := by omega
              exact full _ rest
          · have one := induction.accept (etaCoefficient t0)
            have scanned := one store ctr within
            simp only [if_pos room] at scanned
            simp only [first, second, List.filter_cons, List.filter_nil, decide_true, if_true,
              decide_false, Bool.false_eq_true, if_false, false_and, List.map_cons,
              List.map_nil, List.cons_append, List.nil_append]
            exact scanned
        · by_cases second : t1 < 15
          · have one := induction.accept (etaCoefficient t1)
            have scanned := one store ctr within
            simp only [if_pos room] at scanned
            simp only [first, second, room, List.filter_cons, List.filter_nil, decide_true,
              if_true, decide_false, Bool.false_eq_true, if_false, and_self, List.map_cons,
              List.map_nil, List.cons_append, List.nil_append]
            exact scanned
          · simp only [first, second, List.filter_cons, List.filter_nil, decide_false,
              Bool.false_eq_true, if_false, false_and, List.map_nil, List.nil_append]
            exact induction store ctr within
      · obtain rfl : ctr = 256 := by omega
        rw [rejEtaInto_full assign le_rfl, Nat.sub_self, List.take_zero, fillFrom,
          List.length_nil]

structure EtaStateInto (Store : Type) where
  store : Store
  ctr : ℕ
  ctx : ShakeCtx

def EtaStateInto.ofScan (scanned : Store × ℕ) (ctx : ShakeCtx) : EtaStateInto Store where
  store := scanned.1
  ctr := scanned.2
  ctx := ctx

def etaStartInto (xof : Xof) (store : Store) (seed : List UInt8) (nonce : ℕ) :
    EtaStateInto Store :=
  let ctx := ShakeCtx.finalized xof (seed ++ nonceBytes nonce)
  let squeezed := ctx.squeeze shake256Rate
  .ofScan (rejEtaInto assign squeezed.1 store 0) squeezed.2

def etaUnfinishedInto (state : EtaStateInto Store) : Bool := state.ctr < 256

def etaRefillInto (state : EtaStateInto Store) : EtaStateInto Store :=
  let squeezed := state.ctx.squeeze shake256Rate
  .ofScan (rejEtaInto assign squeezed.1 state.store state.ctr) squeezed.2

/-! ## The run -/

variable {assign} {xof : Xof} {seed : List UInt8} {nonce : ℕ} {initial : Store}

/-- Some blocks of the stream have been scanned. -/
def EtaReached (assign : Store → ℕ → Int → Store) (initial : Store) (stream : ℕ → UInt8)
    (state : EtaStateInto Store) : Prop :=
  ∃ count,
    Filled assign 256 initial ((acceptedNibbles stream (2 * count)).map etaCoefficient)
      (state.store, state.ctr) ∧
    state.ctx = { stream := stream, position := count }

theorem EtaReached.scan {stream : ℕ → UInt8} {count : ℕ} {result : Store × ℕ}
    (filled : Filled assign 256 initial
      ((acceptedNibbles stream (2 * count)).map etaCoefficient) result) (length : ℕ) :
    EtaReached assign initial stream
      (.ofScan (rejEtaInto assign (ShakeCtx.bytesFrom stream count length) result.1 result.2)
        { stream := stream, position := count + length }) := by
  have next := filled.scan (scans_rejEtaInto assign (ShakeCtx.bytesFrom stream count length))
  rw [← List.map_append, ← blockNibbles_bytesFrom, ← blockNibbles_append] at next
  have joined := bytesFrom_add stream count length 0
  rw [Nat.zero_add] at joined
  rw [← joined, blockNibbles_bytesFrom] at next
  exact ⟨count + length, next, rfl⟩

theorem etaReached_start :
    EtaReached assign initial (xof (seed ++ nonceBytes nonce))
      (etaStartInto assign xof initial seed nonce) := by
  have first : Filled assign 256 initial
      ((acceptedNibbles (xof (seed ++ nonceBytes nonce)) (2 * 0)).map etaCoefficient)
        (initial, 0) := filled_nil initial
  have reached := EtaReached.scan first shake256Rate
  rw [Nat.zero_add] at reached
  simp only [etaStartInto, ShakeCtx.squeeze, ShakeCtx.finalized, Nat.zero_add]
  exact reached

theorem EtaReached.refill {stream : ℕ → UInt8} {state : EtaStateInto Store}
    (reached : EtaReached assign initial stream state) :
    EtaReached assign initial stream (etaRefillInto assign state) := by
  obtain ⟨count, filled, ctx⟩ := reached
  have next := EtaReached.scan filled shake256Rate
  simp only [etaRefillInto, ShakeCtx.squeeze, ctx]
  exact next

def etaValues (stream : ℕ → UInt8) (count : ℕ) : List Int :=
  ((acceptedNibbles stream count).take 256).map etaCoefficient

theorem etaInto_run (initial : Store) {count : ℕ}
    (enough : 256 ≤ (acceptedNibbles (xof (seed ++ nonceBytes nonce)) count).length) :
    ∃ halts : Halts etaUnfinishedInto (etaRefillInto assign)
        (etaStartInto assign xof initial seed nonce),
      (whileLoop _ _ _ halts).store = fillFrom assign initial 0
        (etaValues (xof (seed ++ nonceBytes nonce)) count) := by
  generalize streamEq : xof (seed ++ nonceBytes nonce) = stream at enough ⊢
  have start : EtaReached assign initial stream (etaStartInto assign xof initial seed nonce) := by
    rw [← streamEq]
    exact etaReached_start
  have decreases : ∀ state, etaUnfinishedInto state = true →
      EtaReached assign initial stream state →
        EtaReached assign initial stream (etaRefillInto assign state) ∧
          count - (etaRefillInto assign state).ctx.position < count - state.ctx.position := by
    intro state running reached
    refine ⟨reached.refill, ?_⟩
    obtain ⟨done, filled, ctx⟩ := reached
    have position : (etaRefillInto assign state).ctx.position = done + 136 := by
      simp only [etaRefillInto, EtaStateInto.ofScan, ShakeCtx.squeeze, ctx]
      rfl
    rw [etaUnfinishedInto, decide_eq_true_eq] at running
    have unfinished : 2 * done < count := by
      by_contra beyond
      have more := (accepted_initial (Nat.le_of_not_lt beyond) :
        acceptedNibbles stream count <+: acceptedNibbles stream (2 * done)).length_le
      have full := filled.of_enough (by rw [List.length_map]; exact enough.trans more)
      simp only at full
      omega
    rw [position, ctx]
    simp only
    omega
  have halts : Halts etaUnfinishedInto (etaRefillInto assign)
      (etaStartInto assign xof initial seed nonce) := by
    apply halts_of_measure (fun state => count - state.ctx.position)
      (EtaReached assign initial stream)
    · exact decreases
    · exact start
  refine ⟨halts, ?_⟩
  obtain ⟨⟨done, filled, _⟩, finished⟩ := whileLoop_invariant
    (EtaReached assign initial stream) halts start fun _ _ reached => reached.refill
  rw [etaUnfinishedInto, decide_eq_false_iff_not, Nat.not_lt] at finished
  have full := filled.full finished
  have stored := filled.store
  rw [List.length_map] at full
  rw [← List.map_take, acceptedNibbles, accepted_take full enough] at stored
  exact stored

end Store

/-! ## The polynomial -/

theorem rejEta_eq : ∀ (bytes : List UInt8) (a : Poly) (ctr : ℕ),
    rejEta bytes a ctr = rejEtaInto Poly.assign bytes a ctr := by
  intro bytes
  induction bytes with
  | nil => exact fun _ _ => rfl
  | cons byte rest induction =>
      intro a ctr
      rw [rejEta, rejEtaInto]
      simp only [induction]

def SameEta (into : EtaStateInto Poly) (state : EtaState) : Prop :=
  state.poly = into.store ∧ state.ctr = into.ctr ∧ state.ctx = into.ctx

theorem sameEta_start (xof : Xof) (a : Poly) (seed : List UInt8) (nonce : ℕ) :
    SameEta (etaStartInto Poly.assign xof a seed nonce) (etaStart xof a seed nonce) := by
  rw [etaStart]
  simp only [rejEta_eq]
  exact ⟨rfl, rfl, rfl⟩

theorem SameEta.condition (into : EtaStateInto Poly) (state : EtaState)
    (same : SameEta into state) : etaUnfinishedInto into = etaUnfinished state := by
  rw [etaUnfinishedInto, etaUnfinished, same.2.1]

theorem SameEta.refill (into : EtaStateInto Poly) (state : EtaState)
    (same : SameEta into state) :
    SameEta (etaRefillInto Poly.assign into) (etaRefill state) := by
  obtain ⟨poly, ctr, ctx⟩ := same
  rw [etaRefill, ctx, poly, ctr]
  simp only [rejEta_eq]
  exact ⟨rfl, rfl, rfl⟩

theorem etaCoefficient_eq : ∀ t < 15, etaCoefficient t = 2 - ((t % 5 : ℕ) : ℤ) := by
  decide

theorem coeff_etaValues {stream : ℕ → UInt8} {count : ℕ}
    (enough : 256 ≤ (acceptedNibbles stream count).length) (a : Poly) {n : ℕ}
    (bound : n < 256) :
    (fillFrom Poly.assign a 0 (etaValues stream count)).coeff n =
      2 - (((acceptedNibbles stream count)[n] % 5 : ℕ) : ℤ) := by
  have within : n < (acceptedNibbles stream count).length := by omega
  have small : (acceptedNibbles stream count)[n] < 15 := by
    have member : (acceptedNibbles stream count)[n] ∈
        accepted (nibble stream) (· < 15) count := List.getElem_mem within
    rw [accepted, List.mem_filter] at member
    exact of_decide_eq_true member.2
  have length : (etaValues stream count).length = 256 := by
    rw [etaValues, List.length_map, List.length_take_of_le enough]
  have found : (etaValues stream count)[n]? =
      some (etaCoefficient (acceptedNibbles stream count)[n]) := by
    rw [etaValues, List.getElem?_map, List.getElem?_take_of_lt bound,
      List.getElem?_eq_getElem within, Option.map_some]
  have value := read_fillFrom Poly.coeff
    (fun store index value other bound => coeff_assign store value bound other)
    (etaValues stream count) a (show 0 + (etaValues stream count).length ≤ 256 by omega) n
  rwa [if_pos (Nat.zero_le n), Nat.sub_zero, found, Option.getD_some,
    etaCoefficient_eq _ small] at value

/-- Coefficient `n` is that of the `n`-th accepted nibble, and the log of the assignments has
each index once. -/
structure FollowsNibbles (stream : ℕ → UInt8) (count : ℕ) (a sampled : Poly)
    (log : List (ℕ × Int)) : Prop where
  coeff : ∀ n (_ : n < 256) (within : n < (acceptedNibbles stream count).length),
    sampled.coeff n = 2 - (((acceptedNibbles stream count)[n] % 5 : ℕ) : ℤ)
  range : ∀ n < 256, -2 ≤ sampled.coeff n ∧ sampled.coeff n ≤ 2
  assigned : sampled = replay Poly.assign a log
  once : log.map Prod.fst = List.range 256

theorem followsNibbles_fillFrom {stream : ℕ → UInt8} {count : ℕ}
    (enough : 256 ≤ (acceptedNibbles stream count).length) (a : Poly) :
    FollowsNibbles stream count a (fillFrom Poly.assign a 0 (etaValues stream count))
      (fillFrom logAssign [] 0 (etaValues stream count)) := by
  constructor
  · exact fun n bound _ => coeff_etaValues enough a bound
  · intro n bound
    rw [coeff_etaValues enough a bound]
    constructor
    · omega
    · omega
  · rw [replay_fillFrom]
    rfl
  · have length : (etaValues stream count).length = 256 := by
      rw [etaValues, List.length_map, List.length_take_of_le enough]
    rw [fillFrom_logAssign, length, List.nil_append, List.map_fst_zip (by simp [length]),
      List.range_eq_range']

theorem etaHalts_of_enough {xof : Xof} {seed : List UInt8} {nonce count : ℕ}
    (enough : 256 ≤ (acceptedNibbles (xof (seed ++ nonceBytes nonce)) count).length)
    (a : Poly) : Halts etaUnfinished etaRefill (etaStart xof a seed nonce) := by
  obtain ⟨intoHalts, _⟩ := etaInto_run a enough
  exact intoHalts.simulates SameEta (sameEta_start xof a seed nonce)
    SameEta.condition fun into state same _ => same.refill

end LedgerQrl.Mldsa87
