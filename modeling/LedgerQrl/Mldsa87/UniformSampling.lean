import LedgerQrl.Mldsa87.EtaSampling
import LedgerQrl.Mldsa87.Halting

namespace LedgerQrl.Mldsa87

open Foundation Poly

/-! # Matrix entries from streams

The candidates of a stream, three bytes each. The first squeeze takes two bytes
more than its 280 candidates; a refill goes on behind them. -/

/-! ## The stream of candidates -/

def candidate (stream : ℕ → UInt8) (m : ℕ) : ℕ :=
  ((stream (3 * m)).toNat + 256 * (stream (3 * m + 1)).toNat +
    65536 * (stream (3 * m + 2)).toNat) % 2 ^ 23

def acceptedCandidates (stream : ℕ → UInt8) (count : ℕ) : List ℕ :=
  accepted (candidate stream) (fun t => (t : Int) < qConst) count

theorem uniformCandidate_eq (low middle high : UInt8) :
    uniformCandidate low middle high =
      (low.toNat + 256 * middle.toNat + 65536 * high.toNat) % 2 ^ 23 := by
  have lowRange : low.toNat < 2 ^ 8 := low.toNat_lt
  have middleRange : middle.toNat < 2 ^ 8 := middle.toNat_lt
  have first : low.toNat ||| middle.toNat <<< 8 = low.toNat + middle.toNat <<< 8 := by
    rw [Nat.lor_comm, ← Nat.shiftLeft_add_eq_or_of_lt lowRange, Nat.add_comm]
  have both : low.toNat + middle.toNat <<< 8 < 2 ^ 16 := by
    rw [Nat.shiftLeft_eq]
    omega
  have second : (low.toNat + middle.toNat <<< 8) ||| high.toNat <<< 16 =
      low.toNat + middle.toNat <<< 8 + high.toNat <<< 16 := by
    rw [Nat.lor_comm, ← Nat.shiftLeft_add_eq_or_of_lt both, Nat.add_comm]
  have mask : (0x7fffff : ℕ) = 2 ^ 23 - 1 := rfl
  rw [uniformCandidate, first, second, mask, Nat.and_two_pow_sub_one_eq_mod,
    Nat.shiftLeft_eq, Nat.shiftLeft_eq]
  congr 1
  ring

def blockCandidates : List UInt8 → List ℕ
  | low :: middle :: high :: rest =>
      let t := uniformCandidate low middle high
      if (t : Int) < qConst then t :: blockCandidates rest else blockCandidates rest
  | _ => []

theorem candidate_shift (stream : ℕ → UInt8) (position m : ℕ) :
    candidate (fun n => stream (position + n)) (m + 1) =
      candidate (fun n => stream (position + 3 + n)) m := by
  have index : ∀ offset, position + (3 * (m + 1) + offset) =
      position + 3 + (3 * m + offset) := fun offset => by ring
  have first : position + 3 * (m + 1) = position + 3 + 3 * m := by ring
  simp only [candidate, first, index]

theorem blockCandidates_bytesFrom {left : ℕ} (few : left < 3) : ∀ (count position : ℕ)
    (stream : ℕ → UInt8),
    blockCandidates (ShakeCtx.bytesFrom stream position (3 * count + left)) =
      acceptedCandidates (fun n => stream (position + n)) count := by
  intro count
  induction count with
  | zero =>
      intro position stream
      rw [Nat.mul_zero, Nat.zero_add]
      interval_cases left <;> rfl
  | succ count induction =>
      intro position stream
      have bytes : ShakeCtx.bytesFrom stream position (3 * (count + 1) + left) =
          stream position :: stream (position + 1) :: stream (position + 2) ::
            ShakeCtx.bytesFrom stream (position + 3) (3 * count + left) := by
        rw [show 3 * (count + 1) + left = 3 * count + left + 1 + 1 + 1 by ring,
          ShakeCtx.bytesFrom, ShakeCtx.bytesFrom, ShakeCtx.bytesFrom]
      have head : uniformCandidate (stream position) (stream (position + 1))
          (stream (position + 2)) = candidate (fun n => stream (position + n)) 0 :=
        uniformCandidate_eq _ _ _
      rw [bytes, blockCandidates, induction, head, acceptedCandidates, acceptedCandidates,
        accepted_succ, funext (candidate_shift stream position)]
      simp only [decide_eq_true_eq]

/-! ## `rej_uniform` -/

/-- `rej_uniform` with the length `aLen`; the polynomial is written from `ctr` on. -/
def rejUniformUpTo (aLen : ℕ) : List UInt8 → Poly → (ctr : ℕ) → Poly × ℕ
  | low :: middle :: high :: rest, a, ctr =>
      if ctr < aLen then
        let t := uniformCandidate low middle high
        if (t : Int) < qConst then rejUniformUpTo aLen rest (a.assign ctr t) (ctr + 1)
        else rejUniformUpTo aLen rest a ctr
      else (a, ctr)
  | _, a, ctr => (a, ctr)

section Equations

variable {aLen ctr : ℕ} (low middle high : UInt8) (rest : List UInt8) (a : Poly)

theorem rejUniformUpTo_kept (room : ctr < aLen)
    (kept : (uniformCandidate low middle high : Int) < qConst) :
    rejUniformUpTo aLen (low :: middle :: high :: rest) a ctr =
      rejUniformUpTo aLen rest (a.assign ctr (uniformCandidate low middle high))
        (ctr + 1) := by
  rw [rejUniformUpTo, if_pos room]
  exact if_pos kept

theorem rejUniformUpTo_skipped (room : ctr < aLen)
    (skipped : ¬ (uniformCandidate low middle high : Int) < qConst) :
    rejUniformUpTo aLen (low :: middle :: high :: rest) a ctr =
      rejUniformUpTo aLen rest a ctr := by
  rw [rejUniformUpTo, if_pos room]
  exact if_neg skipped

theorem rejUniformUpTo_full (full : ¬ ctr < aLen) :
    rejUniformUpTo aLen (low :: middle :: high :: rest) a ctr = (a, ctr) := by
  rw [rejUniformUpTo, if_neg full]

end Equations

/-- The scan of `combined_method` is the same. -/
theorem rejUniform_eq : ∀ (bytes : List UInt8) (a : Poly) (ctr : ℕ),
    rejUniform bytes a ctr = rejUniformUpTo 256 bytes a ctr
  | low :: middle :: high :: rest, a, ctr => by
      rw [rejUniform, rejUniformUpTo]
      simp only [rejUniform_eq rest]
  | [], _, _ => by rw [rejUniform, rejUniformUpTo] <;> simp
  | [_], _, _ => by rw [rejUniform, rejUniformUpTo] <;> simp
  | [_, _], _, _ => by rw [rejUniform, rejUniformUpTo] <;> simp

theorem scans_rejUniformUpTo (aLen : ℕ) : ∀ bytes : List UInt8,
    Scans Poly.assign aLen ((blockCandidates bytes).map fun (t : ℕ) => (t : Int))
      (rejUniformUpTo aLen bytes)
  | low :: middle :: high :: rest => by
      have later := scans_rejUniformUpTo aLen rest
      intro a ctr within
      rw [rejUniformUpTo, blockCandidates]
      by_cases kept : ((uniformCandidate low middle high : ℕ) : Int) < qConst
      · simp only [if_pos kept, List.map_cons]
        exact later.accept _ a ctr within
      · simp only [if_neg kept]
        split
        · exact later a ctr within
        · obtain rfl : ctr = aLen := by omega
          rw [Nat.sub_self, List.take_zero, fillFrom, List.length_nil, Nat.add_zero]
  | [] => scans_nil
  | [_] => scans_nil
  | [_, _] => scans_nil

theorem scans_rejUniform (bytes : List UInt8) :
    Scans Poly.assign 256 ((blockCandidates bytes).map fun (t : ℕ) => (t : Int))
      (rejUniform bytes) := by
  rw [funext fun a => funext fun ctr => rejUniform_eq bytes a ctr]
  exact scans_rejUniformUpTo 256 bytes

/-! ## Without a refill -/

section Start

variable (xof : Xof) (rho : List UInt8) (i : Fin 8) (j : Fin 7)

/-- The stream of an entry, `SHAKE128(rho || j || i)`. -/
def entryStream : ℕ → UInt8 := xof (rho ++ [UInt8.ofNat j, UInt8.ofNat i])

theorem nonceBytes_entry :
    nonceBytes (((i : ℕ) <<< 8 + (j : ℕ)) % 65536) = [UInt8.ofNat j, UInt8.ofNat i] := by
  have nonce : ((i : ℕ) <<< 8 + (j : ℕ)) % 65536 = i * 256 + j := by
    rw [Nat.shiftLeft_eq]
    omega
  have high : ((i : ℕ) * 256 + j) >>> 8 = i := by
    rw [Nat.shiftRight_eq_div_pow]
    omega
  have low : UInt8.ofNat ((i : ℕ) * 256 + j) = UInt8.ofNat j := by
    apply UInt8.toNat_inj.mp
    rw [UInt8.toNat_ofNat', UInt8.toNat_ofNat']
    omega
  rw [nonce, nonceBytes, high, low]

theorem uniformStart_eq :
    uniformStart xof rho i j =
      .ofScan (rejUniform (ShakeCtx.bytesFrom (entryStream xof rho i j) 0 842) Poly.zero 0)
        (ShakeCtx.bytesFrom (entryStream xof rho i j) 0 842) 840
        { stream := entryStream xof rho i j, position := 842 } := by
  rw [uniformStart, nonceBytes_entry]
  rfl

theorem ofScan_scanned (scanned : Poly × ℕ) (buf : List UInt8) (bufLen : ℕ)
    (ctx : ShakeCtx) :
    ((UniformState.ofScan scanned buf bufLen ctx).poly,
      (UniformState.ofScan scanned buf bufLen ctx).ctr) = scanned := rfl

theorem uniformStart_filled :
    Filled Poly.assign 256 Poly.zero
      ((acceptedCandidates (entryStream xof rho i j) 280).map fun (t : ℕ) => (t : Int))
      ((uniformStart xof rho i j).poly, (uniformStart xof rho i j).ctr) := by
  have first : Filled Poly.assign 256 Poly.zero [] (Poly.zero, 0) := filled_nil _
  have scanned := first.scan (scans_rejUniform
    (ShakeCtx.bytesFrom (entryStream xof rho i j) 0 842))
  have values := blockCandidates_bytesFrom (show 2 < 3 by norm_num) 280 0
    (entryStream xof rho i j)
  rw [show 3 * 280 + 2 = 842 by norm_num] at values
  simp only [Nat.zero_add] at values
  rw [List.nil_append, values] at scanned
  rw [uniformStart_eq, ofScan_scanned]
  exact scanned

end Start

/-! ## The positions that are read

The sampling of `combined_method` over bytes that carry their positions in the stream, with
the positions of the scanned bytes in the place of the polynomial. -/

def nextCtr (low middle high : UInt8) (ctr : ℕ) : ℕ :=
  if (uniformCandidate low middle high : Int) < qConst then ctr + 1 else ctr

def rejUniformReads (aLen : ℕ) : List (UInt8 × ℕ) → (ctr : ℕ) → List ℕ × ℕ
  | low :: middle :: high :: rest, ctr =>
      if ctr < aLen then
        let scanned := rejUniformReads aLen rest (nextCtr low.1 middle.1 high.1 ctr)
        (low.2 :: middle.2 :: high.2 :: scanned.1, scanned.2)
      else ([], ctr)
  | _, ctr => ([], ctr)

/-- The bytes of `squeeze` with their positions. -/
def squeezePositions (ctx : ShakeCtx) (outlen : ℕ) : List (UInt8 × ℕ) :=
  (ctx.squeeze outlen).1.zip (List.range' ctx.position outlen)

structure UniformReadState where
  reads : List ℕ
  ctr : ℕ
  buf : List (UInt8 × ℕ)
  bufLen : ℕ
  ctx : ShakeCtx

def UniformReadState.ofScan (reads : List ℕ) (scanned : List ℕ × ℕ)
    (buf : List (UInt8 × ℕ)) (bufLen : ℕ) (ctx : ShakeCtx) : UniformReadState where
  reads := reads ++ scanned.1
  ctr := scanned.2
  buf := buf
  bufLen := bufLen
  ctx := ctx

def uniformReadStart (xof : Xof) (rho : List UInt8) (i j : ℕ) : UniformReadState :=
  let nonce := (i <<< 8 + j) % 65536
  let ctx := ShakeCtx.finalized xof (rho ++ nonceBytes nonce)
  let squeezed := squeezePositions ctx (polyUniformBytes + 2)
  .ofScan [] (rejUniformReads 256 squeezed 0) squeezed polyUniformBytes
    (ctx.squeeze (polyUniformBytes + 2)).2

def uniformReadUnfinished (state : UniformReadState) : Bool := state.ctr < 256

def uniformReadRefill (state : UniformReadState) : UniformReadState :=
  let off := state.bufLen % 3
  let kept := (state.buf.drop (state.bufLen - off)).take off
  let buf := kept ++ squeezePositions state.ctx shake128Rate
  .ofScan state.reads (rejUniformReads 256 buf state.ctr) buf (shake128Rate + off)
    (state.ctx.squeeze shake128Rate).2

section Reads

theorem map_fst_squeezePositions (ctx : ShakeCtx) (outlen : ℕ) :
    (squeezePositions ctx outlen).map Prod.fst = (ctx.squeeze outlen).1 := by
  rw [squeezePositions, List.map_fst_zip]
  rw [length_squeeze, List.length_range']

theorem rejUniformReads_room {aLen ctr : ℕ} (low middle high : UInt8 × ℕ)
    (rest : List (UInt8 × ℕ)) (room : ctr < aLen) :
    rejUniformReads aLen (low :: middle :: high :: rest) ctr =
      (low.2 :: middle.2 :: high.2 ::
          (rejUniformReads aLen rest (nextCtr low.1 middle.1 high.1 ctr)).1,
        (rejUniformReads aLen rest (nextCtr low.1 middle.1 high.1 ctr)).2) := by
  rw [rejUniformReads, if_pos room]

theorem rejUniformReads_full {aLen ctr : ℕ} (low middle high : UInt8 × ℕ)
    (rest : List (UInt8 × ℕ)) (full : ¬ ctr < aLen) :
    rejUniformReads aLen (low :: middle :: high :: rest) ctr = ([], ctr) := by
  rw [rejUniformReads, if_neg full]

theorem rejUniformReads_ctr (aLen : ℕ) :
    ∀ (tagged : List (UInt8 × ℕ)) (a : Poly) (ctr : ℕ),
      (rejUniformReads aLen tagged ctr).2 =
        (rejUniformUpTo aLen (tagged.map Prod.fst) a ctr).2
  | low :: middle :: high :: rest, a, ctr => by
      simp only [List.map_cons]
      by_cases room : ctr < aLen
      · rw [rejUniformReads_room _ _ _ _ room]
        by_cases kept : (uniformCandidate low.1 middle.1 high.1 : Int) < qConst
        · rw [rejUniformUpTo_kept _ _ _ _ _ room kept, nextCtr, if_pos kept]
          exact rejUniformReads_ctr aLen rest _ _
        · rw [rejUniformUpTo_skipped _ _ _ _ _ room kept, nextCtr, if_neg kept]
          exact rejUniformReads_ctr aLen rest _ _
      · rw [rejUniformUpTo_full _ _ _ _ _ room, rejUniformReads_full _ _ _ _ room]
  | [], _, _ => rfl
  | [_], _, _ => rfl
  | [_, _], _, _ => rfl

/-- The two runs have the same counters and the same bytes. -/
structure SameReads (state : UniformState) (read : UniformReadState) : Prop where
  ctr : read.ctr = state.ctr
  buf : read.buf.map Prod.fst = state.buf
  bufLen : read.bufLen = state.bufLen
  ctx : read.ctx = state.ctx

theorem sameReads_ofScan {a : Poly} {ctr : ℕ} {reads : List ℕ} {buf : List UInt8}
    {tagged : List (UInt8 × ℕ)} {bufLen : ℕ} {ctx : ShakeCtx}
    (bytes : tagged.map Prod.fst = buf) :
    SameReads (.ofScan (rejUniform buf a ctr) buf bufLen ctx)
      (.ofScan reads (rejUniformReads 256 tagged ctr) tagged bufLen ctx) where
  ctr := by
    rw [UniformReadState.ofScan, UniformState.ofScan, rejUniformReads_ctr 256 _ a, bytes,
      rejUniform_eq]
  buf := bytes
  bufLen := rfl
  ctx := rfl

theorem sameReads_start (xof : Xof) (rho : List UInt8) (i j : ℕ) :
    SameReads (uniformStart xof rho i j) (uniformReadStart xof rho i j) := by
  rw [uniformStart, uniformReadStart]
  exact sameReads_ofScan (map_fst_squeezePositions _ _)

theorem SameReads.condition (state : UniformState) (read : UniformReadState)
    (same : SameReads state read) :
    uniformUnfinished state = uniformReadUnfinished read := by
  rw [uniformUnfinished, uniformReadUnfinished, same.ctr]

theorem SameReads.refill (state : UniformState) (read : UniformReadState)
    (same : SameReads state read) :
    SameReads (uniformRefill state) (uniformReadRefill read) := by
  rw [uniformRefill, uniformReadRefill, same.ctr, same.bufLen, same.ctx]
  apply sameReads_ofScan
  rw [List.map_append, List.map_take, List.map_drop, same.buf, map_fst_squeezePositions]

/-- A scan with room reads whole candidates from the start of its block, at least one, and all
of them when it does not fill the polynomial. -/
theorem rejUniformReads_range (aLen : ℕ) : ∀ (bytes : List UInt8) (position ctr : ℕ),
    ∃ count,
      (rejUniformReads aLen (bytes.zip (List.range' position bytes.length)) ctr).1 =
        List.range' position (3 * count) ∧
      3 * count ≤ bytes.length ∧
      (ctr < aLen → 3 ≤ bytes.length → count ≠ 0) ∧
      ((rejUniformReads aLen (bytes.zip (List.range' position bytes.length)) ctr).2 < aLen →
        bytes.length < 3 * count + 3)
  | low :: middle :: high :: rest, position, ctr => by
      have tagged : (low :: middle :: high :: rest).zip
          (List.range' position (low :: middle :: high :: rest).length) =
            (low, position) :: (middle, position + 1) :: (high, position + 2) ::
              rest.zip (List.range' (position + 3) rest.length) := rfl
      have longer : ∀ count, position :: (position + 1) :: (position + 2) ::
          List.range' (position + 3) (3 * count) = List.range' position (3 * (count + 1)) :=
        fun _ => rfl
      rw [tagged]
      by_cases room : ctr < aLen
      · rw [rejUniformReads_room _ _ _ _ room]
        rcases rejUniformReads_range aLen rest (position + 3)
          (nextCtr low middle high ctr) with ⟨count, reads, within, _, all⟩
        refine ⟨count + 1, ?_, ?_, fun _ _ => count.succ_ne_zero, ?_⟩
        · rw [reads, longer]
        · simp only [List.length_cons]
          omega
        · intro unfinished
          have later := all unfinished
          simp only [List.length_cons]
          omega
      · rw [rejUniformReads_full _ _ _ _ room]
        exact ⟨0, rfl, Nat.zero_le _, fun free => absurd free room,
          fun unfinished => absurd unfinished room⟩
  | [], _, _ => ⟨0, rfl, Nat.zero_le _, fun _ => by simp, fun _ => by simp⟩
  | [_], _, _ => ⟨0, rfl, Nat.zero_le _, fun _ => by simp, fun _ => by simp⟩
  | [_, _], _, _ => ⟨0, rfl, Nat.zero_le _, fun _ => by simp, fun _ => by simp⟩

theorem squeezePositions_reads (ctx : ShakeCtx) (outlen ctr : ℕ) :
    ∃ count,
      (rejUniformReads 256 (squeezePositions ctx outlen) ctr).1 =
        List.range' ctx.position (3 * count) ∧
      3 * count ≤ outlen ∧ (ctr < 256 → 3 ≤ outlen → count ≠ 0) ∧
      ((rejUniformReads 256 (squeezePositions ctx outlen) ctr).2 < 256 →
        outlen < 3 * count + 3) := by
  have range := rejUniformReads_range 256 (ctx.squeeze outlen).1 ctx.position ctr
  rw [length_squeeze] at range
  exact range

end Reads

/-! ## With a refill -/

section Refill

variable {xof : Xof} {rho : List UInt8} {i j : ℕ}

theorem ofScan_reads {scanned : List ℕ × ℕ} {buf : List (UInt8 × ℕ)} {bufLen : ℕ}
    {ctx : ShakeCtx} (reads : List ℕ) :
    (UniformReadState.ofScan reads scanned buf bufLen ctx).reads = reads ++ scanned.1 := rfl

theorem ofScan_ctr {reads : List ℕ} {buf : List (UInt8 × ℕ)} {bufLen : ℕ}
    {ctx : ShakeCtx} (scanned : List ℕ × ℕ) :
    (UniformReadState.ofScan reads scanned buf bufLen ctx).ctr = scanned.2 := rfl

theorem finalized_position (input : List UInt8) :
    (ShakeCtx.finalized xof input).position = 0 := rfl

theorem readStart_bufLen : (uniformReadStart xof rho i j).bufLen = polyUniformBytes := rfl

theorem readStart_position :
    (uniformReadStart xof rho i j).ctx.position = polyUniformBytes + 2 := by
  rw [uniformReadStart]
  exact Nat.zero_add _

theorem reads_start (xof : Xof) (rho : List UInt8) (i j : ℕ) : ∃ count,
    (uniformReadStart xof rho i j).reads = List.range (3 * count) ∧
      (uniformReadUnfinished (uniformReadStart xof rho i j) = true →
        3 * count = polyUniformBytes) := by
  rcases squeezePositions_reads (ShakeCtx.finalized xof
      (rho ++ nonceBytes ((i <<< 8 + j) % 65536))) (polyUniformBytes + 2) 0 with
    ⟨count, reads, within, _, all⟩
  have length : polyUniformBytes = 3 * 280 := rfl
  refine ⟨count, ?_, ?_⟩
  · rw [uniformReadStart, ofScan_reads, reads, List.nil_append, List.range_eq_range',
      finalized_position]
  · intro unfinished
    rw [uniformReadUnfinished, decide_eq_true_eq, uniformReadStart, ofScan_ctr]
      at unfinished
    have later := all unfinished
    omega

/-- All positions below `length`, and then not the next two. -/
def Skips (length : ℕ) (reads : List ℕ) : Prop :=
  ∃ more, reads = List.range length ++ (length + 2) :: more

theorem Skips.append {length : ℕ} {reads : List ℕ} (skips : Skips length reads)
    (further : List ℕ) : Skips length (reads ++ further) := by
  rcases skips with ⟨more, rfl⟩
  exact ⟨more ++ further, by rw [List.append_assoc, List.cons_append]⟩

theorem Skips.not_range {length : ℕ} {reads : List ℕ} (skips : Skips length reads) :
    reads ≠ List.range reads.length := by
  rcases skips with ⟨more, rfl⟩
  intro range
  have read : (List.range length ++ (length + 2) :: more)[length]? = some (length + 2) := by
    rw [List.getElem?_append_right (by rw [List.length_range]), List.length_range,
      Nat.sub_self, List.getElem?_cons_zero]
  rw [range, List.getElem?_range (by simp)] at read
  have same := Option.some.inj read
  omega

/-- The first refill squeezes behind them. -/
theorem skips_refill
    (unfinished : uniformReadUnfinished (uniformReadStart xof rho i j) = true) :
    Skips polyUniformBytes (uniformReadRefill (uniformReadStart xof rho i j)).reads := by
  rcases reads_start xof rho i j with ⟨count, started, whole⟩
  have whole := whole unfinished
  rw [uniformReadUnfinished, decide_eq_true_eq] at unfinished
  rcases squeezePositions_reads (uniformReadStart xof rho i j).ctx shake128Rate
    (uniformReadStart xof rho i j).ctr with ⟨further, reads, _, nonempty, _⟩
  obtain ⟨rest, rfl⟩ := Nat.exists_eq_succ_of_ne_zero (nonempty unfinished (by decide))
  refine ⟨List.range' (polyUniformBytes + 2 + 1) (3 * rest + 2), ?_⟩
  have nothing : polyUniformBytes % 3 = 0 := rfl
  have longer : List.range' (polyUniformBytes + 2) (3 * (rest + 1)) =
      (polyUniformBytes + 2) :: List.range' (polyUniformBytes + 2 + 1) (3 * rest + 2) :=
    List.range'_succ
  rw [uniformReadRefill, ofScan_reads, readStart_bufLen, nothing, List.take_zero,
    List.nil_append, reads, started, whole, readStart_position, longer]

/-- A run that needs a refill skips two bytes. -/
theorem skips_run
    (unfinished : uniformReadUnfinished (uniformReadStart xof rho i j) = true)
    (halts : Halts uniformReadUnfinished uniformReadRefill (uniformReadStart xof rho i j)) :
    Skips polyUniformBytes (whileLoop _ _ _ halts).reads := by
  have run := whileLoop_invariant
    (fun state => state = uniformReadStart xof rho i j ∨ Skips polyUniformBytes state.reads)
    halts (.inl rfl)
    (by
      rintro state _ (rfl | skips)
      · exact .inr (skips_refill unfinished)
      · rw [uniformReadRefill, ofScan_reads]
        exact .inr (skips.append _))
  rcases run with ⟨same | skips, finished⟩
  · rw [same, unfinished] at finished
    cases finished
  · exact skips

end Refill

/-! ## The sampled polynomial -/

/-- The first 256 accepted candidates in order, from bytes that are read one behind the
other. -/
structure UniformFollows (stream : ℕ → UInt8) (sampled : Poly) (reads : List ℕ) : Prop where
  coeffs : ∃ count, 256 ≤ (acceptedCandidates stream count).length ∧
    ∀ n < 256, sampled.coeff n = ((acceptedCandidates stream count)[n]?.getD 0 : ℕ)
  reads : reads = List.range reads.length

section Follows

variable {values : List ℕ}

theorem uniformUnfinished_filled {state : UniformState}
    (filled : Filled Poly.assign 256 Poly.zero (values.map fun (t : ℕ) => (t : Int))
      (state.poly, state.ctr)) :
    uniformUnfinished state = decide (values.length < 256) := by
  have counted := filled.count
  rw [List.length_take, List.length_map] at counted
  rw [uniformUnfinished, decide_eq_decide]
  simp only at counted
  omega

theorem coeff_filled {a : Poly} {result : Poly × ℕ}
    (filled : Filled Poly.assign 256 a (values.map fun (t : ℕ) => (t : Int)) result)
    (enough : 256 ≤ values.length) {n : ℕ} (bound : n < 256) :
    result.1.coeff n = (values[n]?.getD 0 : ℕ) := by
  have within : n < values.length := by omega
  have length : ((values.map fun (t : ℕ) => (t : Int)).take 256).length = 256 := by
    rw [List.length_take_of_le (by rw [List.length_map]; exact enough)]
  have value := read_fillFrom Poly.coeff
    (fun store index value other bound => coeff_assign store value bound other)
    ((values.map fun (t : ℕ) => (t : Int)).take 256) a
    (show 0 + _ ≤ 256 by omega) n
  rw [if_pos (Nat.zero_le n), Nat.sub_zero, List.getElem?_take_of_lt bound,
    List.getElem?_map, List.getElem?_eq_getElem within, Option.map_some,
    Option.getD_some] at value
  rw [filled.store, value, List.getElem?_eq_getElem within, Option.getD_some]

/-- Two runs from related states, the second of which skips when it is refilled. -/
theorem follows_iff {stream : ℕ → UInt8} {start : UniformState}
    {readStart : UniformReadState} {count : ℕ}
    (filled : Filled Poly.assign 256 Poly.zero
      ((acceptedCandidates stream 280).map fun (t : ℕ) => (t : Int)) (start.poly, start.ctr))
    (same : uniformUnfinished start = uniformReadUnfinished readStart)
    (started : readStart.reads = List.range count)
    (skips : uniformReadUnfinished readStart = true → ∀ halts : Halts uniformReadUnfinished
      uniformReadRefill readStart, Skips polyUniformBytes (whileLoop _ _ _ halts).reads) :
    (∃ (halts : Halts uniformUnfinished uniformRefill start)
      (readHalts : Halts uniformReadUnfinished uniformReadRefill readStart),
      UniformFollows stream (whileLoop _ _ _ halts).poly (whileLoop _ _ _ readHalts).reads) ↔
      256 ≤ (acceptedCandidates stream 280).length := by
  have unfinished := uniformUnfinished_filled filled
  constructor
  · rintro ⟨_, readHalts, follows⟩
    by_contra few
    rw [decide_eq_true (Nat.lt_of_not_le few), same] at unfinished
    exact (skips unfinished readHalts).not_range follows.reads
  · intro enough
    rw [decide_eq_false (Nat.not_lt.mpr enough)] at unfinished
    have readFinished := unfinished
    rw [same] at readFinished
    refine ⟨halts_of_stopped unfinished, halts_of_stopped readFinished, ?_⟩
    rw [whileLoop_of_stopped _ unfinished, whileLoop_of_stopped _ readFinished]
    constructor
    · exact ⟨280, enough, fun n bound => coeff_filled filled enough bound⟩
    · rw [started, List.length_range]

/-- The sampling of `combined_method` follows its stream if and only if it needs no
refill. -/
theorem matrixEntry_follows_iff (xof : Xof) (rho : List UInt8) (i : Fin 8) (j : Fin 7) :
    (∃ (halts : Halts uniformUnfinished uniformRefill (uniformStart xof rho i j))
      (readHalts : Halts uniformReadUnfinished uniformReadRefill
        (uniformReadStart xof rho i j)),
      UniformFollows (entryStream xof rho i j) (whileLoop _ _ _ halts).poly
        (whileLoop _ _ _ readHalts).reads) ↔
      256 ≤ (acceptedCandidates (entryStream xof rho i j) 280).length := by
  rcases reads_start xof rho i j with ⟨count, started, _⟩
  exact follows_iff (uniformStart_filled xof rho i j)
    (sameReads_start xof rho i j).condition started skips_run

end Follows

/-! ## A stream that needs a refill -/

/-- The first 280 candidates are rejected, the next is 1, and all others are zero. -/
def lateStream (position : ℕ) : UInt8 :=
  if position < 840 then 255 else if position = 840 then 1 else 0

theorem candidate_early {m : ℕ} (early : m < 280) : candidate lateStream m = 8388607 := by
  have bytes : ∀ offset < 3, lateStream (3 * m + offset) = 255 :=
    fun offset bound => if_pos (by omega)
  rw [candidate, bytes 1 (by omega), bytes 2 (by omega), ← Nat.add_zero (3 * m),
    bytes 0 (by omega)]
  rfl

theorem lateStream_zero {position : ℕ} (late : 840 < position) :
    lateStream position = 0 := by
  rw [lateStream, if_neg (by omega), if_neg (by omega)]

theorem candidate_first : candidate lateStream 280 = 1 := by decide

theorem candidate_late {m : ℕ} (late : 280 < m) : candidate lateStream m = 0 := by
  rw [candidate, lateStream_zero (by omega), lateStream_zero (by omega),
    lateStream_zero (by omega)]
  rfl

theorem acceptedCandidates_early : acceptedCandidates lateStream 280 = [] :=
  accepted_eq_nil fun m early => by
    rw [candidate_early early]
    rfl

theorem acceptedCandidates_late :
    acceptedCandidates lateStream (280 + (255 + 1)) = 1 :: List.replicate 255 0 := by
  have rejected : accepted (candidate lateStream) (fun t => (t : Int) < qConst) 280 = [] :=
    acceptedCandidates_early
  have zeros : accepted (fun n => candidate lateStream (280 + (n + 1)))
      (fun t => (t : Int) < qConst) 255 = List.replicate 255 0 :=
    accepted_replicate rfl fun m _ => candidate_late (by omega)
  rw [acceptedCandidates, accepted_add, rejected, List.nil_append, accepted_succ, zeros,
    Nat.add_zero, candidate_first]
  rfl

theorem bytesFrom_late {outlen : ℕ} : ∀ {position : ℕ}, 840 < position →
    ∀ byte ∈ ShakeCtx.bytesFrom lateStream position outlen, byte = 0 := by
  induction outlen with
  | zero =>
      intro position _ byte member
      cases member
  | succ outlen induction =>
      intro position late byte member
      rw [ShakeCtx.bytesFrom] at member
      rcases List.mem_cons.mp member with rfl | later
      · exact lateStream_zero late
      · exact induction (Nat.lt_succ_of_lt late) byte later

theorem rejUniform_advances (a : Poly) {ctr : ℕ} (room : ctr < 256) : ∀ bytes : List UInt8,
    (∀ byte ∈ bytes, byte = 0) → 3 ≤ bytes.length → ctr < (rejUniform bytes a ctr).2
  | low :: middle :: high :: rest, zeros, _ => by
      obtain rfl := zeros low (by simp)
      obtain rfl := zeros middle (by simp)
      obtain rfl := zeros high (by simp)
      have zero : uniformCandidate 0 0 0 = 0 := by decide
      have kept : ((0 : ℕ) : Int) < qConst := by decide
      rw [scans_rejUniform _ a ctr (Nat.le_of_lt room), blockCandidates, zero]
      simp only [if_pos kept, List.map_cons, List.length_take, List.length_cons]
      omega

structure ZerosLeft (state : UniformState) : Prop where
  poly : state.poly = Poly.zero
  stream : state.ctx.stream = lateStream
  position : 840 < state.ctx.position
  kept : ∀ byte ∈ (state.buf.drop (state.bufLen - state.bufLen % 3)).take (state.bufLen % 3),
    byte = 0

theorem ZerosLeft.refill {state : UniformState} (zeros : ZerosLeft state)
    (running : uniformUnfinished state = true) :
    ZerosLeft (uniformRefill state) ∧
      256 - (uniformRefill state).ctr < 256 - state.ctr := by
  rw [uniformUnfinished, decide_eq_true_eq] at running
  have position := zeros.position
  have bytes : ∀ byte ∈ (state.buf.drop (state.bufLen - state.bufLen % 3)).take
      (state.bufLen % 3) ++ (state.ctx.squeeze shake128Rate).1, byte = 0 := by
    intro byte member
    rcases List.mem_append.mp member with kept | squeezed
    · exact zeros.kept byte kept
    · rw [ShakeCtx.squeeze, zeros.stream] at squeezed
      exact bytesFrom_late position byte squeezed
  have long : 3 ≤ ((state.buf.drop (state.bufLen - state.bufLen % 3)).take
      (state.bufLen % 3) ++ (state.ctx.squeeze shake128Rate).1).length := by
    rw [List.length_append, length_squeeze, shake128Rate]
    omega
  have advances := rejUniform_advances state.poly running _ bytes long
  rw [uniformRefill]
  generalize (state.buf.drop (state.bufLen - state.bufLen % 3)).take
      (state.bufLen % 3) ++ (state.ctx.squeeze shake128Rate).1 = buf at bytes advances ⊢
  refine ⟨⟨?_, zeros.stream, ?_, ?_⟩, ?_⟩
  · rw [zeros.poly, ofScan_poly]
    exact rejUniform_zero_poly buf state.ctr bytes
  · exact Nat.lt_add_right _ position
  · exact fun byte member => bytes byte (List.mem_of_mem_drop (List.mem_of_mem_take member))
  · exact Nat.sub_lt_sub_left running advances

theorem zerosLeft_start :
    ZerosLeft (uniformStart (fun _ => lateStream) (List.replicate 32 0) (0 : Fin 8)
      (0 : Fin 7)) := by
  have filled := (uniformStart_filled (fun _ => lateStream) (List.replicate 32 0) 0 0).store
  rw [entryStream, acceptedCandidates_early, List.map_nil, List.take_nil, fillFrom] at filled
  simp only at filled
  have whole : (840 : ℕ) % 3 = 0 := by norm_num
  constructor
  · exact filled
  · rw [uniformStart_eq, UniformState.ofScan, entryStream]
  · rw [uniformStart_eq, UniformState.ofScan]
    norm_num
  · rw [uniformStart_eq]
    simp only [UniformState.ofScan, whole, List.take_zero, List.not_mem_nil, false_implies,
      implies_true]

theorem lateHalts : Halts uniformUnfinished uniformRefill (uniformStart
    (fun _ => lateStream) (List.replicate 32 0) (0 : Fin 8) (0 : Fin 7)) := by
  apply halts_of_measure (fun state => 256 - state.ctr) ZerosLeft
  · exact fun state running zeros => zeros.refill running
  · exact zerosLeft_start

theorem poly_late : (whileLoop _ _ _ lateHalts).poly = Poly.zero :=
  (whileLoop_invariant ZerosLeft lateHalts zerosLeft_start
    fun _ running zeros => (zeros.refill running).1).1.poly

/-- The first accepted candidate of this stream is 1, and the entry is zero. -/
theorem matrixEntry_late :
    256 ≤ (acceptedCandidates lateStream (280 + (255 + 1))).length ∧
      (acceptedCandidates lateStream (280 + (255 + 1)))[0]? = some 1 ∧
      ∃ halts : Halts uniformUnfinished uniformRefill (uniformStart (fun _ => lateStream)
        (List.replicate 32 0) (0 : Fin 8) (0 : Fin 7)),
        (whileLoop _ _ _ halts).poly.coeff 0 = 0 := by
  rw [acceptedCandidates_late]
  refine ⟨?_, rfl, lateHalts, ?_⟩
  · rw [List.length_cons, List.length_replicate]
  · rw [poly_late]
    decide

end LedgerQrl.Mldsa87
