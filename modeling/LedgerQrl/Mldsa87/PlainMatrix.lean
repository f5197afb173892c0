import LedgerQrl.Mldsa87.Stages
import LedgerQrl.Mldsa87.UniformSampling

namespace LedgerQrl.Mldsa87

open Foundation Poly InternalStorage

/-! # The plain matrix product

`poly_vec_matrix_expand` samples the whole matrix before
`poly_vec_matrix_pointwise_montgomery` multiplies with it. A refill of `poly_uniform`
goes on at the front of the polynomial, so that its end keeps what it held. -/

/-! ## `poly_uniform` -/

/-- The bytes of a buffer from `start` on are overwritten. -/
def overwrite (buf : List UInt8) (start : ℕ) (bytes : List UInt8) : List UInt8 :=
  buf.take start ++ bytes ++ buf.drop (start + bytes.length)

structure PolyUniformState where
  poly : Poly
  ctr : ℕ
  buf : List UInt8
  ptr : ℕ
  bufLen : ℕ
  ctx : ShakeCtx

def PolyUniformState.ofScan (ctr : ℕ) (scanned : Poly × ℕ) (buf : List UInt8)
    (ptr bufLen : ℕ) (ctx : ShakeCtx) : PolyUniformState where
  poly := scanned.1
  ctr := ctr + scanned.2
  buf := buf
  ptr := ptr
  bufLen := bufLen
  ctx := ctx

def polyUniformStart (xof : Xof) (a : Poly) (seed : List UInt8) (nonce : ℕ) :
    PolyUniformState :=
  let ctx := ShakeCtx.finalized xof (seed ++ nonceBytes nonce)
  let squeezed := ctx.squeeze (polyUniformBytes + 2)
  .ofScan 0 (rejUniformUpTo 256 (squeezed.1.take polyUniformBytes) a 0) squeezed.1 0
    polyUniformBytes squeezed.2

def polyUniformUnfinished (state : PolyUniformState) : Bool := state.ctr < 256

/-- `rej_uniform` gets the whole polynomial again, with the length that is left. -/
def polyUniformRefill (state : PolyUniformState) : PolyUniformState :=
  let off := state.bufLen % 3
  let buf := overwrite state.buf 0 ((state.buf.drop (state.bufLen - off)).take off)
  let ptr := state.ptr + off
  let squeezed := state.ctx.squeeze shake128Rate
  let buf := overwrite buf ptr squeezed.1
  let bufLen := shake128Rate + off
  .ofScan state.ctr (rejUniformUpTo (256 - state.ctr) (buf.take bufLen) state.poly 0) buf
    ptr bufLen squeezed.2

/-! ## Both samplers -/

/-- The plain run has the counter of the other, and its buffer holds whole candidates. -/
structure SamePlain (state : UniformState) (plain : PolyUniformState) : Prop where
  ctr : plain.ctr = state.ctr
  within : state.ctr ≤ 256
  bufLen : plain.bufLen = state.bufLen
  whole : state.bufLen % 3 = 0
  ptr : plain.ptr = 0
  ctx : plain.ctx = state.ctx

theorem SamePlain.condition (state : UniformState) (plain : PolyUniformState)
    (same : SamePlain state plain) :
    uniformUnfinished state = polyUniformUnfinished plain := by
  rw [uniformUnfinished, polyUniformUnfinished, same.ctr]

theorem take_bytesFrom (stream : ℕ → UInt8) (position first second : ℕ) :
    (ShakeCtx.bytesFrom stream position (first + second)).take first =
      ShakeCtx.bytesFrom stream position first := by
  rw [bytesFrom_add, List.take_left' (length_bytesFrom _ _ _)]

section Start

variable (xof : Xof) (a : Poly) (rho : List UInt8) (i : Fin 8) (j : Fin 7)

def entryStart : PolyUniformState :=
  polyUniformStart xof a rho (((i : ℕ) <<< 8 + (j : ℕ)) % 65536)

theorem entryStart_eq :
    entryStart xof a rho i j =
      .ofScan 0 (rejUniformUpTo 256
          (ShakeCtx.bytesFrom (entryStream xof rho i j) 0 polyUniformBytes) a 0)
        (ShakeCtx.bytesFrom (entryStream xof rho i j) 0 842) 0 polyUniformBytes
        { stream := entryStream xof rho i j, position := 842 } := by
  have block : ((ShakeCtx.finalized xof (rho ++ [UInt8.ofNat j, UInt8.ofNat i])).squeeze
      (polyUniformBytes + 2)).1.take polyUniformBytes =
        ShakeCtx.bytesFrom (entryStream xof rho i j) 0 polyUniformBytes :=
    take_bytesFrom (entryStream xof rho i j) 0 polyUniformBytes 2
  rw [entryStart, polyUniformStart, nonceBytes_entry]
  simp only [block]
  rfl

theorem plainScan_eq (scanned : Poly × ℕ) (buf : List UInt8) (ptr bufLen : ℕ)
    (ctx : ShakeCtx) :
    ((PolyUniformState.ofScan 0 scanned buf ptr bufLen ctx).poly,
      (PolyUniformState.ofScan 0 scanned buf ptr bufLen ctx).ctr) = scanned := by
  rw [PolyUniformState.ofScan, Nat.zero_add]

theorem entryStart_filled :
    Filled Poly.assign 256 a
      ((acceptedCandidates (entryStream xof rho i j) 280).map fun (t : ℕ) => (t : Int))
      ((entryStart xof a rho i j).poly, (entryStart xof a rho i j).ctr) := by
  have first : Filled Poly.assign 256 a [] (a, 0) := filled_nil _
  have scanned := first.scan (scans_rejUniformUpTo 256
    (ShakeCtx.bytesFrom (entryStream xof rho i j) 0 (3 * 280 + 0)))
  have bytes : 3 * 280 + 0 = polyUniformBytes := rfl
  rw [blockCandidates_bytesFrom (Nat.zero_lt_succ 2), List.nil_append, bytes] at scanned
  simp only [Nat.zero_add] at scanned
  rw [entryStart_eq, plainScan_eq]
  exact scanned

theorem SamePlain.ofScan {scanned plainScanned : Poly × ℕ} {ctr bufLen : ℕ}
    {buf plainBuf : List UInt8} {ctx : ShakeCtx} (same : ctr + plainScanned.2 = scanned.2)
    (within : scanned.2 ≤ 256) (whole : bufLen % 3 = 0) :
    SamePlain (.ofScan scanned buf bufLen ctx)
      (.ofScan ctr plainScanned plainBuf 0 bufLen ctx) where
  ctr := same
  within := within
  bufLen := rfl
  whole := whole
  ptr := rfl
  ctx := rfl

theorem samePlain_start :
    SamePlain (uniformStart xof rho i j) (entryStart xof a rho i j) := by
  have counted := (uniformStart_filled xof rho i j).count
  have plain := (entryStart_filled xof a rho i j).count
  rw [uniformStart_eq, ofScan_scanned] at counted
  rw [entryStart_eq, plainScan_eq] at plain
  rw [uniformStart_eq, entryStart_eq]
  apply SamePlain.ofScan
  · rw [Nat.zero_add, plain, counted]
  · rw [counted, List.length_take]
    exact Nat.min_le_left _ _
  · decide

end Start

/-! ## Refills -/

theorem overwrite_nil (buf : List UInt8) : overwrite buf 0 [] = buf := by
  rw [overwrite, List.take_zero, List.append_nil, List.nil_append, List.length_nil,
    Nat.add_zero, List.drop_zero]

theorem take_overwrite (buf bytes : List UInt8) :
    (overwrite buf 0 bytes).take bytes.length = bytes := by
  rw [overwrite, List.take_zero, List.nil_append, List.take_left]

theorem polyUniformRefill_eq {state : PolyUniformState} (whole : state.bufLen % 3 = 0)
    (front : state.ptr = 0) :
    polyUniformRefill state =
      .ofScan state.ctr (rejUniformUpTo (256 - state.ctr)
          (state.ctx.squeeze shake128Rate).1 state.poly 0)
        (overwrite state.buf 0 (state.ctx.squeeze shake128Rate).1) 0 shake128Rate
        (state.ctx.squeeze shake128Rate).2 := by
  have block := take_overwrite state.buf (state.ctx.squeeze shake128Rate).1
  rw [length_squeeze] at block
  rw [polyUniformRefill]
  simp only [whole, front, List.take_zero, overwrite_nil, Nat.add_zero, block]

theorem uniformRefill_eq {state : UniformState} (whole : state.bufLen % 3 = 0) :
    uniformRefill state =
      .ofScan (rejUniform (state.ctx.squeeze shake128Rate).1 state.poly state.ctr)
        (state.ctx.squeeze shake128Rate).1 shake128Rate
        (state.ctx.squeeze shake128Rate).2 := by
  rw [uniformRefill]
  simp only [whole, List.take_zero, List.nil_append, Nat.add_zero]

theorem SamePlain.refill (state : UniformState) (plain : PolyUniformState)
    (same : SamePlain state plain) :
    SamePlain (uniformRefill state) (polyUniformRefill plain) := by
  have plainWhole : plain.bufLen % 3 = 0 := by rw [same.bufLen, same.whole]
  have scanned := scans_rejUniform (state.ctx.squeeze shake128Rate).1 state.poly state.ctr
    same.within
  have plainScanned := scans_rejUniformUpTo (256 - state.ctr)
    (state.ctx.squeeze shake128Rate).1 plain.poly 0 (Nat.zero_le _)
  have within := same.within
  rw [uniformRefill_eq same.whole, polyUniformRefill_eq plainWhole same.ptr, same.ctr,
    same.ctx]
  apply SamePlain.ofScan
  · rw [scanned, plainScanned, Nat.zero_add, Nat.sub_zero]
  · rw [scanned, List.length_take]
    simp only
    omega
  · decide

/-! ## The last coefficient -/

theorem coeff_fillFrom_behind {values : List Int} {index : ℕ} (behind : values.length ≤ index)
    (within : index < 256) (a : Poly) :
    (fillFrom Poly.assign a 0 values).coeff index = a.coeff index := by
  have value := read_fillFrom Poly.coeff
    (fun store index value other bound => coeff_assign store value bound other)
    values a (show 0 + values.length ≤ 256 by omega) index
  rwa [if_pos (Nat.zero_le index), Nat.sub_zero, List.getElem?_eq_none behind,
    Option.getD_none] at value

theorem length_blockCandidates_squeeze (ctx : ShakeCtx) :
    (blockCandidates (ctx.squeeze shake128Rate).1).length ≤ 56 := by
  have block := blockCandidates_bytesFrom (Nat.zero_lt_succ 2) 56 ctx.position ctx.stream
  have bytes : 3 * 56 + 0 = shake128Rate := rfl
  rw [bytes] at block
  rw [ShakeCtx.squeeze, block]
  exact length_accepted_le 56

/-- A refill has 56 candidates, so that it does not reach the last coefficient. -/
theorem coeff_polyUniformRefill {state : PolyUniformState} (whole : state.bufLen % 3 = 0)
    (front : state.ptr = 0) :
    (polyUniformRefill state).poly.coeff 255 = state.poly.coeff 255 := by
  have few := length_blockCandidates_squeeze state.ctx
  rw [polyUniformRefill_eq whole front, PolyUniformState.ofScan,
    scans_rejUniformUpTo _ _ state.poly 0 (Nat.zero_le _)]
  apply coeff_fillFrom_behind
  · rw [List.length_take, List.length_map]
    omega
  · norm_num

/-- Too few candidates do not reach it. -/
theorem coeff_filled_behind {values : List ℕ} {a poly : Poly} {ctr : ℕ}
    (filled : Filled Poly.assign 256 a (values.map fun (t : ℕ) => (t : Int)) (poly, ctr))
    (few : values.length < 256) : poly.coeff 255 = a.coeff 255 := by
  have stored : poly = _ := filled.store
  rw [stored]
  apply coeff_fillFrom_behind
  · rw [List.length_take, List.length_map]
    omega
  · norm_num

/-! ## The matrix -/

namespace Shake

variable (shake : Shake)

/-- `poly_uniform` reads the bytes that `combined_method` reads, so that it stops with it. -/
theorem polyUniformHalts (a : Poly) (rho : List UInt8) (i : Fin 8) (j : Fin 7) :
    Halts polyUniformUnfinished polyUniformRefill (entryStart shake.shake128 a rho i j) :=
  (shake.uniformHalts rho i j).simulates SamePlain (samePlain_start shake.shake128 a rho i j)
    SamePlain.condition fun _ _ same _ => same.refill

/-- `poly_uniform` on a polynomial that holds `a` before. -/
def polyUniform (a : Poly) (rho : List UInt8) (i : Fin 8) (j : Fin 7) : Poly :=
  (whileLoop _ _ _ (shake.polyUniformHalts a rho i j)).poly

def polyVecMatrixExpand (mat : Vector PolyVecL 8) (rho : List UInt8) : Vector PolyVecL 8 :=
  Vector.ofFn fun i => Vector.ofFn fun j => shake.polyUniform mat[i][j] rho i j

end Shake

/-- The first product overwrites `w`. -/
def polyVecLPointwiseAccMontgomery (_w : Poly) (u v : PolyVecL) : Poly :=
  let w := polyPointwiseMontgomery u[(0 : Fin 7)] v[(0 : Fin 7)]
  ([1, 2, 3, 4, 5, 6] : List (Fin 7)).foldl (fun w i =>
    let t := polyPointwiseMontgomery u[i] v[i]
    polyAdd w t) w

def polyVecMatrixPointwiseMontgomery (t : PolyVecK) (mat : Vector PolyVecL 8)
    (v : PolyVecL) : PolyVecK :=
  Vector.ofFn fun i => polyVecLPointwiseAccMontgomery t[i] mat[i] v

section Entries

variable (shake : Shake) {rho : List UInt8} {i : Fin 8} {j : Fin 7}

theorem filled_unique {values : List ℕ} {a b poly other : Poly} {ctr otherCtr : ℕ}
    (filled : Filled Poly.assign 256 a (values.map fun (t : ℕ) => (t : Int)) (poly, ctr))
    (otherFilled : Filled Poly.assign 256 b (values.map fun (t : ℕ) => (t : Int))
      (other, otherCtr)) (enough : 256 ≤ values.length) : poly = other := by
  apply Poly.ext_coeff
  intro n bound
  exact (coeff_filled filled enough bound).trans (coeff_filled otherFilled enough bound).symm

/-- Without a refill both samplers store the same candidates. -/
theorem polyUniform_eq
    (enough : 256 ≤ (acceptedCandidates (entryStream shake.shake128 rho i j) 280).length)
    (a : Poly) : shake.polyUniform a rho i j = shake.matrixEntry rho i j := by
  have filled := uniformStart_filled shake.shake128 rho i j
  have stopped := uniformUnfinished_filled filled
  have plainStopped := (samePlain_start shake.shake128 a rho i j).condition
  rw [decide_eq_false (Nat.not_lt.mpr enough)] at stopped
  rw [stopped] at plainStopped
  rw [Shake.polyUniform, Shake.matrixEntry, whileLoop_of_stopped _ plainStopped.symm,
    whileLoop_of_stopped _ stopped]
  exact filled_unique (entryStart_filled shake.shake128 a rho i j) filled enough

/-- The state of a run that keeps the last coefficient of `a`. -/
structure KeepsLast (a : Poly) (state : PolyUniformState) : Prop where
  last : state.poly.coeff 255 = a.coeff 255
  whole : state.bufLen % 3 = 0
  ptr : state.ptr = 0

theorem KeepsLast.refill {a : Poly} {state : PolyUniformState} (keeps : KeepsLast a state) :
    KeepsLast a (polyUniformRefill state) where
  last := (coeff_polyUniformRefill keeps.whole keeps.ptr).trans keeps.last
  whole := by
    have rate : shake128Rate % 3 = 0 := by decide
    rw [polyUniformRefill_eq keeps.whole keeps.ptr, PolyUniformState.ofScan]
    exact rate
  ptr := by rw [polyUniformRefill_eq keeps.whole keeps.ptr, PolyUniformState.ofScan]

/-- With a refill the last coefficient is the one from before. -/
theorem coeff_polyUniform
    (few : (acceptedCandidates (entryStream shake.shake128 rho i j) 280).length < 256)
    (a : Poly) : (shake.polyUniform a rho i j).coeff 255 = a.coeff 255 := by
  have filled := entryStart_filled shake.shake128 a rho i j
  have same := samePlain_start shake.shake128 a rho i j
  have start : KeepsLast a (entryStart shake.shake128 a rho i j) :=
    { last := coeff_filled_behind filled few
      whole := by rw [same.bufLen, same.whole]
      ptr := same.ptr }
  rw [Shake.polyUniform]
  exact (whileLoop_invariant (KeepsLast a) (shake.polyUniformHalts a rho i j) start
    fun _ _ keeps => keeps.refill).1.last

end Entries

/-! ## Both products -/

section Products

variable (shake : Shake) (rho : List UInt8)

/-- The rows of the plain product are those of `combined_method`, over the entries of
`poly_uniform`. -/
theorem plainProduct_eq (t before : PolyVecK) (mat : Vector PolyVecL 8) (v : PolyVecL) :
    polyVecMatrixPointwiseMontgomery t (shake.polyVecMatrixExpand mat rho) v =
      Vector.ofFn fun i : Fin 8 =>
        rowProduct (fun j => shake.polyUniform mat[i][j] rho i j) v before[i] := by
  rw [polyVecMatrixPointwiseMontgomery]
  congr 1
  funext i
  have entry : ∀ k : Fin 7, (shake.polyVecMatrixExpand mat rho)[i][k] =
      shake.polyUniform mat[i][k] rho i k := by
    intro k
    simp only [Shake.polyVecMatrixExpand, getElem_index, Vector.getElem_ofFn]
  rw [rowProduct_eq, polyVecLPointwiseAccMontgomery]
  simp only [← entry]

def lastOf (j : Fin 7) : PolyVecL :=
  Vector.ofFn fun k => Vector.ofFn fun n => if k = j ∧ n.val = 255 then 1 else 0

theorem coeff_lastOf (j k : Fin 7) {n : ℕ} (bound : n < 256) :
    (lastOf j)[k].coeff n = if k = j ∧ n = 255 then 1 else 0 := by
  rw [lastOf, getElem_index, Vector.getElem_ofFn, coeff_ofFn _ bound]

theorem coeff_rowProduct_lastOf (row : Fin 7 → Poly) (j : Fin 7) (before : Poly) :
    (rowProduct row (lastOf j) before).coeff 255 =
      montgomeryReduce ((row j).coeff 255) := by
  have term : ∀ k, (polyPointwiseMontgomery (row k) (lastOf j)[k]).coeff 255 =
      if k = j then montgomeryReduce ((row j).coeff 255) else 0 := by
    intro k
    have zero : montgomeryReduce 0 = 0 := by decide
    rw [polyPointwiseMontgomery, coeff_zipWith _ _ _ (by norm_num),
      coeff_lastOf j k (by norm_num)]
    by_cases same : k = j
    · rw [if_pos ⟨same, rfl⟩, if_pos same, mul_one, same]
    · rw [if_neg (fun both => same both.1), if_neg same, mul_zero, zero]
  have word : i32 (montgomeryReduce ((row j).coeff 255)) =
      montgomeryReduce ((row j).coeff 255) :=
    i32_of_inInt32 (i32_inInt32 _)
  have sum : ∀ a b : Poly, (polyAdd a b).coeff 255 = i32 (a.coeff 255 + b.coeff 255) :=
    fun a b => coeff_zipWith _ a b (by norm_num)
  rw [rowProduct_eq]
  simp only [List.foldl_cons, List.foldl_nil, sum, term]
  have zero : i32 0 = 0 := by decide
  generalize montgomeryReduce ((row j).coeff 255) = x at word
  fin_cases j <;> simp [word, zero]

/-- `combined_method` leaves what the plain product leaves, for every vector below the bound
and whatever the target and the matrix held before. -/
def ProductsAgree (t1 : Region InternalStorage PolyVecK) : Prop :=
  ∀ s1hat : InternalStorage → PolyVecL, Independent t1 s1hat →
    ∀ (mat : Vector PolyVecL 8) (storage : InternalStorage),
      (∀ (j : Fin 7) (n : ℕ), n < 256 → |(s1hat storage)[j].coeff n| < 9 * qConst) →
        t1.read ((combinedMethod shake t1 s1hat rho).finish storage) =
          polyVecMatrixPointwiseMontgomery (t1.read storage)
            (shake.polyVecMatrixExpand mat rho) (s1hat storage)

theorem coeff_products (t1 : Region InternalStorage PolyVecK) (mat : Vector PolyVecL 8)
    (storage : InternalStorage) (i : Fin 8) (j : Fin 7) :
    (t1.read ((combinedMethod shake t1 (fun _ => lastOf j) rho).finish storage))[i].coeff 255 =
        montgomeryReduce ((shake.matrixEntry rho i j).coeff 255) ∧
      (polyVecMatrixPointwiseMontgomery (t1.read storage)
          (shake.polyVecMatrixExpand mat rho) (lastOf j))[i].coeff 255 =
        montgomeryReduce ((shake.polyUniform mat[i][j] rho i j).coeff 255) := by
  rw [finish_combinedMethod shake t1 (independent_const t1 _), Region.read_write,
    plainProduct_eq shake rho _ (t1.read storage)]
  simp only [getElem_index, Vector.getElem_ofFn]
  exact ⟨coeff_rowProduct_lastOf _ j _, coeff_rowProduct_lastOf _ j _⟩

theorem lastOf_small (j k : Fin 7) {n : ℕ} (bound : n < 256) :
    |(lastOf j)[k].coeff n| < 9 * qConst := by
  rw [coeff_lastOf j k bound]
  split
  · decide
  · decide

def constantMatrix (value : Int) : Vector PolyVecL 8 :=
  Vector.replicate 8 (Vector.replicate 7 (Vector.replicate 256 value))

theorem coeff_constantMatrix (value : Int) (i : Fin 8) (j : Fin 7) :
    (constantMatrix value)[i][j].coeff 255 = value := by
  simp [constantMatrix, Poly.coeff]

theorem exists_montgomeryReduce_ne (x : Int) : ∃ value, montgomeryReduce value ≠ x := by
  have zero : montgomeryReduce 0 = 0 := by decide
  have one : montgomeryReduce 1 = -114592 := by decide
  by_cases same : x = 0
  · exact ⟨1, by rw [one, same]; norm_num⟩
  · exact ⟨0, by rw [zero]; exact fun equal => same equal.symm⟩

/-- Both products agree if and only if no entry needs a refill. -/
theorem productsAgree_iff (t1 : Region InternalStorage PolyVecK) :
    ProductsAgree shake rho t1 ↔
      ∀ (i : Fin 8) (j : Fin 7),
        256 ≤ (acceptedCandidates (entryStream shake.shake128 rho i j) 280).length := by
  constructor
  · intro agree i j
    by_contra few
    rcases exists_montgomeryReduce_ne
      (montgomeryReduce ((shake.matrixEntry rho i j).coeff 255)) with ⟨value, different⟩
    have same := agree (fun _ => lastOf j) (independent_const t1 _) (constantMatrix value)
      .zeroed fun k n bound => lastOf_small j k bound
    have coeffs := coeff_products shake rho t1 (constantMatrix value) .zeroed i j
    rw [same, coeffs.2, coeff_polyUniform shake (Nat.lt_of_not_le few),
      coeff_constantMatrix] at coeffs
    exact different coeffs.1
  · intro enough s1hat independent mat storage _
    rw [finish_combinedMethod shake t1 independent, Region.read_write,
      plainProduct_eq shake rho _ (t1.read storage)]
    simp only [polyUniform_eq shake (enough _ _)]

end Products

/-! ## A stream that needs refills -/

theorem uniformStart_late (rho : List UInt8) (i j : ℕ) :
    uniformStart (fun _ => lateStream) rho i j =
      uniformStart (fun _ => lateStream) (List.replicate 32 0) (0 : Fin 8) (0 : Fin 7) := by
  rw [uniformStart, uniformStart, ShakeCtx.finalized, ShakeCtx.finalized]

theorem uniformHalts_late (rho : List UInt8) (i j : ℕ) :
    Halts uniformUnfinished uniformRefill (uniformStart (fun _ => lateStream) rho i j) := by
  rw [uniformStart_late]
  exact lateHalts

/-- Every entry needs refills. -/
def lateShake : Shake where
  shake128 := fun _ => lateStream
  shake256 := fun _ _ => 34
  uniformHalts := uniformHalts_late
  etaHalts := etaHalts_accepted fun _ _ => acceptedByte_two
  challengeHalts := challengeHalts_accepted fun _ _ => acceptedByte_two

theorem matrixEntry_lateShake :
    lateShake.matrixEntry (List.replicate 32 0) (0 : Fin 8) (0 : Fin 7) = Poly.zero := by
  rw [Shake.matrixEntry]
  exact poly_late

/-- The plain product has a coefficient from the matrix that was there before. -/
theorem products_late :
    (∀ (k : Fin 7) (n : ℕ), n < 256 → |(lastOf 0)[k].coeff n| < 9 * qConst) ∧
      (t1Region.read ((combinedMethod lateShake t1Region (fun _ => lastOf 0)
        (List.replicate 32 0)).finish .zeroed))[(0 : Fin 8)].coeff 255 = 0 ∧
      (polyVecMatrixPointwiseMontgomery (t1Region.read .zeroed)
        (lateShake.polyVecMatrixExpand (constantMatrix 1) (List.replicate 32 0))
        (lastOf 0))[(0 : Fin 8)].coeff 255 = -114592 := by
  have coeffs := coeff_products lateShake (List.replicate 32 0) t1Region (constantMatrix 1)
    .zeroed 0 0
  have few : (acceptedCandidates (entryStream lateShake.shake128 (List.replicate 32 0) 0 0)
      280).length < 256 := by
    have none : acceptedCandidates lateStream 280 = [] := acceptedCandidates_early
    rw [entryStream, lateShake, none, List.length_nil]
    norm_num
  refine ⟨fun k n bound => lastOf_small 0 k bound, ?_, ?_⟩
  · rw [coeffs.1, matrixEntry_lateShake]
    decide
  · rw [coeffs.2, coeff_polyUniform lateShake few, coeff_constantMatrix]
    decide

end LedgerQrl.Mldsa87
