import LedgerQrl.Mldsa87.GuardedStorage
import LedgerQrl.Mldsa87.Signing
import LedgerQrl.Mldsa87.Verification

namespace LedgerQrl.Mldsa87.Guarded

open Foundation Poly InternalStorage GuardedProgram

/-! # The range after every step

Each loop over the storage passes on rows in range, and leaves rows in range. -/

def Rows {rows : ℕ} (range : Poly → Prop) (v : Vector Poly rows) : Prop :=
  ∀ i : Fin rows, range v[i]

def UpTo (limit : Int) (a : Poly) : Prop := a.Bounded limit

def Writes {rows : ℕ} (region : Region InternalStorage (Vector Poly rows))
    (range : Poly → Prop) (before : InternalStorage) (_ : Unit) (after : InternalStorage) :
    Prop :=
  ∃ v, Rows range v ∧ after = region.write v before

section Rows

variable {rows : ℕ} {range : Poly → Prop}

theorem rows_map {before : Poly → Prop} {v : Vector Poly rows} {f : Poly → Poly}
    (rowsBefore : Rows before v) (each : ∀ a, before a → range (f a)) :
    Rows range (v.map f) := by
  intro i
  rw [getElem_index, Vector.getElem_map]
  exact each _ (rowsBefore i)

theorem rows_zipWith {left right : Poly → Prop} {v w : Vector Poly rows}
    {f : Poly → Poly → Poly} (rowsLeft : Rows left v) (rowsRight : Rows right w)
    (each : ∀ a b, left a → right b → range (f a b)) :
    Rows range (Vector.zipWith f v w) := by
  intro i
  rw [getElem_index, Vector.getElem_zipWith]
  exact each _ _ (rowsLeft i) (rowsRight i)

theorem rows_ofFn {row : Fin rows → Poly} (each : ∀ i, range (row i)) :
    Rows range (Vector.ofFn row) := by
  intro i
  rw [getElem_index, Vector.getElem_ofFn]
  exact each i

theorem Rows.mono {before : Poly → Prop} {v : Vector Poly rows}
    (rowsBefore : Rows before v) (each : ∀ a, before a → range a) : Rows range v :=
  fun i => each _ (rowsBefore i)

theorem Rows.upTo {limit larger : Int} {v : Vector Poly rows} (bounded : Rows (UpTo limit) v)
    (le : limit ≤ larger) : Rows (UpTo larger) v :=
  bounded.mono fun _ small => small.mono le

end Rows

section Words

variable {a : Poly} {limit low high : Int}

theorem UpTo.within (bounded : UpTo limit a) (below : low ≤ -limit) (above : limit < high) :
    Within low high a := by
  intro index bound
  have coefficient := bounded index bound
  rw [abs_le] at coefficient
  omega

theorem Within.upTo (range : Within low high a) (below : -limit ≤ low)
    (above : high ≤ limit + 1) : UpTo limit a := by
  intro index bound
  have coefficient := range index bound
  rw [abs_le]
  omega

theorem within_map {f : Int → Int} (range : Within 0 qConst a)
    (each : ∀ value, 0 ≤ value → value < qConst → low ≤ f value ∧ f value < high) :
    Within low high (a.map f) := by
  intro index bound
  have coefficient := range index bound
  rw [coeff_map _ _ bound]
  exact each _ coefficient.1 coefficient.2

theorem polyCAddq_within (bounded : UpTo 8380416 a) :
    Within 0 qConst (Mldsa87.polyCAddq a) := by
  intro index bound
  rw [Mldsa87.polyCAddq, coeff_map _ _ bound]
  apply cAddq_range
  have coefficient := bounded index bound
  rw [qConst]
  omega

theorem pointwise_upTo {b : Poly} (aBound : UpTo (9 * qConst) a)
    (bBound : UpTo (9 * qConst) b) :
    UpTo 8380416 (Mldsa87.polyPointwiseMontgomery a b) := by
  have limit : 9 * qConst * (9 * qConst) ≤ montgomeryLimit := by decide
  intro index bound
  have first := aBound index bound
  have second := bBound index bound
  have product := abs_mul_le_montgomeryLimit first second limit
  have nonneg : 0 ≤ 9 * qConst := by decide
  have square : |a.coeff index * b.coeff index| ≤ 9 * qConst * (9 * qConst) := by
    rw [abs_mul]
    exact mul_le_mul first second (abs_nonneg _) nonneg
  rw [Mldsa87.polyPointwiseMontgomery, coeff_zipWith _ _ _ bound]
  apply montgomeryReduce_abs_le product
  rw [qConst] at square ⊢
  omega

theorem polyShiftL_upTo (range : Within 0 1024 a) :
    UpTo qConst (Mldsa87.polyShiftL a) := by
  intro index bound
  have coefficient := range index bound
  have word : InInt32 (a.coeff index * 2 ^ 13) := by
    rw [InInt32]
    omega
  rw [Mldsa87.polyShiftL, coeff_map _ _ bound, shl, i32_of_inInt32 word, qConst, abs_le]
  omega

end Words

/-! ## The steps -/

theorem leads_of_finish {early : Prop} {storage : InternalStorage} {rows : ℕ}
    {region : Region InternalStorage (Vector Poly rows)} {range : Poly → Prop}
    {v : Vector Poly rows} {guarded : GuardedNvm Unit} {program : NvmProgram Unit}
    (follows : Follows early guarded program storage)
    (finish : program.finish storage = region.write v storage) (inRange : Rows range v) :
    Leads early guarded program storage (Writes region range storage) :=
  ⟨follows, v, inRange, finish⟩

section Steps

variable {early : Prop} {storage : InternalStorage} {rows : ℕ}
  {region : Region InternalStorage (Vector Poly rows)}

theorem leads_reduce (bounded : Rows (UpTo reduceLimit) (region.read storage)) :
    Leads early (polyVecReduceVolatile region) (Mldsa87.polyVecReduceVolatile region)
      storage (Writes region (UpTo 6283008) storage) := by
  apply leads_of_finish (follows_polyVecReduce bounded) (finish_mapRows region _ storage)
  exact rows_map bounded fun _ => polyReduce_bounded

theorem leads_invNttToMont (bounded : Rows (UpTo 8380416) (region.read storage)) :
    Leads early (polyVecInvNttToMontVolatile region)
      (Mldsa87.polyVecInvNttToMontVolatile region) storage
      (Writes region (UpTo 4211178) storage) := by
  have range : ∀ i : Fin rows, Within (1 - qConst) qConst (region.read storage)[i] :=
    fun i => (bounded i).within (by decide) (by decide)
  have finish : (Mldsa87.polyVecInvNttToMontVolatile region).finish storage =
      region.write ((region.read storage).map Mldsa87.invNttToMont) storage := by
    rw [← invNttToMontInLine_eq]
    exact finish_mapRows region _ storage
  apply leads_of_finish (follows_polyVecInvNttToMont range) finish
  exact rows_map bounded fun _ small => invNttToMont_range (small.mono (by decide))

theorem leads_ntt (bounded : Rows (UpTo qConst) (region.read storage)) :
    Leads early (polyVecNttVolatile region) (Mldsa87.polyVecNttVolatile region)
      storage (Writes region (UpTo (9 * qConst)) storage) := by
  have finish : (Mldsa87.polyVecNttVolatile region).finish storage =
      region.write ((region.read storage).map Mldsa87.ntt) storage := by
    rw [← nttInLine_eq]
    exact finish_mapRows region _ storage
  apply leads_of_finish (follows_polyVecNtt bounded) finish
  exact rows_map bounded fun _ => ntt_bounded

theorem leads_add {v : InternalStorage → Vector Poly rows} {left right : Int}
    (independent : Independent region v)
    (first : Rows (UpTo left) (region.read storage)) (second : Rows (UpTo right) (v storage))
    (small : left + right < 2147483648) :
    Leads early (polyVecAddVolatile region v) (Mldsa87.polyVecAddVolatile region v)
      storage (Writes region (UpTo (left + right)) storage) := by
  apply leads_of_finish (follows_polyVecAdd independent first second small)
    (finish_polyVecAddVolatile region independent storage)
  exact rows_zipWith first second fun _ _ aBound bBound =>
    polyAdd_bounded aBound bBound small

theorem leads_pointwise {v : InternalStorage → Vector Poly rows}
    (independent : Independent region fun storage => storage.cp)
    (own : ∀ index other storage value, index ≠ other →
      (v (region.setRow index value storage))[other] = (v storage)[other])
    (challenge : UpTo (9 * qConst) storage.cp) (bounded : Rows (UpTo (9 * qConst)) (v storage)) :
    Leads early
      (polyVecPointwisePolyMontgomeryVolatile region (fun storage => storage.cp) v)
      (Mldsa87.polyVecPointwisePolyMontgomeryVolatile region (fun storage => storage.cp) v)
      storage (Writes region (UpTo 8380416) storage) := by
  apply leads_of_finish
    (follows_polyVecPointwise independent own challenge bounded (by decide))
    (finish_polyVecPointwise region independent own storage)
  exact rows_map bounded fun _ => pointwise_upTo challenge

end Steps

section Vectors

variable {early : Prop} {storage : InternalStorage}
  {region : Region InternalStorage PolyVecK}

theorem leads_cAddq (bounded : Rows (UpTo 8380416) (region.read storage)) :
    Leads early (polyVecCAddqVolatile region) (Mldsa87.polyVecKCAddqVolatile region)
      storage (Writes region (Within 0 qConst) storage) := by
  apply leads_of_finish
    (follows_polyVecCAddq fun i => (bounded i).mono (by decide))
    (finish_polyVecKCAddqVolatile region storage)
  exact rows_map bounded fun _ => polyCAddq_within

theorem leads_shiftL (range : Rows (Within 0 1024) (region.read storage)) :
    Leads early (polyVecShiftLVolatile region) (Mldsa87.polyVecKShiftLVolatile region)
      storage (Writes region (UpTo qConst) storage) := by
  apply leads_of_finish (follows_polyVecShiftL range)
    (finish_polyVecKShiftLVolatile region storage)
  exact rows_map range fun _ => polyShiftL_upTo

theorem leads_sub {v : InternalStorage → PolyVecK} {left right : Int}
    (independent : Independent region v)
    (first : Rows (UpTo left) (region.read storage)) (second : Rows (UpTo right) (v storage))
    (small : left + right < 2147483648) :
    Leads early (polyVecSubVolatile region region.read v)
      (Mldsa87.polyVecKSubVolatile region region.read v) storage
      (Writes region (UpTo (left + right)) storage) := by
  apply leads_of_finish (follows_polyVecSub independent first second small)
    (finish_polyVecKSubVolatile region storage independent)
  exact rows_zipWith first second fun _ _ aBound bBound =>
    polySub_bounded aBound bBound small

theorem leads_combined {streams : Streams} {shake : Shake}
    (underlies : streams.Underlies early shake) {s1hat : InternalStorage → PolyVecL}
    (independent : Independent region s1hat) (rho : List UInt8)
    (bounded : Rows (UpTo (9 * qConst)) (s1hat storage)) :
    Leads early (combinedMethod streams region s1hat rho)
      (Mldsa87.combinedMethod shake region s1hat rho) storage
      (Writes region (UpTo (7 * qConst)) storage) := by
  apply leads_of_finish (follows_combinedMethod underlies independent rho bounded)
    (finish_combinedMethod shake region independent rho storage)
  apply rows_ofFn
  intro i
  exact (rowProduct_spec (fun j => matrixEntry_bounded shake rho i j) bounded
    (fun j => transforms_ofLeaves _) (fun j => transforms_ofLeaves _) _).1

end Vectors

/-! ## Rounding -/

section Rounding

theorem power2Round_range {a : Int} (nonneg : 0 ≤ a) (bound : a < qConst) :
    (0 ≤ (Mldsa87.power2Round a).1 ∧ (Mldsa87.power2Round a).1 < 1024) ∧
      (-4096 ≤ (Mldsa87.power2Round a).2 ∧ (Mldsa87.power2Round a).2 < 4097) := by
  have parts := Spec.power2Round_spec (a : Zq)
  rw [Mldsa87.power2Round_eq nonneg bound]
  omega

theorem decompose_range {a : Int} (nonneg : 0 ≤ a) (bound : a < qConst) :
    (0 ≤ (Mldsa87.decompose a).1 ∧ (Mldsa87.decompose a).1 < 16) ∧
      (-261888 ≤ (Mldsa87.decompose a).2 ∧ (Mldsa87.decompose a).2 < 261889) := by
  have parts := decompose_cases nonneg bound
  omega

def Bits (a : Poly) : Prop := ∀ n < 256, a.coeff n = 0 ∨ a.coeff n = 1

theorem useHint_within {a hint : Poly} (range : Within 0 qConst a) (bits : Bits hint) :
    Within 0 16 (Vector.zipWith Mldsa87.useHint a hint) := by
  intro n bound
  have coefficient := range n bound
  rw [coeff_zipWith _ _ _ bound,
    Mldsa87.useHint_eq coefficient.1 coefficient.2 (bits n bound)]
  exact spec_useHint_range _ _

variable {early : Prop} {storage : InternalStorage}
  {v1 v0 : Region InternalStorage PolyVecK}

def Splits (v1 v0 : Region InternalStorage PolyVecK) (highRange lowRange : Poly → Prop)
    (before : InternalStorage) (_ : Unit) (after : InternalStorage) : Prop :=
  ∃ high low, Rows highRange high ∧ Rows lowRange low ∧
    after = v1.write high (v0.write low before)

theorem leads_power2Round (unchanged : Independent v0 v1.read)
    (range : Rows (Within 0 qConst) (v1.read storage)) :
    Leads early (polyVecKPower2RoundVolatile v1 v0 v1.read)
      (Mldsa87.polyVecKPower2RoundVolatile v1 v0 v1.read) storage
      (Splits v1 v0 (Within 0 1024) (UpTo 4096) storage) := by
  refine ⟨follows_polyVecKPower2Round unchanged range, _, _, ?_, ?_,
    finish_polyVecKPower2RoundVolatile storage unchanged⟩
  · refine rows_map range ?_
    intro row inRange
    exact within_map inRange fun _ nonneg bound => (power2Round_range nonneg bound).1
  · refine rows_map range ?_
    intro row inRange
    exact (within_map inRange fun _ nonneg bound =>
      (power2Round_range nonneg bound).2).upTo (by decide) (by decide)

theorem leads_power2RoundKeypair (range : Rows (Within 0 qConst) (v1.read storage)) :
    Leads early (polyVecKPower2RoundVolatileKeypair v1 v1.read)
      (Mldsa87.polyVecKPower2RoundVolatileKeypair v1 v1.read) storage
      (Writes v1 (Within 0 1024) storage) := by
  apply leads_of_finish (follows_polyVecKPower2RoundKeypair range)
    (finish_polyVecKPower2RoundVolatileKeypair v1 storage)
  refine rows_map range ?_
  intro row inRange
  exact within_map inRange fun _ nonneg bound => (power2Round_range nonneg bound).1

theorem leads_decompose (unchanged : Independent v0 v1.read)
    (range : Rows (Within 0 qConst) (v1.read storage)) :
    Leads early (polyVecKDecomposeVolatile v1 v0 v1.read)
      (Mldsa87.polyVecKDecomposeVolatile v1 v0 v1.read) storage
      (Splits v1 v0 (Within 0 16) (UpTo 261888) storage) := by
  refine ⟨follows_polyVecKDecompose unchanged range, _, _, ?_, ?_,
    finish_polyVecKDecomposeVolatile storage unchanged⟩
  · refine rows_map range ?_
    intro row inRange
    exact within_map inRange fun _ nonneg bound => (decompose_range nonneg bound).1
  · refine rows_map range ?_
    intro row inRange
    exact (within_map inRange fun _ nonneg bound =>
      (decompose_range nonneg bound).2).upTo (by decide) (by decide)

theorem leads_useHint (range : Rows (Within 0 qConst) storage.w1)
    (bits : Rows Bits storage.h) :
    Leads early (polyVecKUseHintVolatile w1Region w1Region.read hRegion.read)
      (Mldsa87.polyVecKUseHintVolatile w1Region w1Region.read hRegion.read) storage
      (Writes w1Region (Within 0 16) storage) := by
  apply leads_of_finish (follows_polyVecKUseHint w1_h_independent range bits)
    (finish_polyVecKUseHintVolatile storage)
  exact rows_zipWith range bits fun _ _ => useHint_within

end Rounding

/-! ## Sampling and packing -/

section Sampling

variable {early : Prop} {streams : Streams} {shake : Shake} {storage : InternalStorage}

theorem leads_polyVecLUniformGamma1 (underlies : streams.Underlies early shake)
    (seed : List UInt8) {nonce : ℕ} (few : nonce < 814) :
    Leads early (polyVecLUniformGamma1Volatile streams yRegion seed nonce)
      (Mldsa87.polyVecLUniformGamma1Volatile shake yRegion seed nonce) storage
      (Writes yRegion (UpTo gamma1) storage) := by
  have finish : (Mldsa87.polyVecLUniformGamma1Volatile shake yRegion seed nonce).finish
      storage = yRegion.write (Vector.ofFn fun j =>
        Mldsa87.polyUniformGamma1 shake.shake256 seed nonce j) storage := by
    rw [Mldsa87.polyVecLUniformGamma1Volatile]
    exact finish_writeRows yRegion (fun _ _ _ _ _ => rfl) storage
  apply leads_of_finish (follows_polyVecLUniformGamma1 underlies yRegion seed few) finish
  exact rows_ofFn fun _ => polyZUnpack_bounded _

theorem leads_copy {limit : Int} (bounded : Rows (UpTo limit) storage.y) :
    Leads early (setRows zRegion fun i storage => some storage.y[i])
      (writeRows zRegion fun i storage => storage.y[i]) storage
      (Writes zRegion (UpTo limit) storage) := by
  apply leads_of_finish follows_copy (finish_writeRows zRegion (fun _ _ _ _ _ => rfl) storage)
  exact rows_ofFn bounded

def SetsChallenge (limit : Int) (before : InternalStorage) (_ : Unit)
    (after : InternalStorage) : Prop :=
  ∃ cp, UpTo limit cp ∧ after = { before with cp := cp }

theorem leads_polyChallenge (underlies : streams.Underlies early shake)
    (seed : InternalStorage → List UInt8) :
    Leads early (polyChallengeVolatile streams seed)
      (Mldsa87.polyChallengeVolatile shake seed) storage (SetsChallenge 1 storage) :=
  ⟨follows_polyChallenge underlies seed, _, polyChallenge_bounded shake (seed storage),
    Program.finish_update _ _⟩

theorem leads_polyNtt (bounded : UpTo qConst storage.cp) :
    Leads early polyNttVolatile Mldsa87.polyNttVolatile storage
      (SetsChallenge (9 * qConst) storage) :=
  ⟨follows_polyNtt bounded, _, ntt_bounded bounded, finish_polyNttVolatile storage⟩

theorem leads_packPk {rho : List UInt8} (length : rho.length = 32)
    (range : Rows (Within 0 1024) storage.t1) :
    Leads early (packPkVolatile rho t1Region.read)
      (Mldsa87.packPkVolatile rho t1Region.read) storage
      (fun _ after => ∃ pk, after = { storage with pk := pk }) :=
  ⟨follows_packPk rho range, _, finish_packPkVolatile rho length (fun _ _ => rfl) storage⟩

theorem leads_packW1 (range : Rows (Within 0 16) storage.w1) :
    Leads early (polyVecKPackW1Volatile w1Region.read)
      (Mldsa87.polyVecKPackW1Volatile w1Region.read) storage
      (fun _ after => ∃ sig, after = { storage with sig := sig }) :=
  ⟨follows_packW1 range, _, finish_polyVecKPackW1Volatile storage⟩

end Sampling

end LedgerQrl.Mldsa87.Guarded
