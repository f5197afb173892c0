import LedgerQrl.Mldsa87.Frame
import LedgerQrl.Mldsa87.Halting
import LedgerQrl.Mldsa87.KeyGeneration
import LedgerQrl.Mldsa87.SignatureEncoding

namespace LedgerQrl.Mldsa87

open Foundation Poly InternalStorage

/-! # Signing

Each attempt computes the vectors of the specification, so that the loop
releases the first acceptable one. -/

/-! ## Norms -/

theorem abs_lt_iff_valMinAbs {a bound : ℤ} (reduced : |a| ≤ 6283008)
    (limit : bound ≤ 1047552) : |a| < bound ↔ |(a : Zq).valMinAbs| < bound := by
  constructor
  · intro small
    rwa [valMinAbs_cast (by rw [qConst]; omega)]
  · intro small
    have congruent : ((a : Zq).valMinAbs : Zq) = (a : Zq) := ZMod.coe_valMinAbs _
    rw [cast_eq_cast_iff] at congruent
    generalize (a : Zq).valMinAbs = centred at small congruent
    rw [abs_lt] at small
    rw [abs_le] at reduced
    have equal : a = centred := by omega
    rw [equal, abs_lt]
    exact small

section Norm

variable {rows : ℕ} {v : Vector Poly rows} {p : Fin rows → Rq} {bound : ℤ}

theorem Stands.coeff {limit : ℤ} (stands : Stands v limit p) (i : Fin rows) {n : ℕ}
    (inRange : n < 256) : (v[i].coeff n : Zq) = Negacyclic.coeff (p i) n := by
  rw [← stands.toRq i, coeff_toRq _ inRange]

theorem Stands.chkNorm (stands : Stands v 6283008 p) (nonneg : 0 ≤ bound)
    (limit : bound ≤ 1047552) :
    polyVecChkNorm v bound = 0 ↔ ∀ i, Spec.NormLt (p i) bound := by
  rw [polyVecChkNorm_eq_zero_iff (fun i => (stands.bounded i).mono (by norm_num)) nonneg
    limit]
  constructor
  · intro norm i n inRange
    rw [← stands.coeff i inRange, ← abs_lt_iff_valMinAbs (stands.bounded i n inRange) limit]
    exact norm i n inRange
  · intro norm i n inRange
    rw [abs_lt_iff_valMinAbs (stands.bounded i n inRange) limit, stands.coeff i inRange]
    exact norm i n inRange

theorem Stands.coeff_eq (stands : Stands v 6283008 p) (limit : bound ≤ 1047552)
    {i : Fin rows} (norm : Spec.NormLt (p i) bound) {n : ℕ} (inRange : n < 256) :
    v[i].coeff n = (Negacyclic.coeff (p i) n).valMinAbs ∧ |v[i].coeff n| < bound := by
  have small := norm n inRange
  rw [← stands.coeff i inRange,
    ← abs_lt_iff_valMinAbs (stands.bounded i n inRange) limit] at small
  rw [← stands.coeff i inRange, valMinAbs_cast (by rw [qConst]; omega)]
  exact ⟨rfl, small⟩

end Norm

/-! ## The commitment of an attempt -/

/-- What an attempt is given: the vectors of the specification, transformed. -/
structure Prepared (signer : Spec.Signer) (input : AttemptInput)
    (storage : InternalStorage) : Prop where
  rho : input.rho = signer.rho
  mu : input.mu = signer.mu
  rhoPrime : input.rhoPrime = signer.rhoPrime
  s1hat : Hats input.s1hat (9 * qConst) 1 signer.s1
  s2hat : Hats input.s2hat (9 * qConst) 1 signer.s2
  t0hat : Hats storage.pack1 (9 * qConst) 1 fun i => Spec.element (signer.t0 i)

variable (signer : Spec.Signer) (k : ℕ)

def maskRows : PolyVecL :=
  Vector.ofFn fun j : Fin 7 =>
    polyUniformGamma1 signer.shake.shake256 signer.rhoPrime k j

noncomputable def highRows : PolyVecK :=
  Vector.ofFn fun i => Vector.ofFn fun n : Fin 256 => signer.high k i n

noncomputable def lowRows : PolyVecK :=
  Vector.ofFn fun i => Vector.ofFn fun n : Fin 256 => signer.low k i n

noncomputable def challengeHat : Poly := ntt (signer.shake.polyChallenge (signer.ctilde k))

theorem stands_maskRows (early : k < 814) :
    Stands (maskRows signer k) qConst (signer.mask k) where
  bounded j := by
    rw [maskRows, getElem_index, Vector.getElem_ofFn]
    exact (polyZUnpack_bounded _).mono (by decide)
  toRq j := by
    have nonce : (7 * k + j) % 65536 = 7 * k + j := Nat.mod_eq_of_lt (by omega)
    rw [maskRows, getElem_index, Vector.getElem_ofFn, polyUniformGamma1, nonce,
      Spec.Signer.mask]
    apply Negacyclic.ofCoeffs_congr
    intro n bound
    rw [residues, coeff_polyZUnpack (by simp) bound]

theorem commitment_canonical (early : k < 814) (before : Fin 8 → Poly) :
    ((((Vector.ofFn fun i : Fin 8 =>
        rowProduct (fun j => signer.shake.matrixEntry signer.rho i j)
          ((maskRows signer k).map ntt) (before i)).map polyReduce).map invNttToMont).map
            polyCAddq) =
      Vector.ofFn fun i => canonicalRow (signer.commitment k i) :=
  (((stands_maskRows signer k early).ntt le_rfl).timesBack before).cAddq (by decide)

theorem decompose_val (x : Zq) : decompose x.val = Spec.decompose x := by
  have range := val_range x
  rw [decompose_eq range.1 range.2, cast_val]

theorem map_decompose_high :
    (Vector.ofFn fun i => canonicalRow (signer.commitment k i)).map
      (fun row => row.map fun a => (decompose a).1) = highRows signer k := by
  have high : ∀ x : Zq, (decompose x.val).1 = (Spec.decompose x).1 :=
    fun x => by rw [decompose_val]
  ext1 i bound
  rw [Vector.getElem_map, Vector.getElem_ofFn, highRows, Vector.getElem_ofFn]
  exact map_canonicalRow (fun a => (decompose a).1)
    (fun x => (Spec.decompose x).1) high _

theorem map_decompose_low :
    (Vector.ofFn fun i => canonicalRow (signer.commitment k i)).map
      (fun row => row.map fun a => (decompose a).2) = lowRows signer k := by
  have low : ∀ x : Zq, (decompose x.val).2 = (Spec.decompose x).2 :=
    fun x => by rw [decompose_val]
  ext1 i bound
  rw [Vector.getElem_map, Vector.getElem_ofFn, lowRows, Vector.getElem_ofFn]
  exact map_canonicalRow (fun a => (decompose a).2)
    (fun x => (Spec.decompose x).2) low _

theorem finish_polyVecKPackW1Volatile (storage : InternalStorage) :
    (polyVecKPackW1Volatile w1Region.read).finish storage =
      { storage with
        sig := writeBytes 0 ((List.finRange 8).flatMap fun i =>
          polyW1Pack storage.w1[i]) storage.sig } := by
  have each : ∀ (i : Fin 8) (storage : InternalStorage),
      (polyW1Pack (w1Region.read storage)[i]).length = 128 :=
    fun i storage => length_polyW1Pack _
  have rows := Program.finish_forRows_put sigRegion writeBytes
    (fun start before bytes content _ => writeBytes_append start before bytes content)
    each (fun i content storage => rfl) (show 0 + 8 * 128 ≤ 4627 by norm_num) storage
  simp only [Nat.zero_add] at rows
  exact rows

theorem coeff_highRows (i : Fin 8) {n : ℕ} (bound : n < 256) :
    (highRows signer k)[i].coeff n = signer.high k i n := by
  rw [highRows, getElem_index, Vector.getElem_ofFn, coeff_ofFn _ bound]

theorem high_range (i : Fin 8) (n : ℕ) :
    0 ≤ signer.high k i n ∧ signer.high k i n ≤ 15 := by
  rw [Spec.Signer.high]
  exact spec_decompose_high_range _

theorem flatMap_highRows :
    ((List.finRange 8).flatMap fun i => polyW1Pack (highRows signer k)[i]) =
      Spec.w1Encode (signer.high k) :=
  flatMap_polyW1Pack (fun i n bound => coeff_highRows signer k i bound)
    fun i n _ => by
      have range := high_range signer k i n
      omega

theorem length_w1Encode (w1 : Fin 8 → ℕ → ℤ) : (Spec.w1Encode w1).length = 8 * 128 := by
  rw [Spec.w1Encode, Spec.packRows, length_flatMap_rows fun i => length_bitPack 4 _ 256]
  simp

@[simp] theorem length_ctilde : (signer.ctilde k).length = 64 := by
  rw [Spec.Signer.ctilde, Spec.commitmentHash]
  exact length_shakeOnce _ _ _

noncomputable def committed (storage : InternalStorage) : InternalStorage :=
  { storage with
    y := maskRows signer k
    z := (maskRows signer k).map ntt
    w1 := highRows signer k
    w0 := lowRows signer k
    cp := challengeHat signer k
    sig := writeBytes 0 (signer.ctilde k)
      (writeBytes 0 (Spec.w1Encode (signer.high k)) storage.sig) }

theorem committed_y (storage : InternalStorage) :
    (committed signer k storage).y = maskRows signer k := by
  rw [committed]

theorem committed_w1 (storage : InternalStorage) :
    (committed signer k storage).w1 = highRows signer k := by
  rw [committed]

theorem committed_w0 (storage : InternalStorage) :
    (committed signer k storage).w0 = lowRows signer k := by
  rw [committed]

theorem committed_cp (storage : InternalStorage) :
    (committed signer k storage).cp = challengeHat signer k := by
  rw [committed]

theorem committed_pack1 (storage : InternalStorage) :
    (committed signer k storage).pack1 = storage.pack1 := by
  rw [committed]

theorem take_sig_committed (storage : InternalStorage) :
    (committed signer k storage).sig.toList.take 64 = signer.ctilde k := by
  have taken := take_writeBytes
    (show (signer.ctilde k).length ≤ 4627 by rw [length_ctilde]; norm_num)
    (writeBytes 0 (Spec.w1Encode (signer.high k)) storage.sig)
  rwa [length_ctilde] at taken

section Attempt

variable {signer k} {input : AttemptInput} {storage : InternalStorage}

theorem finish_signCommit (prepared : Prepared signer input storage) (early : k < 814) :
    (signCommit signer.shake input k).finish storage = committed signer k storage := by
  have encoded : (writeBytes 0 (Spec.w1Encode (signer.high k)) storage.sig).toList.take
      (8 * 128) = Spec.w1Encode (signer.high k) := by
    rw [← length_w1Encode (signer.high k)]
    exact take_writeBytes (by rw [length_w1Encode]; norm_num) storage.sig
  have hashed : shakeOnce signer.shake.shake256
      (signer.mu ++ Spec.w1Encode (signer.high k)) 64 = signer.ctilde k := by
    rw [Spec.Signer.ctilde, Spec.commitmentHash]
  have taken := take_sig_committed signer k storage
  have sampled : (polyVecLUniformGamma1Volatile signer.shake yRegion input.rhoPrime
      k).finish storage = { storage with y := maskRows signer k } := by
    rw [polyVecLUniformGamma1Volatile, finish_writeRows yRegion (fun _ _ _ _ _ => rfl),
      prepared.rhoPrime]
    rfl
  have copied : ∀ storage : InternalStorage,
      (writeRows zRegion fun i storage => storage.y[i]).finish storage =
        { storage with z := storage.y } := by
    intro storage
    have same : (Vector.ofFn fun i : Fin 7 => storage.y[i]) = storage.y := by
      ext1 index bound
      rw [Vector.getElem_ofFn]
      rfl
    rw [finish_writeRows zRegion (fun _ _ _ _ _ => rfl), same, write_zRegion]
  rw [signCommit]
  simp only [Program.finish_bind, sampled, copied, finish_polyVecLNttVolatile,
    w1_z_independent, finish_combinedMethod, finish_polyVecKReduceVolatile,
    finish_polyVecKInvNttToMontVolatile, finish_polyVecKCAddqVolatile,
    w0_w1_independent, finish_polyVecKDecomposeVolatile, finish_polyVecKPackW1Volatile,
    polyChallengeVolatile, finish_polyNttVolatile, Program.finish_update, read_zRegion,
    read_w1Region, write_zRegion, write_w1Region, write_w0Region, prepared.rho,
    commitment_canonical signer k early, map_decompose_high, map_decompose_low,
    flatMap_highRows, encoded, prepared.mu, hashed]
  rw [committed] at taken ⊢
  rw [taken]
  rfl

/-! ## The response and the two norms -/

variable (signer k) in
theorem challengeHat_bounded : (challengeHat signer k).Bounded (9 * qConst) :=
  ntt_bounded ((polyChallenge_bounded _ _).mono (by decide))

variable (signer k) in
theorem transforms_challengeHat : Transforms 1 (challengeHat signer k) (signer.c k) :=
  transforms_ntt ((polyChallenge_bounded _ _).mono (by decide))

variable (signer k) in
theorem Hats.challenge {rows : ℕ} {v : Vector Poly rows} {p : Fin rows → Rq}
    (hats : Hats v (9 * qConst) 1 p) :
    Stands ((v.map (polyPointwiseMontgomery (challengeHat signer k))).map invNttToMont)
      4211178 fun i => signer.c k * p i :=
  (hats.pointwise (challengeHat_bounded signer k)
    (transforms_challengeHat signer k)).invNtt le_rfl

variable (signer k) in
theorem stands_lowRows :
    Stands (lowRows signer k) gamma2 fun i => Spec.element (signer.low k i) :=
  Stands.ofFn fun i n _ => by
    rw [Spec.Signer.low]
    exact spec_decompose_low_abs _

theorem finish_signResponse (s1hat : Hats input.s1hat (9 * qConst) 1 signer.s1)
    (early : k < 814) (cp : storage.cp = challengeHat signer k)
    (y : storage.y = maskRows signer k) :
    ∃ z, (signResponse input).finish storage = { storage with z := z } ∧
      Stands z 6283008 (signer.response k) := by
  have product := s1hat.challenge signer k
  have sum := (product.add (stands_maskRows signer k early) (by decide)).reduce (by decide)
  have response : Stands _ 6283008 (signer.response k) :=
    ⟨sum.bounded, fun j => by rw [sum.toRq j, Spec.Signer.response, add_comm]⟩
  refine ⟨_, ?_, response⟩
  rw [signResponse]
  simp only [Program.finish_bind, z_cp_independent, independent_const,
    finish_polyVecLPointwise, finish_polyVecLInvNttToMontVolatile, z_y_independent,
    finish_polyVecLAddVolatile, finish_polyVecLReduceVolatile, read_zRegion,
    read_yRegion, write_zRegion, cp, y]

theorem finish_signLowBits (s2hat : Hats input.s2hat (9 * qConst) 1 signer.s2)
    (cp : storage.cp = challengeHat signer k) (w0 : storage.w0 = lowRows signer k) :
    ∃ h w0, (signLowBits input).finish storage = { storage with h := h, w0 := w0 } ∧
      Stands w0 6283008 (signer.residue k) := by
  have product := s2hat.challenge signer k
  have difference := ((stands_lowRows signer k).sub product (by decide)).reduce (by decide)
  refine ⟨(input.s2hat.map (polyPointwiseMontgomery (challengeHat signer k))).map
      invNttToMont, _, ?_, difference⟩
  rw [signLowBits]
  simp only [Program.finish_bind, h_cp_independent, independent_const,
    finish_polyVecKPointwise, finish_polyVecKInvNttToMontVolatile, w0_h_independent,
    finish_polyVecKSubVolatile, finish_polyVecKReduceVolatile, read_hRegion,
    read_w0Region, write_hRegion, write_w0Region, cp, w0]

theorem finish_signHintInput
    (t0hat : Hats storage.pack1 (9 * qConst) 1 fun i => Spec.element (signer.t0 i))
    (cp : storage.cp = challengeHat signer k) :
    ∃ h, signHintInput.finish storage = { storage with h := h } ∧
      Stands h 6283008 (signer.correction k) := by
  have product := (t0hat.challenge signer k).reduce (by decide)
  refine ⟨_, ?_, product⟩
  rw [signHintInput]
  simp only [Program.finish_bind, h_cp_independent, h_pack1_independent,
    finish_polyVecKPointwise, finish_polyVecKInvNttToMontVolatile,
    finish_polyVecKReduceVolatile, read_hRegion, read_pack1Region, write_hRegion, cp]

end Attempt

/-! ## The hints -/

def madeHints (v0 v1 : PolyVecK) (i : Fin 8) : Vector ℕ 256 :=
  Vector.zipWith makeHint v0[i] v1[i]

private def makeHintStep (s : ℕ) (i : Fin 8) : NvmProgram ℕ := do
  let storage ← Program.read
  Program.update fun current =>
    hRegion.setRow i
      ((madeHints storage.w0 storage.w1 i).map fun (hint : ℕ) => (hint : Int)) current
  pure (s + (madeHints storage.w0 storage.w1 i).foldl (fun s2 hint => s2 + hint) 0)

private theorem makeHintStep_spec (s : ℕ) (i : Fin 8) (storage : InternalStorage) :
    (makeHintStep s i).finish storage =
        hRegion.setRow i ((madeHints storage.w0 storage.w1 i).map
          fun (hint : ℕ) => (hint : Int)) storage ∧
      (makeHintStep s i).value storage =
        s + (madeHints storage.w0 storage.w1 i).foldl (fun s2 hint => s2 + hint) 0 := by
  rw [makeHintStep]
  constructor
  · simp only [Program.finish_bind, Program.value_read, Program.finish_read,
      Program.finish_update, Program.finish_pure]
  · simp only [Program.value_bind, Program.value_read, Program.finish_read,
      Program.value_pure]

private theorem makeHint_rows (rows : List (Fin 8)) :
    ∀ (count : ℕ) (storage : InternalStorage),
      (rows.foldlM makeHintStep count).finish storage =
        (Program.forEach rows fun i => Program.update fun storage =>
          hRegion.setRow i
            ((madeHints storage.w0 storage.w1 i).map fun (hint : ℕ) => (hint : Int))
            storage).finish storage ∧
      (rows.foldlM makeHintStep count).value storage =
        count + (rows.map fun i => (madeHints storage.w0 storage.w1 i).foldl
          (fun s2 hint => s2 + hint) 0).sum := by
  induction rows with
  | nil =>
      intro count storage
      simp
  | cons i rest induction =>
      intro count storage
      have step := makeHintStep_spec count i storage
      have next := induction
        (count + (madeHints storage.w0 storage.w1 i).foldl (fun s2 hint => s2 + hint) 0)
        (hRegion.setRow i
          ((madeHints storage.w0 storage.w1 i).map fun (hint : ℕ) => (hint : Int)) storage)
      constructor
      · rw [List.foldlM_cons, Program.finish_bind, step.1, step.2,
          Program.finish_forEach_cons, Program.finish_update]
        exact next.1
      · rw [List.foldlM_cons, Program.value_bind, step.1, step.2, List.map_cons,
          List.sum_cons, ← Nat.add_assoc]
        exact next.2

theorem polyVecKMakeHint_spec (storage : InternalStorage) :
    (polyVecKMakeHintVolatile hRegion w0Region.read w1Region.read).finish storage =
        { storage with
          h := Vector.ofFn fun i =>
            (madeHints storage.w0 storage.w1 i).map fun (hint : ℕ) => (hint : Int) } ∧
      (polyVecKMakeHintVolatile hRegion w0Region.read w1Region.read).value storage =
        ((List.finRange 8).map fun i => (madeHints storage.w0 storage.w1 i).foldl
          (fun s2 hint => s2 + hint) 0).sum := by
  have loop := makeHint_rows (List.finRange 8) 0 storage
  have hint : polyVecKMakeHintVolatile hRegion w0Region.read w1Region.read =
      (List.finRange 8).foldlM makeHintStep 0 := rfl
  rw [hint]
  constructor
  · rw [loop.1]
    exact Program.finish_forRows hRegion
      (fun i storage => (madeHints storage.w0 storage.w1 i).map
        fun (hint : ℕ) => (hint : Int))
      (fun _ _ => rfl) (fun _ _ _ _ _ => rfl) storage
  · rw [loop.2, Nat.zero_add]

theorem foldl_hints {row : ℕ → Bool} {words : Vector ℕ 256}
    (agrees : ∀ n (bound : n < 256), words[n] = if row n then 1 else 0) :
    words.foldl (fun s2 hint => s2 + hint) 0 = (Spec.rowPositions row).length := by
  have list : words.toList = (List.range 256).map fun n => if row n then 1 else 0 := by
    apply List.ext_getElem
    · simp
    · intro n bound _
      rw [Vector.length_toList] at bound
      rw [Vector.getElem_toList, agrees n bound, List.getElem_map, List.getElem_range]
  have count : ∀ (ns : List ℕ) (start : ℕ),
      (ns.map fun n => if row n then 1 else 0).foldl (fun s2 hint => s2 + hint) start =
        start + (ns.filter row).length := by
    intro ns
    induction ns with
    | nil => intro start; rfl
    | cons n rest induction =>
        intro start
        rw [List.map_cons, List.foldl_cons, induction]
        by_cases hint : row n = true
        · rw [if_pos hint, List.filter_cons_of_pos hint, List.length_cons]
          omega
        · rw [if_neg hint, List.filter_cons_of_neg hint, Nat.add_zero]
  rw [← Vector.foldl_toList, list, count, Nat.zero_add, Spec.rowPositions]

theorem hintCount_eq (hints : Spec.Hints) :
    Spec.hintCount hints =
      ((List.finRange 8).map fun i => (Spec.rowPositions (hints i)).length).sum := by
  rw [Spec.hintCount, Spec.positions, List.take_of_length_le (by simp),
    List.length_flatMap]

section Hints

variable {signer : Spec.Signer} {k : ℕ} {storage : InternalStorage}

theorem madeHints_eq (w0 : Stands storage.w0 6283008 (signer.residue k))
    (h : Stands storage.h 6283008 (signer.correction k))
    (residue : ∀ i, Spec.NormLt (signer.residue k i) (gamma2 - beta))
    (correction : ∀ i, Spec.NormLt (signer.correction k i) gamma2)
    (i : Fin 8) {n : ℕ} (bound : n < 256) :
    (madeHints (Vector.zipWith polyAdd storage.w0 storage.h) (highRows signer k) i)[n] =
      if signer.hints k i n then 1 else 0 := by
  have sum := w0.add h (by norm_num)
  have low := (w0.coeff_eq (by decide) (residue i) bound).2
  have high := (h.coeff_eq (by decide) (correction i) bound).2
  have range := high_range signer k i n
  have words := coeff_polyAdd (w0.bounded i) (h.bounded i) (by norm_num) bound
  have cast := sum.coeff i bound
  rw [getElem_index, Vector.getElem_zipWith] at cast
  have row : (polyAdd storage.w0[i.val] storage.h[i.val])[n] =
      storage.w0[i].coeff n + storage.h[i].coeff n := by
    rw [← words, coeff_of_lt _ bound]
    rfl
  have highWord : (highRows signer k)[i.val][n] = signer.high k i n := by
    rw [← coeff_highRows signer k i bound, coeff_of_lt _ bound]
    rfl
  have small : |storage.w0[i].coeff n + storage.h[i].coeff n| < 2 * gamma2 := by
    have triangle := abs_add_le (storage.w0[i].coeff n) (storage.h[i].coeff n)
    rw [beta] at low
    linarith
  rw [coeff_of_lt _ bound, row] at cast
  rw [madeHints, Vector.getElem_zipWith, getElem_index, getElem_index,
    Vector.getElem_zipWith, row, highWord,
    makeHint_spec small range.1 range.2, cast, Spec.Signer.hints]

theorem signHints_spec (storage : InternalStorage) (w1 : storage.w1 = highRows signer k)
    (w0 : Stands storage.w0 6283008 (signer.residue k))
    (h : Stands storage.h 6283008 (signer.correction k))
    (residue : ∀ i, Spec.NormLt (signer.residue k i) (gamma2 - beta))
    (correction : ∀ i, Spec.NormLt (signer.correction k i) gamma2) :
    signHints.value storage = Spec.hintCount (signer.hints k) ∧
      ∃ w0 h, signHints.finish storage = { storage with w0 := w0, h := h } ∧
        ∀ i : Fin 8, ∀ n < 256, h[i].coeff n = if signer.hints k i n then 1 else 0 := by
  have words := fun i n (bound : n < 256) =>
    madeHints_eq w0 h residue correction i bound
  have made := polyVecKMakeHint_spec
    { storage with w0 := Vector.zipWith polyAdd storage.w0 storage.h }
  have counted : ∀ i : Fin 8,
      (madeHints (Vector.zipWith polyAdd storage.w0 storage.h) storage.w1 i).foldl
        (fun s2 hint => s2 + hint) 0 =
          (Spec.rowPositions (signer.hints k i)).length := by
    intro i
    rw [w1]
    exact foldl_hints fun n bound => words i n bound
  rw [signHints]
  simp only [Program.value_bind, Program.finish_bind, w0_h_independent,
    finish_polyVecKAddVolatile, read_w0Region, read_hRegion, write_w0Region]
  constructor
  · rw [made.2, hintCount_eq]
    simp only [counted]
  · refine ⟨Vector.zipWith polyAdd storage.w0 storage.h, Vector.ofFn fun i =>
      (madeHints (Vector.zipWith polyAdd storage.w0 storage.h) storage.w1 i).map
        fun (hint : ℕ) => (hint : Int), ?_, ?_⟩
    · exact made.1
    · intro i n bound
      rw [getElem_index, Vector.getElem_ofFn, coeff_of_lt _ bound, Vector.getElem_map,
        w1, words i n bound]
      split <;> rfl

end Hints

/-! ## The encoded signature -/

theorem finish_signEncode (storage : InternalStorage) :
    signEncode.finish storage =
      { storage with
        sig := writeBytes 0 (packedSignature (storage.sig.toList.take 64) storage.z
          storage.h) storage.sig } := by
  rw [signEncode, Program.finish_bind, Program.value_read, Program.finish_read]
  exact finish_packSigVolatile (by simp) storage

section Attempt

variable {signer : Spec.Signer} {k : ℕ} {input : AttemptInput} {storage : InternalStorage}

theorem toList_signEncode (storage : InternalStorage)
    (ctilde : storage.sig.toList.take 64 = signer.ctilde k)
    (z : Stands storage.z 6283008 (signer.response k))
    (response : ∀ j, Spec.NormLt (signer.response k j) (gamma1 - beta))
    (h : ∀ i : Fin 8, ∀ n < 256,
      storage.h[i].coeff n = if signer.hints k i n then 1 else 0)
    (few : Spec.hintCount (signer.hints k) ≤ 75) :
    (signEncode.finish storage).sig.toList = signer.signature k := by
  have words := fun j n (bound : n < 256) => z.coeff_eq (by decide) (response j) bound
  have hints : packHints storage.h = Spec.hintEncode (signer.hints k) :=
    packHints_eq (fun i n bound => by
      rw [h i n bound]
      cases signer.hints k i n <;> simp) few
  have rows : ((List.finRange 7).flatMap fun j => polyZPack storage.z[j]) =
      Spec.packRows 20 fun j n =>
        (gamma1 - (Negacyclic.coeff (signer.response k j) n).valMinAbs).toNat :=
    flatMap_polyZPack (fun j n bound => (words j n bound).1)
      (fun j n bound => (response j n bound).trans (by decide))
  have total : (signer.ctilde k ++ Spec.packRows 20 (fun j n =>
      (gamma1 - (Negacyclic.coeff (signer.response k j) n).valMinAbs).toNat) ++
        Spec.hintEncode (signer.hints k)).length = 4627 := by
    rw [List.length_append, List.length_append, length_ctilde, length_hintEncode few,
      Spec.packRows, length_flatMap_rows fun j : Fin 7 => length_bitPack 20 _ 256,
      List.length_finRange]
  rw [finish_signEncode, packedSignature, ctilde, rows, hints, Spec.Signer.signature]
  exact toList_writeBytes total storage.sig

variable (signer k) in
noncomputable def responseWords : PolyVecL :=
  Vector.ofFn fun j => Vector.ofFn fun n : Fin 256 =>
    (Negacyclic.coeff (signer.response k j) n).valMinAbs

variable (signer k) in
noncomputable def hintsInWords : PolyVecK :=
  Vector.ofFn fun i => Vector.ofFn fun n : Fin 256 =>
    if signer.hints k i n then 1 else 0

theorem eq_responseWords {z : PolyVecL} (stands : Stands z 6283008 (signer.response k))
    (response : ∀ j, Spec.NormLt (signer.response k j) (gamma1 - beta)) :
    z = responseWords signer k := by
  ext1 j bound
  apply ext_coeff
  intro n inRange
  have word := (stands.coeff_eq (by decide) (response ⟨j, bound⟩) inRange).1
  rw [responseWords, Vector.getElem_ofFn, coeff_ofFn _ inRange]
  exact word

theorem eq_hintsInWords {h : PolyVecK} (words : ∀ i : Fin 8, ∀ n < 256,
    h[i].coeff n = if signer.hints k i n then 1 else 0) : h = hintsInWords signer k := by
  ext1 i bound
  apply ext_coeff
  intro n inRange
  rw [hintsInWords, Vector.getElem_ofFn, coeff_ofFn _ inRange]
  exact words ⟨i, bound⟩ n inRange

variable (signer k) in
/-- What the acceptable attempt leaves of a content. -/
def Completed (storage final : InternalStorage) : Prop :=
  ∃ w0 sig, final =
      { committed signer k storage with
        z := responseWords signer k, w0 := w0, h := hintsInWords signer k, sig := sig } ∧
    sig.toList = signer.signature k

theorem Completed.signature {final : InternalStorage}
    (completed : Completed signer k storage final) :
    final.sig.toList = signer.signature k := by
  obtain ⟨w0, sig, rfl, bytes⟩ := completed
  exact bytes

private theorem refused_spec {Leaves : Prop} (unacceptable : ¬ signer.Acceptable k) :
    ((pure false : NvmProgram Bool).value storage = true ↔ signer.Acceptable k) ∧
      (signer.Acceptable k → Leaves) := by
  rw [Program.value_pure]
  exact ⟨⟨fun accepted => absurd accepted Bool.false_ne_true,
    fun acceptable => absurd acceptable unacceptable⟩,
    fun acceptable => absurd acceptable unacceptable⟩

/-- An attempt is accepted exactly when it is acceptable, and then leaves its
signature. -/
theorem signAttempt_spec (prepared : Prepared signer input storage) (early : k < 814) :
    ((signAttempt signer.shake input k).value storage = true ↔ signer.Acceptable k) ∧
      (signer.Acceptable k →
        Completed signer k storage ((signAttempt signer.shake input k).finish storage)) := by
  have sig := take_sig_committed signer k storage
  have w1 := committed_w1 signer k storage
  have w0 := committed_w0 signer k storage
  have cp := committed_cp signer k storage
  have t0hat := prepared.t0hat
  rw [← committed_pack1 signer k storage] at t0hat
  obtain ⟨z, responded, zStands⟩ := finish_signResponse prepared.s1hat early cp
    (committed_y signer k storage)
  rw [signAttempt]
  simp only [Program.value_bind, Program.finish_bind, finish_signCommit prepared early,
    Completed]
  generalize committed signer k storage = start at *
  simp only [responded, Program.value_read, Program.finish_read, polyVecLChkNorm,
    polyVecKChkNorm]
  have zNorm := zStands.chkNorm (show 0 ≤ gamma1 - beta by decide) (by decide)
  by_cases response : ∀ j, Spec.NormLt (signer.response k j) (gamma1 - beta)
  · rw [if_neg (not_not.mpr (zNorm.mpr response))]
    obtain ⟨h, low, lowered, lowStands⟩ : ∃ h low,
        (signLowBits input).finish { start with z := z } =
          { start with z := z, h := h, w0 := low } ∧
        Stands low 6283008 (signer.residue k) := finish_signLowBits prepared.s2hat cp w0
    have lowNorm := lowStands.chkNorm (show 0 ≤ gamma2 - beta by decide) (by decide)
    simp only [Program.value_bind, Program.finish_bind, lowered, Program.value_read,
      Program.finish_read]
    by_cases residue : ∀ i, Spec.NormLt (signer.residue k i) (gamma2 - beta)
    · rw [if_neg (not_not.mpr (lowNorm.mpr residue))]
      obtain ⟨h', corrected, hStands⟩ : ∃ h',
          signHintInput.finish { start with z := z, h := h, w0 := low } =
            { start with z := z, h := h', w0 := low } ∧
          Stands h' 6283008 (signer.correction k) := finish_signHintInput t0hat cp
      have hNorm := hStands.chkNorm (show 0 ≤ gamma2 by decide) (by decide)
      simp only [Program.value_bind, Program.finish_bind, corrected, Program.value_read,
        Program.finish_read]
      by_cases correction : ∀ i, Spec.NormLt (signer.correction k i) gamma2
      · rw [if_neg (not_not.mpr (hNorm.mpr correction))]
        obtain ⟨counted, v0, words, hinted, wordsEqual⟩ := signHints_spec
          { start with z := z, h := h', w0 := low } w1 lowStands hStands residue correction
        simp only [Program.value_bind, Program.finish_bind, counted, hinted]
        by_cases few : Spec.hintCount (signer.hints k) ≤ omegaMax
        · rw [if_neg (Nat.not_lt.mpr few)]
          simp only [Program.value_bind, Program.value_pure, Program.finish_bind,
            Program.finish_pure, true_iff]
          refine ⟨⟨response, residue, correction, few⟩, fun _ => ⟨v0, _, ?_,
            toList_signEncode { start with z := z, h := words, w0 := v0 } sig zStands
              response wordsEqual few⟩⟩
          rw [finish_signEncode, ← eq_responseWords zStands response,
            ← eq_hintsInWords wordsEqual]
        · rw [if_pos (Nat.lt_of_not_le few)]
          exact refused_spec fun acceptable => few acceptable.hintCount
      · rw [if_pos (fun zero => correction (hNorm.mp zero))]
        exact refused_spec fun acceptable => correction acceptable.correction
    · rw [if_pos (fun zero => residue (lowNorm.mp zero))]
      exact refused_spec fun acceptable => residue acceptable.residue
  · rw [if_pos (fun zero => response (zNorm.mp zero))]
    exact refused_spec fun acceptable => response acceptable.response

def aroundAttempt (storage : InternalStorage) : InternalStorage :=
  { storage with
    w1 := blankK
    w0 := blankK
    h := blankK
    y := blankL
    z := blankL
    cp := Poly.zero
    sig := Vector.replicate 4627 0 }

theorem aroundAttempt_signAttempt (shake : Shake) (input : AttemptInput) (k : ℕ)
    (storage : InternalStorage) :
    aroundAttempt ((signAttempt shake input k).finish storage) =
      aroundAttempt storage := by
  have outside : OutsideAttempt aroundAttempt :=
    ⟨fun _ _ => rfl, fun _ _ => rfl, fun _ _ => rfl, fun _ _ => rfl, fun _ _ => rfl,
      fun _ _ => rfl⟩
  exact (keeps_signAttempt outside shake (fun _ _ => rfl) input k).finish storage

theorem pack1_of_aroundAttempt {before after : InternalStorage}
    (around : aroundAttempt after = aroundAttempt before) :
    after.pack1 = before.pack1 := by
  have same := congrArg InternalStorage.pack1 around
  exact same

/-- An attempt leaves what the next one needs. -/
theorem Prepared.attempt (prepared : Prepared signer input storage) (k : ℕ) :
    Prepared signer input ((signAttempt signer.shake input k).finish storage) := by
  have kept := pack1_of_aroundAttempt
    (aroundAttempt_signAttempt signer.shake input k storage)
  have t0hat := prepared.t0hat
  rw [← kept] at t0hat
  exact ⟨prepared.rho, prepared.mu, prepared.rhoPrime, prepared.s1hat, prepared.s2hat,
    t0hat⟩

/-- An acceptable attempt overwrites all that earlier attempts have left. -/
theorem Completed.congr {before final : InternalStorage}
    (completed : Completed signer k before final)
    (around : aroundAttempt before = aroundAttempt storage) :
    Completed signer k storage final := by
  obtain ⟨w0, sig, content, bytes⟩ := completed
  have overwritten : ∀ start : InternalStorage,
      { committed signer k start with
        z := responseWords signer k, w0 := w0, h := hintsInWords signer k, sig := sig } =
      { aroundAttempt start with
        y := maskRows signer k, w1 := highRows signer k, cp := challengeHat signer k,
        z := responseWords signer k, w0 := w0, h := hintsInWords signer k,
        sig := sig } := by
    intro start
    rw [committed, aroundAttempt]
  refine ⟨w0, sig, ?_, bytes⟩
  rw [content, overwritten before, overwritten storage, around]

/-- The loop stops at the first acceptable attempt. -/
theorem signAttempts_spec : ∀ (remaining first : ℕ) (storage : InternalStorage),
    first + remaining ≤ 814 → Prepared signer input storage →
      (∀ k, first ≤ k → k < first + remaining → signer.Acceptable k →
        (∀ j, first ≤ j → j < k → ¬ signer.Acceptable j) →
          (signAttempts signer.shake input remaining first).value storage = .none ∧
            Completed signer k storage
              ((signAttempts signer.shake input remaining first).finish storage)) ∧
      ((∀ k, first ≤ k → k < first + remaining → ¬ signer.Acceptable k) →
        (signAttempts signer.shake input remaining first).value storage =
          .invalidSignature) := by
  intro remaining
  induction remaining with
  | zero =>
      intro first storage _ _
      exact ⟨fun k lower upper => absurd upper (by omega), fun _ => rfl⟩
  | succ remaining induction =>
      intro first storage within prepared
      have attempt := signAttempt_spec prepared (show first < 814 by omega)
      have later := induction (first + 1) _ (by omega) (prepared.attempt first)
      rw [signAttempts]
      simp only [Program.value_bind, Program.finish_bind]
      by_cases acceptable : signer.Acceptable first
      · rw [attempt.1.mpr acceptable, if_pos rfl, Program.value_pure, Program.finish_pure]
        constructor
        · intro k lower _ _ least
          have equal : k = first := by
            by_contra different
            exact least first le_rfl (by omega) acceptable
          rw [equal]
          exact ⟨rfl, attempt.2 acceptable⟩
        · intro none
          exact absurd acceptable (none first le_rfl (by omega))
      · have refused : (signAttempt signer.shake input first).value storage = false := by
          rw [← Bool.not_eq_true, attempt.1]
          exact acceptable
        rw [refused, if_neg Bool.false_ne_true]
        constructor
        · intro k lower upper acceptableAt least
          have different : k ≠ first := fun equal => acceptable (equal ▸ acceptableAt)
          have completed := later.1 k (by omega) (by omega) acceptableAt
            fun j above => least j (by omega)
          exact ⟨completed.1, completed.2.congr
            (aroundAttempt_signAttempt signer.shake input first storage)⟩
        · exact fun none => later.2 fun k lower upper => none k (by omega) (by omega)

end Attempt

/-! ## The whole function -/

section Sign

variable (shake : Shake) (seed rnd : Vector UInt8 32) (message : List UInt8)
  (storage : InternalStorage)

theorem keyLow_abs_le (expanded : ExpandedSeed) (i : Fin 8) (n : ℕ) :
    |Spec.keyLow shake expanded i n| ≤ 4096 := by
  have parts := Spec.power2Round_spec
    (Negacyclic.coeff (Spec.keyVector shake expanded i) n)
  rw [Spec.keyLow, abs_le]
  omega

theorem prepared_signPrepare :
    Prepared (Spec.signer shake seed rnd message)
      ((signPrepare shake ((signKeyPrefix shake seed).value storage) rnd message).value
        ((signKeyPrefix shake seed).finish storage))
      ((signPrepare shake ((signKeyPrefix shake seed).value storage) rnd message).finish
        ((signKeyPrefix shake seed).finish storage)) := by
  have low : Stands (keyLowRows shake (expandSeed shake seed)) 4096
      fun i => Spec.element (Spec.keyLow shake (expandSeed shake seed) i) :=
    Stands.ofFn fun i n _ => keyLow_abs_le shake (expandSeed shake seed) i n
  rw [finish_signKeyPrefix, value_signKeyPrefix, signPrepare]
  simp only [Program.value_bind, Program.value_read, Program.finish_read,
    Program.value_pure, Program.finish_bind, Program.finish_pure,
    finish_polyVecKNttVolatile, read_pack1Region, write_pack1Region,
    toList_publicKeyBytes, messageDigest_eq, signingKey]
  constructor
  · rw [Spec.signer]
  · rw [Spec.signer]
  · rw [Spec.signer]
  · rw [Spec.signer]
    exact hats_secretL shake blankL (expandSeed shake seed).rhoPrime
  · rw [Spec.signer]
    exact (stands_secretK shake _ (expandSeed shake seed).rhoPrime).ntt (by decide)
  · rw [Spec.signer]
    exact low.ntt (by decide)

noncomputable def preparedStorage : InternalStorage :=
  { storage with
    t1 := keyHighRows shake (expandSeed shake seed)
    pack1 := (keyLowRows shake (expandSeed shake seed)).map ntt
    pk := publicKeyBytes shake seed }

theorem finish_signPrepare :
    (signPrepare shake ((signKeyPrefix shake seed).value storage) rnd message).finish
        ((signKeyPrefix shake seed).finish storage) =
      preparedStorage shake seed storage := by
  rw [finish_signKeyPrefix, signPrepare]
  simp only [Program.value_read, Program.finish_read, Program.finish_bind,
    Program.finish_pure, finish_polyVecKNttVolatile, read_pack1Region, write_pack1Region,
    preparedStorage]

/-- What signing with a derived seed returns and leaves. -/
theorem signWithSeed_spec :
    (∀ k < 814, (Spec.signer shake seed rnd message).Acceptable k →
      (∀ j < k, ¬ (Spec.signer shake seed rnd message).Acceptable j) →
        (signWithSeed shake seed rnd message).value storage = .none ∧
          Completed (Spec.signer shake seed rnd message) k
            (preparedStorage shake seed storage)
            ((signWithSeed shake seed rnd message).finish storage)) ∧
      ((∀ k < 814, ¬ (Spec.signer shake seed rnd message).Acceptable k) →
        (signWithSeed shake seed rnd message).value storage = .invalidSignature) := by
  have loop := signAttempts_spec 814 0 _ le_rfl
    (prepared_signPrepare shake seed rnd message storage)
  have same : (Spec.signer shake seed rnd message).shake = shake := by
    rw [Spec.signer]
  rw [same, finish_signPrepare] at loop
  rw [signWithSeed]
  simp only [Program.value_bind, Program.finish_bind, finish_signPrepare]
  constructor
  · intro k early acceptable least
    exact loop.1 k (Nat.zero_le k) (by omega) acceptable fun j _ => least j
  · exact fun none => loop.2 fun k _ upper => none k (by omega)

/-- The commitment of the first attempt is written over the signature. -/
theorem committed_mem_visited :
    committed (Spec.signer shake seed rnd message) 0 (preparedStorage shake seed storage) ∈
      (signWithSeed shake seed rnd message).visited storage := by
  have finish := finish_signCommit (prepared_signPrepare shake seed rnd message storage)
    (show 0 < 814 by norm_num)
  have same : (Spec.signer shake seed rnd message).shake = shake := by
    rw [Spec.signer]
  rw [finish_signPrepare, same] at finish
  rw [signWithSeed]
  refine Program.mem_visited_bind.mpr (Or.inr (Program.mem_visited_bind.mpr (Or.inr ?_)))
  rw [finish_signPrepare]
  change _ ∈ (signAttempts shake _ (813 + 1) 0).visited _
  rw [signAttempts, signAttempt]
  refine Program.mem_visited_bind.mpr (Or.inl (Program.mem_visited_bind.mpr (Or.inl ?_)))
  rw [← finish]
  exact Program.finish_mem_visited _ _

/-- The attempt at which the loop stops. -/
theorem exists_first_acceptable {signer : Spec.Signer}
    (some : ∃ k < 814, signer.Acceptable k) :
    ∃ k < 814, signer.Acceptable k ∧ ∀ j < k, ¬ signer.Acceptable j := by
  classical
  have found := Nat.find_spec some
  exact ⟨Nat.find some, found.1, found.2, fun j before acceptable =>
    Nat.find_min some before ⟨before.trans found.1, acceptable⟩⟩

theorem cryptoSignOptimized_eq (derive : Derivation) (path : List UInt32)
    {rawSeed : Vector UInt8 64} (derived : derive path = some rawSeed)
    (nonempty : message ≠ []) :
    cryptoSignOptimized shake derive rnd path message =
      signWithSeed shake (seedOfRaw rawSeed) rnd message := by
  have short : ¬ ctx.length > 255 := by decide
  rw [cryptoSignOptimized, if_neg nonempty, if_neg short, derived]

/-- The rejection loop releases exactly the first acceptable attempt. -/
theorem cryptoSignOptimized_first (derive : Derivation) (path : List UInt32)
    {rawSeed : Vector UInt8 64} (derived : derive path = some rawSeed)
    (nonempty : message ≠ []) :
    (∀ k < 814, (Spec.signer shake (seedOfRaw rawSeed) rnd message).Acceptable k →
      (∀ j < k, ¬ (Spec.signer shake (seedOfRaw rawSeed) rnd message).Acceptable j) →
        (cryptoSignOptimized shake derive rnd path message).value storage = .none ∧
          ((cryptoSignOptimized shake derive rnd path message).finish
            storage).sig.toList =
              (Spec.signer shake (seedOfRaw rawSeed) rnd message).signature k) ∧
      ((∀ k < 814, ¬ (Spec.signer shake (seedOfRaw rawSeed) rnd message).Acceptable k) →
        (cryptoSignOptimized shake derive rnd path message).value storage =
          .invalidSignature) := by
  have short : ¬ ctx.length > 255 := by decide
  have signed := signWithSeed_spec shake (seedOfRaw rawSeed) rnd message storage
  rw [cryptoSignOptimized, if_neg nonempty, if_neg short, derived]
  exact ⟨fun k early acceptable least =>
    (signed.1 k early acceptable least).imp_right Completed.signature, signed.2⟩

/-- Only the key generation prefix writes the public key. -/
theorem cryptoSignOptimized_pk (derive : Derivation) (path : List UInt32)
    {rawSeed : Vector UInt8 64} (derived : derive path = some rawSeed)
    (nonempty : message ≠ []) :
    ((cryptoSignOptimized shake derive rnd path message).finish storage).pk =
      publicKeyBytes shake (seedOfRaw rawSeed) := by
  have short : ¬ ctx.length > 255 := by decide
  have outside : OutsideScratch InternalStorage.pk :=
    ⟨⟨fun _ _ => rfl, fun _ _ => rfl, fun _ _ => rfl, fun _ _ => rfl, fun _ _ => rfl,
      fun _ _ => rfl⟩, fun _ _ => rfl, fun _ _ => rfl⟩
  rw [cryptoSignOptimized, if_neg nonempty, if_neg short, derived]
  dsimp only
  rw [signWithSeed, Program.finish_bind, Program.finish_bind,
    (keeps_signAttempts outside.toOutsideAttempt shake (fun _ _ => rfl) _ _ _).finish,
    (keeps_signPrepare outside shake _ rnd message).finish, finish_signKeyPrefix]

end Sign

theorem cryptoSignOptimized_underived (shake : Shake) {derive : Derivation}
    {path : List UInt32} (underived : derive path = none) (rnd : Vector UInt8 32)
    (message : List UInt8) (storage : InternalStorage) :
    (cryptoSignOptimized shake derive rnd path message).finish storage = storage := by
  rw [cryptoSignOptimized, underived]
  simp only [Program.finish_ite, Program.finish_pure, ite_self]

theorem cryptoSignOptimized_first_zero :
    (∀ k < 814, (Spec.signer constantShake (seedOfRaw (Vector.replicate 64 0))
        (Vector.replicate 32 0) [1]).Acceptable k →
      (∀ j < k, ¬ (Spec.signer constantShake (seedOfRaw (Vector.replicate 64 0))
          (Vector.replicate 32 0) [1]).Acceptable j) →
        (cryptoSignOptimized constantShake zeroDerivation (Vector.replicate 32 0) []
            [1]).value zeroed = .none ∧
          ((cryptoSignOptimized constantShake zeroDerivation (Vector.replicate 32 0) []
            [1]).finish zeroed).sig.toList =
              (Spec.signer constantShake (seedOfRaw (Vector.replicate 64 0))
                (Vector.replicate 32 0) [1]).signature k) ∧
      ((∀ k < 814, ¬ (Spec.signer constantShake (seedOfRaw (Vector.replicate 64 0))
          (Vector.replicate 32 0) [1]).Acceptable k) →
        (cryptoSignOptimized constantShake zeroDerivation (Vector.replicate 32 0) []
          [1]).value zeroed = .invalidSignature) :=
  cryptoSignOptimized_first constantShake (Vector.replicate 32 0) [1] zeroed
    zeroDerivation [] rfl (List.cons_ne_nil 1 [])

end LedgerQrl.Mldsa87
