import LedgerQrl.Mldsa87.GuardedNtt
import LedgerQrl.Mldsa87.GuardedSign
import LedgerQrl.Mldsa87.SampledRange
import LedgerQrl.Mldsa87.Stages

namespace LedgerQrl.Mldsa87.Guarded

open Foundation Poly InternalStorage GuardedProgram

/-! # The loops over the storage pass

Each guarded loop follows the plain one when the rows that it works on are in
the range of its arithmetic. -/

section Rows

variable {early : Prop} {rows : ℕ} {region : Region InternalStorage (Vector Poly rows)}
  {storage : InternalStorage}

theorem follows_mapRows {f : Poly → Option Poly} {g : Poly → Poly}
    (each : ∀ i : Fin rows,
      f (region.read storage)[i] = some (g (region.read storage)[i])) :
    Follows early (mapRows region f) (Mldsa87.mapRows region g) storage := by
  rw [mapRows, Mldsa87.mapRows, writeRows]
  apply follows_setRows region
  · intro index other storage value different
    rw [read_setRow_other region different]
  · intro index other storage value different
    rw [read_setRow_other region different]
  · exact each

theorem follows_polyVecReduce
    (bounded : ∀ i : Fin rows, (region.read storage)[i].Bounded reduceLimit) :
    Follows early (polyVecReduceVolatile region)
      (Mldsa87.polyVecReduceVolatile region) storage :=
  follows_mapRows fun i => polyReduce_eq (bounded i)

theorem follows_polyVecInvNttToMont
    (range : ∀ i : Fin rows, Within (1 - qConst) qConst (region.read storage)[i]) :
    Follows early (polyVecInvNttToMontVolatile region)
      (Mldsa87.polyVecInvNttToMontVolatile region) storage := by
  rw [Mldsa87.polyVecInvNttToMontVolatile, invNttToMontInLine_eq]
  exact follows_mapRows fun i => invNttToMont_eq (range i)

theorem follows_polyVecNtt
    (bounded : ∀ i : Fin rows, (region.read storage)[i].Bounded qConst) :
    Follows early (polyVecNttVolatile region) (Mldsa87.polyVecNttVolatile region)
      storage := by
  rw [Mldsa87.polyVecNttVolatile, nttInLine_eq]
  exact follows_mapRows fun i => ntt_eq (bounded i)

theorem follows_polyVecAdd {v : InternalStorage → Vector Poly rows} {left right : Int}
    (independent : Independent region v)
    (first : ∀ i : Fin rows, (region.read storage)[i].Bounded left)
    (second : ∀ i : Fin rows, (v storage)[i].Bounded right)
    (small : left + right < 2147483648) :
    Follows early (polyVecAddVolatile region v) (Mldsa87.polyVecAddVolatile region v)
      storage := by
  rw [polyVecAddVolatile, Mldsa87.polyVecAddVolatile, writeRows]
  apply follows_setRows region
  · intro index other storage value different
    rw [read_setRow_other region different, independent.setRow]
  · intro index other storage value different
    rw [read_setRow_other region different, independent.setRow]
  · intro i
    exact polyAdd_eq (first i) (second i) small

theorem follows_polyVecPointwise {a : InternalStorage → Poly}
    {v : InternalStorage → Vector Poly rows} {left right : Int}
    (independent : Independent region a)
    (own : ∀ index other storage value, index ≠ other →
      (v (region.setRow index value storage))[other] = (v storage)[other])
    (first : (a storage).Bounded left)
    (second : ∀ i : Fin rows, (v storage)[i].Bounded right)
    (product : left * right ≤ montgomeryLimit) :
    Follows early (polyVecPointwisePolyMontgomeryVolatile region a v)
      (Mldsa87.polyVecPointwisePolyMontgomeryVolatile region a v) storage := by
  rw [polyVecPointwisePolyMontgomeryVolatile,
    Mldsa87.polyVecPointwisePolyMontgomeryVolatile, writeRows]
  apply follows_setRows region
  · intro index other storage value different
    rw [independent.setRow, own _ _ _ _ different]
  · intro index other storage value different
    rw [independent.setRow, own _ _ _ _ different]
  · intro i
    exact polyPointwiseMontgomery_eq first (second i) product

end Rows

section Vectors

variable {early : Prop} {region : Region InternalStorage PolyVecK}
  {storage : InternalStorage}

theorem follows_polyVecCAddq
    (bounded : ∀ i : Fin 8, (region.read storage)[i].Bounded qConst) :
    Follows early (polyVecCAddqVolatile region)
      (Mldsa87.polyVecKCAddqVolatile region) storage :=
  follows_mapRows fun i => polyCAddq_eq (bounded i)

theorem follows_polyVecShiftL
    (range : ∀ i : Fin 8, Within 0 1024 (region.read storage)[i]) :
    Follows early (polyVecShiftLVolatile region)
      (Mldsa87.polyVecKShiftLVolatile region) storage :=
  follows_mapRows fun i => polyShiftL_eq (range i)

theorem follows_polyVecSub {v : InternalStorage → PolyVecK} {left right : Int}
    (independent : Independent region v)
    (first : ∀ i : Fin 8, (region.read storage)[i].Bounded left)
    (second : ∀ i : Fin 8, (v storage)[i].Bounded right)
    (small : left + right < 2147483648) :
    Follows early (polyVecSubVolatile region region.read v)
      (Mldsa87.polyVecKSubVolatile region region.read v) storage := by
  rw [polyVecSubVolatile, Mldsa87.polyVecKSubVolatile, writeRows]
  apply follows_setRows region
  · intro index other storage value different
    rw [read_setRow_other region different, independent.setRow]
  · intro index other storage value different
    rw [read_setRow_other region different, independent.setRow]
  · intro i
    exact polySub_eq (first i) (second i) small

private theorem mapPart_eq {round : Int → Option (Int × Int)} {plain : Int → Int × Int}
    (part : Int × Int → Int) {a : Poly}
    (passes : ∀ value, 0 ≤ value → value < qConst → round value = some (plain value))
    (range : Within 0 qConst a) :
    mapPoly (fun value => (round value).map part) a =
      some (a.map fun value => part (plain value)) := by
  apply mapPoly_eq
  intro index bound
  have coefficient := range index bound
  rw [passes _ coefficient.1 coefficient.2, Option.map_some]

private theorem follows_twoParts {v1 v0 : Region InternalStorage PolyVecK}
    {f g : Poly → Option Poly} {fPlain gPlain : Poly → Poly}
    (unchanged : Independent v0 v1.read)
    (low : ∀ i : Fin 8, f (v1.read storage)[i] = some (fPlain (v1.read storage)[i]))
    (high : ∀ i : Fin 8, g (v1.read storage)[i] = some (gPlain (v1.read storage)[i])) :
    Follows early
      (do
        setRows v0 fun i storage => f (v1.read storage)[i]
        setRows v1 fun i storage => g (v1.read storage)[i])
      (do
        writeRows v0 fun i storage => fPlain (v1.read storage)[i]
        writeRows v1 fun i storage => gPlain (v1.read storage)[i])
      storage := by
  apply follows_bind
  · rw [writeRows]
    apply follows_setRows v0
    · intro index other storage value different
      rw [unchanged.setRow]
    · intro index other storage value different
      rw [unchanged.setRow]
    · exact low
  · rw [finish_writeRows v0 fun index other storage value different => by
      rw [unchanged.setRow]]
    apply follows_mapRows
    rw [unchanged]
    exact high

theorem follows_polyVecKPower2Round {v1 v0 : Region InternalStorage PolyVecK}
    (unchanged : Independent v0 v1.read)
    (range : ∀ i : Fin 8, Within 0 qConst (v1.read storage)[i]) :
    Follows early (polyVecKPower2RoundVolatile v1 v0 v1.read)
      (Mldsa87.polyVecKPower2RoundVolatile v1 v0 v1.read) storage :=
  follows_twoParts unchanged
    (fun i => mapPart_eq (fun parts => parts.2) (fun _ => power2Round_eq) (range i))
    (fun i => mapPart_eq (fun parts => parts.1) (fun _ => power2Round_eq) (range i))

theorem follows_polyVecKPower2RoundKeypair
    (range : ∀ i : Fin 8, Within 0 qConst (region.read storage)[i]) :
    Follows early (polyVecKPower2RoundVolatileKeypair region region.read)
      (Mldsa87.polyVecKPower2RoundVolatileKeypair region region.read) storage :=
  follows_mapRows fun i =>
    mapPart_eq (fun parts => parts.1) (fun _ => power2Round_eq) (range i)

theorem follows_polyVecKDecompose {v1 v0 : Region InternalStorage PolyVecK}
    (unchanged : Independent v0 v1.read)
    (range : ∀ i : Fin 8, Within 0 qConst (v1.read storage)[i]) :
    Follows early (polyVecKDecomposeVolatile v1 v0 v1.read)
      (Mldsa87.polyVecKDecomposeVolatile v1 v0 v1.read) storage :=
  follows_twoParts unchanged
    (fun i => mapPart_eq (fun parts => parts.2) (fun _ => decompose_eq) (range i))
    (fun i => mapPart_eq (fun parts => parts.1) (fun _ => decompose_eq) (range i))

theorem follows_polyVecKUseHint {h : InternalStorage → PolyVecK}
    (independent : Independent region h)
    (range : ∀ i : Fin 8, Within 0 qConst (region.read storage)[i])
    (bits : ∀ i : Fin 8, ∀ n < 256, (h storage)[i].coeff n = 0 ∨ (h storage)[i].coeff n = 1) :
    Follows early (polyVecKUseHintVolatile region region.read h)
      (Mldsa87.polyVecKUseHintVolatile region region.read h) storage := by
  rw [polyVecKUseHintVolatile, Mldsa87.polyVecKUseHintVolatile, writeRows]
  apply follows_setRows region
  · intro index other storage value different
    rw [read_setRow_other region different, independent.setRow]
  · intro index other storage value different
    rw [read_setRow_other region different, independent.setRow]
  · intro i
    apply zipPoly_eq
    intro n bound
    have coefficient := range i n bound
    exact useHint_eq coefficient.1 coefficient.2 (bits i n bound)

end Vectors

/-! ## The matrix product -/

section Product

variable {early : Prop} {streams : Streams} {shake : Shake}

private def accumulated (j : Fin 7) (acc entry s1hat : Poly) : Poly :=
  let product := Mldsa87.polyPointwiseMontgomery entry s1hat
  if j.val = 0 then product else Mldsa87.polyAdd acc product

private theorem accumulate_eq {j : Fin 7} {acc entry s1hat : Poly}
    (entryBound : entry.Bounded qConst) (s1hatBound : s1hat.Bounded (9 * qConst))
    (accBound : j.val ≠ 0 → acc.Bounded (j.val * qConst)) :
    accumulate j acc entry s1hat = some (accumulated j acc entry s1hat) ∧
      (accumulated j acc entry s1hat).Bounded ((j.val + 1 : ℕ) * qConst) := by
  have limit : qConst * (9 * qConst) ≤ montgomeryLimit := by decide
  have product := pointwise_bounded entryBound s1hatBound limit
  have passes := polyPointwiseMontgomery_eq entryBound s1hatBound limit
  by_cases first : j.val = 0
  · have stored : accumulated j acc entry s1hat =
        Mldsa87.polyPointwiseMontgomery entry s1hat := if_pos first
    rw [stored]
    refine ⟨bind_of_eq_some passes (if_pos first), product.mono ?_⟩
    rw [first, qConst]
    norm_num
  · have stored : accumulated j acc entry s1hat =
        Mldsa87.polyAdd acc (Mldsa87.polyPointwiseMontgomery entry s1hat) :=
      if_neg first
    have small : j.val * qConst + qConst < 2147483648 := by
      have bound := j.isLt
      rw [qConst]
      omega
    have sum := polyAdd_eq (accBound first) product small
    rw [stored]
    refine ⟨bind_of_eq_some passes ((if_neg first).trans sum), ?_⟩
    apply (polyAdd_bounded (accBound first) product small).mono
    push_cast
    linarith

theorem follows_combinedMethod (underlies : streams.Underlies early shake)
    {t1 : Region InternalStorage PolyVecK} {s1hat : InternalStorage → PolyVecL}
    (independent : Independent t1 s1hat) (rho : List UInt8) {storage : InternalStorage}
    (bounded : ∀ j : Fin 7, (s1hat storage)[j].Bounded (9 * qConst)) :
    Follows early (combinedMethod streams t1 s1hat rho)
      (Mldsa87.combinedMethod shake t1 s1hat rho) storage := by
  rw [combinedMethod, Mldsa87.combinedMethod]
  refine (follows_forRows (fun _ storage =>
    ∀ j : Fin 7, (s1hat storage)[j].Bounded (9 * qConst)) ?_ bounded).1
  intro i storage bounded
  -- after some columns the row is the sum of as many products
  refine (follows_forRows (fun columns storage =>
    (columns ≠ 0 → (t1.read storage)[i].Bounded (columns * qConst)) ∧
      ∀ j : Fin 7, (s1hat storage)[j].Bounded (9 * qConst)) ?_ ?_).imp
        (fun follows => follows) (fun kept => kept.2)
  · rintro j storage ⟨accBound, bounded⟩
    have column := accumulate_eq (matrixEntry_bounded shake rho i j) (bounded j) accBound
    have shifted : InInt32 (i.val * 2 ^ 8) := ⟨by omega, by omega⟩
    have nonce : InInt32 (i.val * 2 ^ 8 + j.val) := ⟨by omega, by omega⟩
    refine ⟨?_, ?_, ?_⟩
    · apply follows_check (int32_exact shifted)
      apply follows_check (int32_exact nonce)
      apply follows_await (underlies.matrixEntry rho i j)
      apply follows_ahead
      apply follows_check column.1
      exact follows_update rfl
    · intro _
      rw [Program.finish_update, Region.read_setRow, getElem_index,
        Vector.getElem_set_self]
      exact column.2
    · rw [Program.finish_update, independent.setRow]
      exact bounded
  · exact ⟨fun none => absurd rfl none, bounded⟩

end Product

/-! ## Sampling -/

section Sampling

variable {early : Prop} {streams : Streams} {shake : Shake} {storage : InternalStorage}

theorem polyZUnpack_eq (buf : List UInt8) :
    polyZUnpack buf = some (Mldsa87.polyZUnpack buf) := by
  rw [polyZUnpack, Mldsa87.polyZUnpack]
  apply collect_eq
  intro index
  apply int32_exact
  have fields := zFields_lt buf (index / 2)
  rw [gamma1, InInt32]
  split <;> omega

theorem polyUniformGamma1_eq (underlies : streams.Underlies early shake)
    (seed : List UInt8) {nonce : ℕ} (few : nonce < 814) (j : Fin 7) :
    polyUniformGamma1 streams.shake256 seed nonce j =
      some (Mldsa87.polyUniformGamma1 shake.shake256 seed nonce j) := by
  have product : InInt32 (7 * nonce) := ⟨by omega, by omega⟩
  have sum : InInt32 (7 * nonce + j) := ⟨by omega, by omega⟩
  rw [polyUniformGamma1, Mldsa87.polyUniformGamma1]
  apply bind_of_eq_some (int32_exact product)
  apply bind_of_eq_some (int32_exact sum)
  rw [← underlies.shakeOnce (seed ++ nonceBytes ((7 * nonce + j) % 65536)) 680 le_rfl]
  exact polyZUnpack_eq _

theorem follows_polyVecLUniformGamma1 (underlies : streams.Underlies early shake)
    (v : Region InternalStorage PolyVecL) (seed : List UInt8) {nonce : ℕ}
    (few : nonce < 814) :
    Follows early (polyVecLUniformGamma1Volatile streams v seed nonce)
      (Mldsa87.polyVecLUniformGamma1Volatile shake v seed nonce) storage := by
  rw [polyVecLUniformGamma1Volatile, Mldsa87.polyVecLUniformGamma1Volatile, writeRows]
  apply follows_setRows v
  · intro index other storage value different
    rfl
  · intro index other storage value different
    rfl
  · intro j
    exact polyUniformGamma1_eq underlies seed few j

theorem follows_copy :
    Follows early (setRows zRegion fun i storage => some storage.y[i])
      (writeRows zRegion fun i storage => storage.y[i]) storage := by
  rw [writeRows]
  apply follows_setRows zRegion
  · intro index other storage value different
    rfl
  · intro index other storage value different
    rfl
  · intro i
    rfl

theorem follows_polyChallenge (underlies : streams.Underlies early shake)
    (seed : InternalStorage → List UInt8) :
    Follows early (polyChallengeVolatile streams seed)
      (Mldsa87.polyChallengeVolatile shake seed) storage := by
  apply follows_ahead
  apply follows_await (underlies.polyChallenge (seed storage))
  exact follows_update rfl

theorem follows_polyNtt (bounded : storage.cp.Bounded qConst) :
    Follows early polyNttVolatile Mldsa87.polyNttVolatile storage := by
  apply follows_ahead
  apply follows_check (ntt_eq bounded)
  rw [Mldsa87.polyNttVolatile, nttInLine_eq]
  exact follows_update rfl

theorem polyVecNtt_eq {rows : ℕ} {v : Vector Poly rows}
    (bounded : ∀ i : Fin rows, v[i].Bounded qConst) :
    polyVecNtt v = some (v.map Mldsa87.ntt) := by
  have entries : polyVecNtt v =
      some (Vector.ofFn fun i : Fin rows => Mldsa87.ntt v[i]) :=
    collect_eq fun i => ntt_eq (bounded i)
  have list : (Vector.ofFn fun i : Fin rows => Mldsa87.ntt v[i]) = v.map Mldsa87.ntt := by
    ext1 index bound
    simp
  rw [entries, list]

end Sampling

/-! ## Hints -/

section Hints

variable {early : Prop} {storage : InternalStorage}

theorem follows_polyVecKMakeHint {h : Region InternalStorage PolyVecK}
    {v0 v1 : InternalStorage → PolyVecK} (v0Apart : Independent h v0)
    (v1Apart : Independent h v1)
    (low : ∀ i : Fin 8, (v0 storage)[i].Bounded 1073741823)
    (high : ∀ i : Fin 8, (v1 storage)[i].Bounded 1073741823) :
    Follows early (polyVecKMakeHintVolatile h v0 v1)
      (Mldsa87.polyVecKMakeHintVolatile h v0 v1) storage := by
  apply follows_foldlM fun current => v0 current = v0 storage ∧ v1 current = v1 storage
  · rintro count i current ⟨sameLow, sameHigh⟩
    have row : collect (fun index : Fin 256 =>
        makeHint (v0 current)[i][index] (v1 current)[i][index]) =
          some (Vector.zipWith Mldsa87.makeHint (v0 current)[i] (v1 current)[i]) := by
      have entries : collect (fun index : Fin 256 =>
          makeHint (v0 current)[i][index] (v1 current)[i][index]) =
            some (Vector.ofFn fun index : Fin 256 =>
              Mldsa87.makeHint (v0 current)[i][index] (v1 current)[i][index]) := by
        apply collect_eq
        intro index
        have lowWord := low i index index.isLt
        have highWord := high i index index.isLt
        rw [← sameLow, coeff_eq_getElem] at lowWord
        rw [← sameHigh, coeff_eq_getElem] at highWord
        exact makeHint_eq (by omega) (by omega)
      have list : (Vector.ofFn fun index : Fin 256 =>
          Mldsa87.makeHint (v0 current)[i][index] (v1 current)[i][index]) =
            Vector.zipWith Mldsa87.makeHint (v0 current)[i] (v1 current)[i] := by
        ext index bound
        simp
      rw [entries, list]
    constructor
    · apply follows_read
      apply follows_check row
      apply follows_bind (follows_update rfl)
      exact follows_pure _
    · have kept : Program.Preserves
          (fun other => v0 other = v0 storage ∧ v1 other = v1 storage) (do
            let storage ← Program.read
            let row : Vector ℕ 256 :=
              Vector.zipWith Mldsa87.makeHint (v0 storage)[i] (v1 storage)[i]
            Program.update fun storage =>
              h.setRow i (row.map fun (hint : ℕ) => (hint : Int)) storage
            pure (count + row.foldl (fun s2 hint => s2 + hint) 0)) := by
        refine Program.preserves_bind Program.preserves_read fun _ =>
          Program.preserves_bind (Program.preserves_update ?_)
            fun _ => Program.preserves_pure _
        rintro other ⟨lowSame, highSame⟩
        rw [v0Apart.setRow, v1Apart.setRow]
        exact ⟨lowSame, highSame⟩
      exact kept.finish ⟨sameLow, sameHigh⟩
  · exact ⟨rfl, rfl⟩

end Hints

/-! ## Packing -/

section Packing

variable {early : Prop} {storage : InternalStorage} {a : Poly}

theorem polyT1Pack_eq (range : Within 0 1024 a) :
    polyT1Pack a = some (Mldsa87.polyT1Pack a) :=
  bind_of_eq_some (require_eq range) rfl

theorem polyW1Pack_eq (range : Within 0 16 a) :
    polyW1Pack a = some (Mldsa87.polyW1Pack a) :=
  bind_of_eq_some (require_eq range) rfl

theorem polyZPack_eq (range : ∀ n < 256, -gamma1 < a.coeff n ∧ a.coeff n ≤ gamma1) :
    polyZPack a = some (Mldsa87.polyZPack a) := by
  rw [gamma1] at range
  have fields : mapPoly (fun value => int32 (gamma1 - value)) a =
      some (a.map fun value => gamma1 - value) := by
    apply mapPoly_eq
    intro n bound
    have coefficient := range n bound
    apply int32_exact
    rw [gamma1, InInt32]
    omega
  have fit : Within 0 1048576 (a.map fun value => gamma1 - value) := by
    intro n bound
    have coefficient := range n bound
    rw [coeff_map _ _ bound, gamma1]
    omega
  exact bind_of_eq_some fields (bind_of_eq_some (require_eq fit) rfl)

theorem follows_packPk (rho : List UInt8) (range : ∀ b : Fin 8, Within 0 1024 storage.t1[b]) :
    Follows early (packPkVolatile rho t1Region.read)
      (Mldsa87.packPkVolatile rho t1Region.read) storage := by
  apply follows_bind (follows_update rfl)
  rw [Program.finish_update]
  refine (follows_forRows (fun _ storage => ∀ b : Fin 8, Within 0 1024 storage.t1[b])
    ?_ range).1
  intro b storage range
  constructor
  · apply follows_ahead
    apply follows_check (polyT1Pack_eq (range b))
    exact follows_update rfl
  · rw [Program.finish_update]
    exact range

theorem follows_packW1 (range : ∀ i : Fin 8, Within 0 16 storage.w1[i]) :
    Follows early (polyVecKPackW1Volatile w1Region.read)
      (Mldsa87.polyVecKPackW1Volatile w1Region.read) storage := by
  refine (follows_forRows (fun _ storage => ∀ i : Fin 8, Within 0 16 storage.w1[i])
    ?_ range).1
  intro i storage range
  constructor
  · apply follows_ahead
    apply follows_check (polyW1Pack_eq (range i))
    exact follows_update rfl
  · rw [Program.finish_update]
    exact range

theorem follows_packW1Verify (range : ∀ i : Fin 8, Within 0 16 storage.w1[i]) :
    Follows early (polyVecKPackW1VolatileVerify w1Region.read)
      (Mldsa87.polyVecKPackW1VolatileVerify w1Region.read) storage := by
  refine (follows_forRows (fun _ storage => ∀ i : Fin 8, Within 0 16 storage.w1[i])
    ?_ range).1
  intro i storage range
  constructor
  · apply follows_ahead
    apply follows_check (polyW1Pack_eq (range i))
    exact follows_update rfl
  · rw [Program.finish_update]
    exact range

end Packing

/-! ## The encoding of hints -/

section HintBytes

def nonzeroCount (h : Poly) (js : List ℕ) : ℕ :=
  (js.filter fun j => h.coeff j ≠ 0).length

def nonzeroRows (h : PolyVecK) (rows : List (Fin 8)) : ℕ :=
  (rows.map fun i => nonzeroCount h[i] (List.range 256)).sum

variable {h : Poly} {i : ℕ}

private def plainHintStep (h : Poly) (i : ℕ) (state : List UInt8 × ℕ) (j : ℕ) :
    List UInt8 × ℕ :=
  let (temp, k) :=
    if h.coeff j ≠ 0 then (state.1.set state.2 (UInt8.ofNat j), state.2 + 1) else state
  (temp.set (75 + i) (UInt8.ofNat k), k)

private def guardedHintStep (h : Poly) (i : ℕ) (state : List UInt8 × ℕ) (j : ℕ) :
    Option (List UInt8 × ℕ) := do
  let next ← int32 (state.2 + 1)
  let (temp, k) :=
    if h.coeff j ≠ 0 then (state.1.set state.2 (UInt8.ofNat j), next.toNat) else state
  require (k < 256)
  pure (temp.set (75 + i) (UInt8.ofNat k), k)

private theorem hintStep_eq {state : List UInt8 × ℕ} {j : ℕ}
    (few : state.2 + nonzeroCount h [j] < 256) :
    guardedHintStep h i state j = some (plainHintStep h i state j) ∧
      (plainHintStep h i state j).2 = state.2 + nonzeroCount h [j] := by
  have range : InInt32 (state.2 + 1) := ⟨by omega, by omega⟩
  have next : ((state.2 : Int) + 1).toNat = state.2 + 1 := by omega
  rw [guardedHintStep, plainHintStep]
  by_cases hint : h.coeff j ≠ 0
  · have one : nonzeroCount h [j] = 1 := by simp [nonzeroCount, hint]
    rw [one] at few ⊢
    simp only [int32_exact range, if_pos hint, next, require_eq few,
      Option.bind_eq_bind, Option.bind_some, Option.pure_def, and_self]
  · have none : nonzeroCount h [j] = 0 := by simp [nonzeroCount, not_not.mp hint]
    rw [none] at few ⊢
    simp only [int32_exact range, if_neg hint, require_eq (show state.2 < 256 from few),
      Option.bind_eq_bind, Option.bind_some, Option.pure_def, Nat.add_zero, and_self]

private theorem hintSteps_eq : ∀ (js : List ℕ) (state : List UInt8 × ℕ),
    state.2 + nonzeroCount h js < 256 →
      js.foldlM (guardedHintStep h i) state = some (js.foldl (plainHintStep h i) state) ∧
        (js.foldl (plainHintStep h i) state).2 = state.2 + nonzeroCount h js
  | [], state, _ => ⟨rfl, rfl⟩
  | j :: rest, state, few => by
      have split : nonzeroCount h (j :: rest) =
          nonzeroCount h [j] + nonzeroCount h rest := by
        rw [nonzeroCount, nonzeroCount, nonzeroCount, ← List.length_append,
          ← List.filter_append]
        rfl
      rw [split] at few ⊢
      have step : guardedHintStep h i state j = some (plainHintStep h i state j) ∧
          (plainHintStep h i state j).2 = state.2 + nonzeroCount h [j] :=
        hintStep_eq (by omega)
      have others := hintSteps_eq rest (plainHintStep h i state j) (by omega)
      rw [List.foldlM_cons, List.foldl_cons]
      exact ⟨bind_of_eq_some step.1 others.1, by omega⟩

private theorem packHintRow_eq {h : Poly} {i : ℕ} {state : List UInt8 × ℕ}
    (few : state.2 + nonzeroCount h (List.range 256) < 256) :
    packHintRow h i state = some (Mldsa87.packHintRow h i state) ∧
      (Mldsa87.packHintRow h i state).2 =
        state.2 + nonzeroCount h (List.range 256) :=
  hintSteps_eq (List.range 256) state few

theorem packHints_eq {h : PolyVecK} (few : nonzeroRows h (List.finRange 8) < 256) :
    packHints h = some (Mldsa87.packHints h) := by
  have rows : ∀ (is : List (Fin 8)) (state : List UInt8 × ℕ),
      state.2 + nonzeroRows h is < 256 →
      is.foldlM (fun state (i : Fin 8) => packHintRow h[i] i state) state =
        some (is.foldl (fun state (i : Fin 8) => Mldsa87.packHintRow h[i] i state)
          state) := by
    intro is
    induction is with
    | nil => exact fun _ _ => rfl
    | cons i rest induction =>
        intro state few
        rw [nonzeroRows, List.map_cons, List.sum_cons, ← nonzeroRows] at few
        have row : packHintRow h[i] i state = some (Mldsa87.packHintRow h[i] i state) ∧
            (Mldsa87.packHintRow h[i] i state).2 =
              state.2 + nonzeroCount h[i] (List.range 256) :=
          packHintRow_eq (by omega)
        rw [List.foldlM_cons, List.foldl_cons]
        exact bind_of_eq_some row.1 (induction _ (by omega))
  have all := rows (List.finRange 8) (List.replicate 83 0, 0) (by simpa using few)
  rw [packHints, Mldsa87.packHints]
  exact bind_of_eq_some all rfl

end HintBytes

section Signature

variable {early : Prop} {storage : InternalStorage}

theorem follows_packSig (c : List UInt8)
    (range : ∀ b : Fin 7, ∀ n < 256,
      -gamma1 < storage.z[b].coeff n ∧ storage.z[b].coeff n ≤ gamma1)
    (few : nonzeroRows storage.h (List.finRange 8) < 256) :
    Follows early (packSigVolatile c zRegion.read hRegion.read)
      (Mldsa87.packSigVolatile c zRegion.read hRegion.read) storage := by
  apply follows_bind (follows_update rfl)
  rw [Program.finish_update]
  apply follows_forRows_bind fun _ storage =>
    (∀ b : Fin 7, ∀ n < 256,
      -gamma1 < storage.z[b].coeff n ∧ storage.z[b].coeff n ≤ gamma1) ∧
      nonzeroRows storage.h (List.finRange 8) < 256
  · rintro b storage ⟨range, few⟩
    constructor
    · apply follows_ahead
      apply follows_check (polyZPack_eq (range b))
      exact follows_update rfl
    · rw [Program.finish_update]
      exact ⟨range, few⟩
  · exact ⟨range, few⟩
  · rintro storage ⟨_, few⟩
    apply follows_bind (follows_update rfl)
    rw [Program.finish_update]
    apply follows_ahead
    apply follows_check (packHints_eq few)
    exact follows_update rfl

theorem follows_unpackSig (sig : List UInt8) :
    Follows early (unpackSigVolatile zRegion hRegion sig)
      (Mldsa87.unpackSigVolatile zRegion hRegion sig) storage := by
  apply follows_bind
  · rw [writeRows]
    apply follows_setRows zRegion
    · intro index other storage value different
      rfl
    · intro index other storage value different
      rfl
    · intro b
      exact polyZUnpack_eq _
  · apply follows_bind (follows_lift _)
    -- both go on in the same way
    generalize Program.value (unpackHintRows hRegion sig (List.finRange 8) 0) _ = used
    cases used with
    | none => exact follows_pure _
    | some k => exact follows_pure _

end Signature

end LedgerQrl.Mldsa87.Guarded
