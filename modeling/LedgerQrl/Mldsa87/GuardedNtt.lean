import LedgerQrl.Mldsa87.GuardedPoly

namespace LedgerQrl.Mldsa87.Guarded

open Foundation Poly

/-! # The transforms pass

The butterflies of a layer work on different coefficients, so each of them finds
what the layer before has left there. -/

/-- A round that passes on coefficients up to `limit`. -/
def PassesUpTo (limit : Int) (guarded : (count j : ℕ) → Poly → Option Poly)
    (plain : (count j : ℕ) → Poly → Poly) : Prop :=
  ∀ count j a, 0 < count → j + count < 256 → |a.coeff j| ≤ limit →
    |a.coeff (j + count)| ≤ limit → guarded count j a = some (plain count j a)

section Rounds

variable {limit : Int} {zeta : Int}

theorem nttButterfly_passes (table : |zeta| ≤ 4190208) (small : limit ≤ 8 * qConst) :
    PassesUpTo limit (nttButterfly zeta) (Mldsa87.nttButterfly zeta) := by
  intro count j a positive bound lower upper
  have modulus : qConst = 8380417 := rfl
  have product : |zeta * a.coeff (j + count)| ≤ montgomeryLimit :=
    abs_mul_le_montgomeryLimit table (upper.trans small) (by decide)
  have term := montgomeryReduce_abs_le_q product
  rw [modulus] at small term
  rw [abs_le] at lower term
  have difference : InInt32
      (a.coeff j - Mldsa87.montgomeryReduce (zeta * a.coeff (j + count))) :=
    ⟨by omega, by omega⟩
  have sum : InInt32
      (a.coeff j + Mldsa87.montgomeryReduce (zeta * a.coeff (j + count))) :=
    ⟨by omega, by omega⟩
  -- the second assignment reads a coefficient that the first one keeps
  have kept : ∀ value, (a.assign (j + count) value).coeff j = a.coeff j := by
    intro value
    rw [coeff_assign _ _ bound, if_neg (by omega)]
  simp only [nttButterfly, Mldsa87.nttButterfly, montgomeryReduce_eq product,
    int32_eq difference, kept, int32_eq sum, Option.bind_eq_bind, Option.bind_some,
    Option.pure_def]

theorem invNttButterfly_passes (table : |zeta| ≤ 4190208)
    (small : limit ≤ 128 * qConst) :
    PassesUpTo limit (invNttButterfly zeta) (Mldsa87.invNttButterfly zeta) := by
  intro count j a positive bound lower upper
  have modulus : qConst = 8380417 := rfl
  rw [modulus] at small
  rw [abs_le] at lower upper
  have sum : InInt32 (a.coeff j + a.coeff (j + count)) := ⟨by omega, by omega⟩
  have difference : InInt32 (a.coeff j - a.coeff (j + count)) := ⟨by omega, by omega⟩
  have distance : |a.coeff j - a.coeff (j + count)| ≤ 256 * qConst := by
    rw [modulus, abs_le]
    omega
  have product : |zeta * (a.coeff j - a.coeff (j + count))| ≤ montgomeryLimit :=
    abs_mul_le_montgomeryLimit table distance (by decide)
  have kept : ∀ value, (a.assign j value).coeff (j + count) = a.coeff (j + count) := by
    intro value
    rw [coeff_assign _ _ (by omega), if_neg (by omega)]
  have stored : ∀ (b : Poly) value, (b.assign (j + count) value).coeff (j + count) = value := by
    intro b value
    rw [coeff_assign _ _ bound, if_pos rfl]
  simp only [invNttButterfly, Mldsa87.invNttButterfly, int32_eq sum, kept,
    int32_eq difference, i32_of_inInt32 difference, stored, montgomeryReduce_eq product,
    Option.bind_eq_bind, Option.bind_some, Option.pure_def]

end Rounds

/-! ## Layers -/

section Layer

variable {guarded : (block count j : ℕ) → Poly → Option Poly}
  {plain : (block count j : ℕ) → Poly → Poly} {low high : (block : ℕ) → Int → Int → Int}
  {limit : Int} {count blocks : ℕ} {a : Poly}

def layerOf (butterfly : (block count j : ℕ) → Poly → Option Poly)
    (count blocks : ℕ) (a : Poly) : Option Poly :=
  (List.range blocks).foldlM (fun a block =>
    butterflies (butterfly block) count (2 * count * block) a) a

theorem butterflies_eq {guarded : (count j : ℕ) → Poly → Option Poly}
    {plain : (count j : ℕ) → Poly → Poly} {low high : Int → Int → Int}
    (isButterfly : IsButterfly plain low high) (passes : PassesUpTo limit guarded plain)
    {start : ℕ} (positive : 0 < count) (inRange : start + 2 * count ≤ 256)
    (bounded : ∀ position, start ≤ position → position < start + 2 * count →
      |a.coeff position| ≤ limit) :
    butterflies guarded count start a = some (Mldsa87.butterflies plain count start a) := by
  apply LocalSteps.foldlM_eq (localSteps_butterflies isButterfly positive inRange)
    List.nodup_range'
  intro j member current agree
  rw [List.mem_range'_1] at member
  apply passes count j current positive (by omega)
  · rw [agree j (Or.inl rfl)]
    exact bounded j (by omega) (by omega)
  · rw [agree (j + count) (Or.inr rfl)]
    exact bounded (j + count) (by omega) (by omega)

theorem layerOf_eq
    (isButterfly : ∀ block, IsButterfly (plain block) (low block) (high block))
    (passes : ∀ block, PassesUpTo limit (guarded block) (plain block))
    (positive : 0 < count) (size : 2 * count * blocks = 256) (bounded : a.Bounded limit) :
    layerOf guarded count blocks a = some (Mldsa87.layerOf plain count blocks a) := by
  apply LocalSteps.foldlM_eq (localSteps_layer isButterfly positive size) List.nodup_range
  intro block member current agree
  have inRange := block_inRange size (List.mem_range.mp member)
  apply butterflies_eq (isButterfly block) (passes block) positive inRange
  intro position lower upper
  rw [agree position (by rw [OwnsBlock, Nat.mul_succ]; omega)]
  exact bounded position (by omega)

end Layer

private theorem table_abs_le (node : ℕ) : |zeta node| ≤ 4190208 := by
  by_cases inside : node < 256
  · exact zeta_abs_le node inside
  · have outside : zetas[node]? = none := getElem?_neg zetas node inside
    rw [zeta, outside]
    decide

section Layers

variable {count : ℕ} {state : ℕ × Poly} {limit : Int}

theorem nttLayer_eq (positive : 0 < count) (size : 2 * count * (128 / count) = 256)
    (bounded : state.2.Bounded limit) (small : limit ≤ 8 * qConst) :
    nttLayer count state = some (Mldsa87.nttLayer count state) := by
  obtain ⟨k, a⟩ := state
  have layer := layerOf_eq (fun block => isButterfly_ntt (zeta (k + block + 1)))
    (fun block => nttButterfly_passes (table_abs_le (k + block + 1)) small) positive size
    bounded
  have counted := foldlM_counting_up (fun k block a =>
    butterflies (nttButterfly (zeta k)) count (2 * count * block) a) k a (128 / count)
  rw [layerOf] at layer
  rw [layer] at counted
  rw [Mldsa87.nttLayer_eq]
  exact counted

theorem invNttLayer_eq (positive : 0 < count) (size : 2 * count * (128 / count) = 256)
    (bounded : state.2.Bounded limit) (small : limit ≤ 128 * qConst) :
    invNttLayer count state = some (Mldsa87.invNttLayer count state) := by
  obtain ⟨k, a⟩ := state
  have negated : ∀ node, |-zeta node| ≤ 4190208 := by
    intro node
    rw [abs_neg]
    exact table_abs_le node
  have layer := layerOf_eq (fun block => isButterfly_invNtt (-zeta (k - block - 1)))
    (fun block => invNttButterfly_passes (negated (k - block - 1)) small) positive size
    bounded
  have counted := foldlM_counting_down (fun k block a =>
    butterflies (invNttButterfly (-zeta k)) count (2 * count * block) a) k a (128 / count)
  have signed : ∀ node, int32 (-zeta node) = some (-zeta node) := by
    intro node
    have entry := negated node
    rw [abs_le] at entry
    have range : InInt32 (-zeta node) := ⟨by omega, by omega⟩
    exact int32_exact range
  rw [layerOf] at layer
  rw [layer] at counted
  rw [Mldsa87.invNttLayer_eq, ← Option.map_some, ← counted, invNttLayer]
  congr 1
  funext pair block
  have entry := signed (pair.1 - 1)
  rw [zeta] at entry
  simp only [entry]
  rfl

end Layers

/-! ## The whole transforms -/

section Transforms

variable {a : Poly}

private theorem level_sizes : ∀ level < 8,
    2 * 2 ^ (7 - level) * (128 / 2 ^ (7 - level)) = 256 := by
  decide

private theorem round_sizes : ∀ round < 8,
    2 * 2 ^ round * (128 / 2 ^ round) = 256 ∧ 2 ^ round ≤ 128 := by
  decide

private theorem nttLayers_eq (bounded : a.Bounded qConst) : ∀ levels ≤ 8,
    (List.range levels).foldlM (fun state level => nttLayer (2 ^ (7 - level)) state)
      (0, a) = some (nttLayers a levels) := by
  intro levels
  induction levels with
  | zero => exact fun _ => rfl
  | succ levels induction =>
      intro within
      have range := (nttLayers_spec bounded levels (Nat.le_of_succ_le within)).2.1
      have small : qConst + levels * qConst ≤ 8 * qConst := by
        rw [qConst]
        omega
      have layer := nttLayer_eq (Nat.two_pow_pos _) (level_sizes levels within) range small
      rw [List.range_succ, List.foldlM_append, induction (Nat.le_of_succ_le within),
        nttLayers_succ, ← layer]
      simp

theorem ntt_eq (bounded : a.Bounded qConst) : ntt a = some (Mldsa87.ntt a) := by
  have counts : [128, 64, 32, 16, 8, 4, 2, 1] =
      (List.range 8).map fun level => 2 ^ (7 - level) := rfl
  rw [ntt, counts, List.foldlM_map, nttLayers_eq bounded 8 le_rfl, ntt_eq_nttLayers]
  simp only [Option.bind_eq_bind, Option.bind_some, Option.pure_def]

private theorem exists_leaves (v : Poly) : ∃ coeffs : ℕ → Zq, ∀ index < 256,
    v.residues index = 1 * forward 8 twiddle 8 coeffs index := by
  refine ⟨Negacyclic.coeff (ofLeaves v), ?_⟩
  intro index bound
  have value := transforms_ofLeaves v ⟨index, bound⟩
  rw [← Negacyclic.ofCoeffs_coeff (ofLeaves v)] at value
  rw [residues, value]
  congr 1
  exact Negacyclic.leafEquiv_ofCoeffs _ isField_zq nttTree two_ne_zero_zq _ _

private theorem invNttLayers_eq (bounded : a.Bounded qConst) : ∀ rounds ≤ 8,
    (List.range rounds).foldlM (fun state round => invNttLayer (2 ^ round) state)
      (256, a) = some (invNttLayers a rounds) := by
  obtain ⟨coeffs, leaves⟩ := exists_leaves a
  intro rounds
  induction rounds with
  | zero => exact fun _ => rfl
  | succ rounds induction =>
      intro within
      have range := (invNttLayers_spec bounded leaves rounds (Nat.le_of_succ_le within)).2.1
      obtain ⟨size, power⟩ := round_sizes rounds within
      have small : (2 : Int) ^ rounds * qConst ≤ 128 * qConst := by
        have cast : (2 : Int) ^ rounds ≤ 128 := by exact_mod_cast power
        rw [qConst]
        omega
      have layer := invNttLayer_eq (Nat.two_pow_pos _) size range small
      rw [List.range_succ, List.foldlM_append, induction (Nat.le_of_succ_le within),
        invNttLayers_succ, ← layer]
      simp

theorem invNttToMont_eq (range : Within (1 - qConst) qConst a) :
    invNttToMont a = some (Mldsa87.invNttToMont a) := by
  have bounded : a.Bounded qConst := by
    intro index bound
    have coefficient := range index bound
    rw [abs_le]
    omega
  obtain ⟨coeffs, leaves⟩ := exists_leaves a
  have final := (invNttLayers_spec bounded leaves 8 le_rfl).2.1
  have counts : [1, 2, 4, 8, 16, 32, 64, 128] =
      (List.range 8).map fun round => 2 ^ round := rfl
  have scaled : mapPoly (fun value => montgomeryReduce (41978 * value))
      (invNttLayers a 8).2 =
        some ((invNttLayers a 8).2.map fun value =>
          Mldsa87.montgomeryReduce (41978 * value)) := by
    apply mapPoly_eq
    intro index bound
    have factor : |(41978 : Int)| ≤ 41978 := by norm_num
    exact montgomeryReduce_eq
      (abs_mul_le_montgomeryLimit factor (final index bound) (by decide))
  have layers : [1, 2, 4, 8, 16, 32, 64, 128].foldlM
      (fun state count => invNttLayer count state) (256, a) =
        some (invNttLayers a 8) := by
    rw [counts, List.foldlM_map]
    exact invNttLayers_eq bounded 8 le_rfl
  rw [invNttToMont_eq_invNttLayers, invNttToMont]
  exact bind_of_eq_some (require_eq range) (bind_of_eq_some layers scaled)

/-- The range of the inverse transform does not depend on what the words stand
for. -/
theorem invNttToMont_range (bounded : a.Bounded qConst) :
    (Mldsa87.invNttToMont a).Bounded 4211178 :=
  (invNttToMont_spec bounded (transforms_ofLeaves a)).1

end Transforms

end LedgerQrl.Mldsa87.Guarded
