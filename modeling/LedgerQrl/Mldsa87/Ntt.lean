import LedgerQrl.Foundation.LocalStep
import LedgerQrl.Mldsa87.Reduce

namespace LedgerQrl.Mldsa87

open Foundation Poly

/-! # What the transforms compute

The loops of `ntt.c` work in place. One butterfly changes two coefficients;
the butterflies of a block, and the blocks of a layer, do not interfere, so a
layer is a split or a merge of every block. The layers together are the
transform of the ring, as long as no word overflows. -/

/-! ## Blocks -/

def OwnsPair (count j position : ℕ) : Prop :=
  position = j ∨ position = j + count

def OwnsBlock (count block position : ℕ) : Prop :=
  2 * count * block ≤ position ∧ position < 2 * count * (block + 1)

/-- A round that changes only its pair, as a function of the pair. -/
structure IsButterfly (butterfly : (count j : ℕ) → Poly → Poly)
    (low high : Int → Int → Int) : Prop where
  low_eq : ∀ count j a, 0 < count → j + count < 256 →
    (butterfly count j a).coeff j = low (a.coeff j) (a.coeff (j + count))
  high_eq : ∀ count j a, 0 < count → j + count < 256 →
    (butterfly count j a).coeff (j + count) =
      high (a.coeff j) (a.coeff (j + count))
  frame : ∀ count j a position, j + count < 256 →
    ¬ OwnsPair count j position →
    (butterfly count j a).coeff position = a.coeff position

theorem isButterfly_ntt (zeta : Int) :
    IsButterfly (nttButterfly zeta)
      (fun lower upper => i32 (lower + montgomeryReduce (zeta * upper)))
      (fun lower upper => i32 (lower - montgomeryReduce (zeta * upper))) where
  low_eq count j a positive bound := by
    simp [nttButterfly, coeff_assign, bound, show j < 256 by omega,
      positive.ne']
  high_eq count j a positive bound := by
    simp [nttButterfly, coeff_assign, bound, show j < 256 by omega,
      positive.ne']
  frame count j a position bound apart := by
    rw [OwnsPair, not_or] at apart
    simp [nttButterfly, coeff_assign, bound, show j < 256 by omega,
      Ne.symm apart.1, Ne.symm apart.2]

theorem isButterfly_invNtt (zeta : Int) :
    IsButterfly (invNttButterfly zeta)
      (fun lower upper => i32 (lower + upper))
      (fun lower upper => montgomeryReduce (zeta * i32 (lower - upper))) where
  low_eq count j a positive bound := by
    simp [invNttButterfly, coeff_assign, bound, show j < 256 by omega,
      positive.ne']
  high_eq count j a positive bound := by
    simp [invNttButterfly, coeff_assign, bound, show j < 256 by omega,
      positive.ne']
  frame count j a position bound apart := by
    rw [OwnsPair, not_or] at apart
    simp [invNttButterfly, coeff_assign, bound, show j < 256 by omega,
      Ne.symm apart.1, Ne.symm apart.2]

section Block

variable {butterfly : (count j : ℕ) → Poly → Poly} {low high : Int → Int → Int}
  {count start : ℕ}

theorem localSteps_butterflies (isButterfly : IsButterfly butterfly low high)
    (positive : 0 < count) (inRange : start + 2 * count ≤ 256) :
    LocalSteps Poly.coeff (OwnsPair count) (butterfly count)
      (List.range' start count) where
  frame j member a position apart := by
    rw [List.mem_range'_1] at member
    exact isButterfly.frame count j a position (by omega) apart
  depends j member a other agree position owned := by
    rw [List.mem_range'_1] at member
    have lower := agree j (Or.inl rfl)
    have upper := agree (j + count) (Or.inr rfl)
    rcases owned with rfl | rfl
    · rw [isButterfly.low_eq count _ a positive (by omega),
        isButterfly.low_eq count _ other positive (by omega), lower, upper]
    · rw [isButterfly.high_eq count j a positive (by omega),
        isButterfly.high_eq count j other positive (by omega), lower, upper]
  apart j member other otherMember position owned otherOwned := by
    rw [List.mem_range'_1] at member otherMember
    rw [OwnsPair] at owned otherOwned
    omega

theorem butterflies_low (isButterfly : IsButterfly butterfly low high)
    (positive : 0 < count) (inRange : start + 2 * count ≤ 256) (a : Poly)
    {offset : ℕ} (bound : offset < count) :
    (butterflies butterfly count start a).coeff (start + offset) =
      low (a.coeff (start + offset)) (a.coeff (start + count + offset)) := by
  have steps := localSteps_butterflies isButterfly positive inRange
  have member : start + offset ∈ List.range' start count := by
    rw [List.mem_range'_1]
    omega
  have owned : OwnsPair count (start + offset) (start + offset) := Or.inl rfl
  have round := LocalSteps.foldl_owned steps List.nodup_range' a member owned
  rw [butterflies, round,
    isButterfly.low_eq count _ a positive (by omega), Nat.add_right_comm]

theorem butterflies_high (isButterfly : IsButterfly butterfly low high)
    (positive : 0 < count) (inRange : start + 2 * count ≤ 256) (a : Poly)
    {offset : ℕ} (bound : offset < count) :
    (butterflies butterfly count start a).coeff (start + count + offset) =
      high (a.coeff (start + offset)) (a.coeff (start + count + offset)) := by
  have steps := localSteps_butterflies isButterfly positive inRange
  have position : start + count + offset = start + offset + count := by omega
  have member : start + offset ∈ List.range' start count := by
    rw [List.mem_range'_1]
    omega
  have owned : OwnsPair count (start + offset) (start + offset + count) :=
    Or.inr rfl
  have round := LocalSteps.foldl_owned steps List.nodup_range' a member owned
  rw [butterflies, position, round,
    isButterfly.high_eq count _ a positive (by omega)]

theorem butterflies_frame (isButterfly : IsButterfly butterfly low high)
    (positive : 0 < count) (inRange : start + 2 * count ≤ 256) (a : Poly)
    {position : ℕ}
    (outside : position < start ∨ start + 2 * count ≤ position) :
    (butterflies butterfly count start a).coeff position = a.coeff position := by
  apply LocalSteps.foldl_frame
    (localSteps_butterflies isButterfly positive inRange)
  intro j member owned
  rw [List.mem_range'_1] at member
  rw [OwnsPair] at owned
  omega

end Block

/-! ## Layers -/

section Layer

variable {butterfly : (block count j : ℕ) → Poly → Poly}
  {low high : (block : ℕ) → Int → Int → Int} {count blocks : ℕ}

def layerOf (butterfly : (block count j : ℕ) → Poly → Poly)
    (count blocks : ℕ) (a : Poly) : Poly :=
  (List.range blocks).foldl (fun a block =>
    butterflies (butterfly block) count (2 * count * block) a) a

theorem block_inRange (size : 2 * count * blocks = 256) {block : ℕ}
    (bound : block < blocks) : 2 * count * block + 2 * count ≤ 256 := by
  rw [← size, ← Nat.mul_succ]
  exact Nat.mul_le_mul_left _ bound

theorem ownsBlock_apart {block other position : ℕ}
    (owned : OwnsBlock count block position)
    (otherOwned : OwnsBlock count other position) : block = other := by
  rw [OwnsBlock] at owned otherOwned
  by_contra different
  rcases Nat.lt_or_gt_of_ne different with before | after
  · have ordered : 2 * count * (block + 1) ≤ 2 * count * other :=
      Nat.mul_le_mul_left _ before
    omega
  · have ordered : 2 * count * (other + 1) ≤ 2 * count * block :=
      Nat.mul_le_mul_left _ after
    omega

theorem localSteps_layer
    (isButterfly : ∀ block, IsButterfly (butterfly block) (low block) (high block))
    (positive : 0 < count) (size : 2 * count * blocks = 256) :
    LocalSteps Poly.coeff (OwnsBlock count)
      (fun block => butterflies (butterfly block) count (2 * count * block))
      (List.range blocks) where
  frame block member a position apart := by
    rw [OwnsBlock, Nat.mul_succ] at apart
    exact butterflies_frame (isButterfly block) positive
      (block_inRange size (List.mem_range.mp member)) a (by omega)
  depends block member a other agree position owned := by
    have inRange := block_inRange size (List.mem_range.mp member)
    rw [OwnsBlock, Nat.mul_succ] at owned
    obtain ⟨offset, offsetBound, rfl | rfl⟩ : ∃ offset < count,
        position = 2 * count * block + offset ∨
          position = 2 * count * block + count + offset := by
      by_cases lower : position < 2 * count * block + count
      · exact ⟨position - 2 * count * block, by omega, Or.inl (by omega)⟩
      · exact ⟨position - 2 * count * block - count, by omega,
          Or.inr (by omega)⟩
    · rw [butterflies_low (isButterfly block) positive inRange a offsetBound,
        butterflies_low (isButterfly block) positive inRange other offsetBound,
        agree _ (by rw [OwnsBlock, Nat.mul_succ]; omega),
        agree _ (by rw [OwnsBlock, Nat.mul_succ]; omega)]
    · rw [butterflies_high (isButterfly block) positive inRange a offsetBound,
        butterflies_high (isButterfly block) positive inRange other offsetBound,
        agree _ (by rw [OwnsBlock, Nat.mul_succ]; omega),
        agree _ (by rw [OwnsBlock, Nat.mul_succ]; omega)]
  apart block _ other _ position := ownsBlock_apart

theorem layerOf_low
    (isButterfly : ∀ block, IsButterfly (butterfly block) (low block) (high block))
    (positive : 0 < count) (size : 2 * count * blocks = 256) (a : Poly)
    {block offset : ℕ} (blockBound : block < blocks) (bound : offset < count) :
    (layerOf butterfly count blocks a).coeff (2 * count * block + offset) =
      low block (a.coeff (2 * count * block + offset))
        (a.coeff (2 * count * block + count + offset)) := by
  rw [layerOf, LocalSteps.foldl_owned (localSteps_layer isButterfly positive size)
    List.nodup_range a (List.mem_range.mpr blockBound)
    (by rw [OwnsBlock, Nat.mul_succ]; omega)]
  exact butterflies_low (isButterfly block) positive
    (block_inRange size blockBound) a bound

theorem layerOf_high
    (isButterfly : ∀ block, IsButterfly (butterfly block) (low block) (high block))
    (positive : 0 < count) (size : 2 * count * blocks = 256) (a : Poly)
    {block offset : ℕ} (blockBound : block < blocks) (bound : offset < count) :
    (layerOf butterfly count blocks a).coeff
        (2 * count * block + count + offset) =
      high block (a.coeff (2 * count * block + offset))
        (a.coeff (2 * count * block + count + offset)) := by
  rw [layerOf, LocalSteps.foldl_owned (localSteps_layer isButterfly positive size)
    List.nodup_range a (List.mem_range.mpr blockBound)
    (by rw [OwnsBlock, Nat.mul_succ]; omega)]
  exact butterflies_high (isButterfly block) positive
    (block_inRange size blockBound) a bound

end Layer

theorem nttLayer_eq (count k : ℕ) (a : Poly) :
    nttLayer count (k, a) =
      (k + 128 / count, layerOf (fun block => nttButterfly (zeta (k + block + 1)))
        count (128 / count) a) :=
  foldl_counting_up (fun k block a =>
    butterflies (nttButterfly (zeta k)) count (2 * count * block) a) k a _

theorem invNttLayer_eq (count k : ℕ) (a : Poly) :
    invNttLayer count (k, a) =
      (k - 128 / count,
        layerOf (fun block => invNttButterfly (-zeta (k - block - 1)))
          count (128 / count) a) :=
  foldl_counting_down (fun k block a =>
    butterflies (invNttButterfly (-zeta k)) count (2 * count * block) a) k a _

/-! ## A layer of `ntt` -/

section Forward

variable {count blocks : ℕ} {index : ℕ → ℕ} {a : Poly} {limit : Int}

theorem nttTerm_spec {node : ℕ} (nodeBound : node < 256) {value : Int}
    (bounded : |value| ≤ 9 * qConst) :
    |montgomeryReduce (zeta node * value)| ≤ qConst ∧
      (montgomeryReduce (zeta node * value) : Zq) = twiddle node * value := by
  have product := abs_mul_le_montgomeryLimit (zeta_abs_le node nodeBound) bounded
    (by decide)
  refine ⟨montgomeryReduce_abs_le_q product, ?_⟩
  rw [cast_montgomeryReduce product, twiddle]
  push_cast
  ring

theorem nttLayer_bounded (positive : 0 < count)
    (size : 2 * count * blocks = 256)
    (indexBound : ∀ block < blocks, index block < 256)
    (bounded : a.Bounded limit) (small : limit ≤ 8 * qConst) :
    (layerOf (fun block => nttButterfly (zeta (index block))) count blocks
      a).Bounded (limit + qConst) := by
  intro position positionBound
  obtain ⟨block, blockBound, offset, offsetBound, place⟩ :=
    index_in_block positive (size ▸ positionBound)
  have inRange := block_inRange size blockBound
  have lower := bounded (2 * count * block + offset) (by omega)
  have upper := bounded (2 * count * block + count + offset) (by omega)
  have term := (nttTerm_spec (indexBound block blockBound)
    (upper.trans (by rw [qConst] at small ⊢; omega))).1
  rw [qConst] at small term ⊢
  rcases place with rfl | rfl
  · rw [layerOf_low (fun block => isButterfly_ntt (zeta (index block))) positive
      size a blockBound offsetBound]
    rw [abs_le] at lower term ⊢
    rw [i32_of_inInt32 ⟨by omega, by omega⟩]
    omega
  · rw [layerOf_high (fun block => isButterfly_ntt (zeta (index block))) positive
      size a blockBound offsetBound]
    rw [abs_le] at lower term ⊢
    rw [i32_of_inInt32 ⟨by omega, by omega⟩]
    omega

/-- Without overflow a layer splits every block. -/
theorem nttLayer_splits (positive : 0 < count)
    (size : 2 * count * blocks = 256)
    (indexBound : ∀ block < blocks, index block < 256)
    (bounded : a.Bounded limit) (small : limit ≤ 8 * qConst) :
    Splits (fun block => twiddle (index block)) count blocks a.residues
      (layerOf (fun block => nttButterfly (zeta (index block))) count blocks
        a).residues where
  lower block blockBound offset offsetBound := by
    have inRange := block_inRange size blockBound
    have lower := bounded (2 * count * block + offset) (by omega)
    have upper := bounded (2 * count * block + count + offset) (by omega)
    obtain ⟨term, cast⟩ := nttTerm_spec (indexBound block blockBound)
      (upper.trans (by rw [qConst] at small ⊢; omega))
    rw [residues, layerOf_low (fun block => isButterfly_ntt (zeta (index block)))
      positive size a blockBound offsetBound, i32_of_inInt32]
    · push_cast
      rw [cast]
      rfl
    · rw [qConst] at small term
      rw [abs_le] at lower term
      exact ⟨by omega, by omega⟩
  upper block blockBound offset offsetBound := by
    have inRange := block_inRange size blockBound
    have lower := bounded (2 * count * block + offset) (by omega)
    have upper := bounded (2 * count * block + count + offset) (by omega)
    obtain ⟨term, cast⟩ := nttTerm_spec (indexBound block blockBound)
      (upper.trans (by rw [qConst] at small ⊢; omega))
    rw [residues, layerOf_high (fun block => isButterfly_ntt (zeta (index block)))
      positive size a blockBound offsetBound, i32_of_inInt32]
    · push_cast
      rw [cast]
      rfl
    · rw [qConst] at small term
      rw [abs_le] at lower term
      exact ⟨by omega, by omega⟩

end Forward

/-! ## All layers of `ntt` -/

def nttLayers (a : Poly) (levels : ℕ) : ℕ × Poly :=
  (List.range levels).foldl (fun state level => nttLayer (2 ^ (7 - level)) state)
    (0, a)

theorem nttLayers_succ (a : Poly) (levels : ℕ) :
    nttLayers a (levels + 1) = nttLayer (2 ^ (7 - levels)) (nttLayers a levels) := by
  rw [nttLayers, List.range_succ, List.foldl_append]
  rfl

theorem ntt_eq_nttLayers (a : Poly) : ntt a = (nttLayers a 8).2 := rfl

private theorem level_sizes : ∀ level < 8,
    2 * 2 ^ (7 - level) * 2 ^ level = 256 ∧ 128 / 2 ^ (7 - level) = 2 ^ level ∧
      2 ^ level + 2 ^ level ≤ 256 := by
  decide

/-- After `level` layers of the loop: the counter, the range and the values. -/
theorem nttLayers_spec {a : Poly} (bounded : a.Bounded qConst) :
    ∀ level ≤ 8, (nttLayers a level).1 = 2 ^ level - 1 ∧
      (nttLayers a level).2.Bounded (qConst + level * qConst) ∧
      ∀ index < 256, (nttLayers a level).2.residues index =
        forward 8 twiddle level a.residues index := by
  intro level
  induction level with
  | zero =>
      intro _
      refine ⟨rfl, ?_, fun _ _ => rfl⟩
      simpa [nttLayers] using bounded
  | succ level induction =>
      intro within
      obtain ⟨counter, range, values⟩ := induction (Nat.le_of_succ_le within)
      obtain ⟨size, rounds, top⟩ := level_sizes level within
      have positive : 0 < 2 ^ (7 - level) := Nat.two_pow_pos _
      have one := Nat.one_le_two_pow (n := level)
      -- the rounds of the layer use the entries 2^level, 2^level + 1, ...
      have layer : nttLayer (2 ^ (7 - level)) (nttLayers a level) =
          (2 ^ level - 1 + 2 ^ level,
            layerOf (fun block => nttButterfly (zeta (2 ^ level - 1 + block + 1)))
              (2 ^ (7 - level)) (2 ^ level) (nttLayers a level).2) := by
        rw [← counter, ← rounds]
        exact nttLayer_eq _ _ _
      have indexBound : ∀ block < 2 ^ level, 2 ^ level - 1 + block + 1 < 256 := by
        intro block bound
        omega
      have small : qConst + level * qConst ≤ 8 * qConst := by
        rw [qConst]
        omega
      rw [nttLayers_succ, layer]
      refine ⟨by rw [pow_succ]; omega, ?_, ?_⟩
      · apply (nttLayer_bounded positive size indexBound range small).mono
        push_cast
        linarith
      · have splits := nttLayer_splits positive size indexBound range small
        have spec := splits_splitLayer (fun block => twiddle (2 ^ level + block))
          (2 ^ (7 - level)) (2 ^ level) (forward 8 twiddle level a.residues)
        have sameTwiddles : (fun block => twiddle (2 ^ level - 1 + block + 1)) =
            fun block => twiddle (2 ^ level + block) := by
          funext block
          congr 1
          omega
        rw [sameTwiddles] at splits
        intro index bound
        have half : 8 - (level + 1) = 7 - level := by omega
        rw [forward, half]
        rw [← size] at values bound
        exact splits.unique positive spec values bound

/-- `ntt` computes the values at the leaves, in range `9 q`. -/
theorem ntt_spec {a : Poly} (bounded : a.Bounded qConst) :
    (ntt a).Bounded (9 * qConst) ∧
      ∀ leaf : Fin 256, ((ntt a).coeff leaf : Zq) = nttEquiv a.toRq leaf := by
  obtain ⟨_, range, values⟩ := nttLayers_spec bounded 8 (Nat.le_refl 8)
  rw [ntt_eq_nttLayers]
  refine ⟨range.mono (by rw [qConst]; norm_num), ?_⟩
  intro leaf
  rw [nttEquiv_toRq]
  exact values leaf leaf.isLt

/-! ## A layer of `inv_ntt_to_mont` -/

section Inverse

variable {count blocks : ℕ} {index : ℕ → ℕ} {a : Poly} {limit : Int}

theorem invNttTerm_spec {node : ℕ} (nodeBound : node < 256) {value : Int}
    (bounded : |value| ≤ 256 * qConst) :
    |montgomeryReduce (-zeta node * value)| ≤ qConst ∧
      (montgomeryReduce (-zeta node * value) : Zq) = -twiddle node * value := by
  have negated : |-zeta node| ≤ 4190208 := by
    rw [abs_neg]
    exact zeta_abs_le node nodeBound
  have product := abs_mul_le_montgomeryLimit negated bounded (by decide)
  refine ⟨montgomeryReduce_abs_le_q product, ?_⟩
  rw [cast_montgomeryReduce product, twiddle]
  push_cast
  ring

/-- A layer at most doubles the range. -/
theorem invNttLayer_bounded (positive : 0 < count)
    (size : 2 * count * blocks = 256)
    (indexBound : ∀ block < blocks, index block < 256)
    (bounded : a.Bounded limit) (atLeast : qConst ≤ limit)
    (small : limit ≤ 128 * qConst) :
    (layerOf (fun block => invNttButterfly (-zeta (index block))) count blocks
      a).Bounded (2 * limit) := by
  intro position positionBound
  obtain ⟨block, blockBound, offset, offsetBound, place⟩ :=
    index_in_block positive (size ▸ positionBound)
  have inRange := block_inRange size blockBound
  have lower := bounded (2 * count * block + offset) (by omega)
  have upper := bounded (2 * count * block + count + offset) (by omega)
  rw [qConst] at small atLeast
  rw [abs_le] at lower upper
  rcases place with rfl | rfl
  · rw [layerOf_low (fun block => isButterfly_invNtt (-zeta (index block)))
      positive size a blockBound offsetBound, i32_of_inInt32 ⟨by omega, by omega⟩,
      abs_le]
    omega
  · rw [layerOf_high (fun block => isButterfly_invNtt (-zeta (index block)))
      positive size a blockBound offsetBound, i32_of_inInt32 ⟨by omega, by omega⟩]
    have difference : |a.coeff (2 * count * block + offset) -
        a.coeff (2 * count * block + count + offset)| ≤ 256 * qConst := by
      rw [qConst, abs_le]
      omega
    have term := (invNttTerm_spec (indexBound block blockBound) difference).1
    rw [qConst] at term
    omega

/-- Without overflow a layer merges every block. -/
theorem invNttLayer_merges (positive : 0 < count)
    (size : 2 * count * blocks = 256)
    (indexBound : ∀ block < blocks, index block < 256)
    (bounded : a.Bounded limit) (small : limit ≤ 128 * qConst) :
    Merges (fun block => -twiddle (index block)) count blocks a.residues
      (layerOf (fun block => invNttButterfly (-zeta (index block))) count blocks
        a).residues where
  lower block blockBound offset offsetBound := by
    have inRange := block_inRange size blockBound
    have lower := bounded (2 * count * block + offset) (by omega)
    have upper := bounded (2 * count * block + count + offset) (by omega)
    rw [qConst] at small
    rw [abs_le] at lower upper
    rw [residues,
      layerOf_low (fun block => isButterfly_invNtt (-zeta (index block)))
        positive size a blockBound offsetBound,
      i32_of_inInt32 ⟨by omega, by omega⟩]
    push_cast
    rfl
  upper block blockBound offset offsetBound := by
    have inRange := block_inRange size blockBound
    have lower := bounded (2 * count * block + offset) (by omega)
    have upper := bounded (2 * count * block + count + offset) (by omega)
    rw [qConst] at small
    rw [abs_le] at lower upper
    rw [residues,
      layerOf_high (fun block => isButterfly_invNtt (-zeta (index block)))
        positive size a blockBound offsetBound,
      i32_of_inInt32 ⟨by omega, by omega⟩,
      (invNttTerm_spec (indexBound block blockBound)
        (by rw [qConst, abs_le]; omega)).2]
    push_cast
    rfl

end Inverse

/-! ## All layers of `inv_ntt_to_mont` -/

def invNttLayers (a : Poly) (rounds : ℕ) : ℕ × Poly :=
  (List.range rounds).foldl (fun state round => invNttLayer (2 ^ round) state)
    (256, a)

theorem invNttLayers_succ (a : Poly) (rounds : ℕ) :
    invNttLayers a (rounds + 1) =
      invNttLayer (2 ^ rounds) (invNttLayers a rounds) := by
  rw [invNttLayers, List.range_succ, List.foldl_append]
  rfl

theorem invNttToMont_eq_invNttLayers (a : Poly) :
    invNttToMont a =
      (invNttLayers a 8).2.map fun value => montgomeryReduce (41978 * value) := by
  have counts : [1, 2, 4, 8, 16, 32, 64, 128] =
      (List.range 8).map fun round => 2 ^ round := rfl
  rw [invNttToMont, counts, List.foldl_map, invNttLayers]

private theorem round_sizes : ∀ round < 8,
    2 * 2 ^ round * 2 ^ (7 - round) = 256 ∧
      128 / 2 ^ round = 2 ^ (7 - round) ∧
      2 ^ (8 - round) = 2 ^ (7 - round) + 2 ^ (7 - round) ∧
      2 ^ (8 - round) ≤ 256 ∧ 2 ^ round ≤ 128 := by
  decide

/-- After `round` layers: each has undone a layer of the transform, with a
factor of two. -/
theorem invNttLayers_spec {v : Poly} (bounded : v.Bounded qConst)
    {coeffs : ℕ → Zq} {scale : Zq}
    (values : ∀ index < 256,
      v.residues index = scale * forward 8 twiddle 8 coeffs index) :
    ∀ round ≤ 8, (invNttLayers v round).1 = 2 ^ (8 - round) ∧
      (invNttLayers v round).2.Bounded (2 ^ round * qConst) ∧
      ∀ index < 256, (invNttLayers v round).2.residues index =
        scale * 2 ^ round * forward 8 twiddle (8 - round) coeffs index := by
  intro round
  induction round with
  | zero =>
      intro _
      refine ⟨rfl, ?_, ?_⟩
      · simpa [invNttLayers] using bounded
      · simpa [invNttLayers] using values
  | succ round induction =>
      intro within
      obtain ⟨counter, range, current⟩ := induction (Nat.le_of_succ_le within)
      obtain ⟨size, rounds, double, top, small⟩ := round_sizes round within
      have positive : 0 < 2 ^ round := Nat.two_pow_pos _
      have layer : invNttLayer (2 ^ round) (invNttLayers v round) =
          (2 ^ (8 - round) - 2 ^ (7 - round),
            layerOf (fun block => invNttButterfly (-zeta (2 ^ (8 - round) - block - 1)))
              (2 ^ round) (2 ^ (7 - round)) (invNttLayers v round).2) := by
        rw [← counter, ← rounds]
        exact invNttLayer_eq _ _ _
      have indexBound : ∀ block < 2 ^ (7 - round),
          2 ^ (8 - round) - block - 1 < 256 := by
        intro block bound
        omega
      have limit : (2 : Int) ^ round * qConst ≤ 128 * qConst := by
        rw [qConst]
        have cast : (2 : Int) ^ round ≤ 128 := by exact_mod_cast small
        omega
      have atLeast : qConst ≤ (2 : Int) ^ round * qConst := by
        rw [qConst]
        have cast : (1 : Int) ≤ 2 ^ round := by exact_mod_cast positive
        omega
      rw [invNttLayers_succ, layer]
      refine ⟨by rw [show 8 - (round + 1) = 7 - round by omega]; omega, ?_, ?_⟩
      · apply (invNttLayer_bounded positive size indexBound range atLeast
          limit).mono
        rw [pow_succ]
        linarith
      · have merges := invNttLayer_merges positive size indexBound range limit
        -- the layer of the transform that this one undoes
        have splits := splits_splitLayer
          (fun block => twiddle (2 ^ (7 - round) + block)) (2 ^ round)
          (2 ^ (7 - round)) (forward 8 twiddle (7 - round) coeffs)
        have source : ∀ index < 2 * 2 ^ round * 2 ^ (7 - round),
            (invNttLayers v round).2.residues index = scale * 2 ^ round *
              splitLayer (fun block => twiddle (2 ^ (7 - round) + block))
                (2 ^ round) (forward 8 twiddle (7 - round) coeffs) index := by
          intro index bound
          rw [current index (size ▸ bound)]
          have next : 8 - round = 7 - round + 1 := by omega
          have half : 8 - (7 - round + 1) = round := by omega
          rw [next, forward, half]
        have inverts : ∀ block < 2 ^ (7 - round),
            twiddle (2 ^ (7 - round) + block) *
              -twiddle (2 ^ (8 - round) - block - 1) = 1 := by
          intro block bound
          have inverse := twiddle_inverse (show 7 - round < 8 by omega) bound
          rwa [show 7 - round + 1 = 8 - round by omega, Nat.sub_right_comm]
            at inverse
        intro index bound
        rw [splits.undo positive merges (scale * 2 ^ round) source inverts index
          (size.symm ▸ bound), show 8 - (round + 1) = 7 - round by omega,
          pow_succ, mul_assoc scale]

private theorem invNtt_factor :
    (41978 : Zq) * radixInv * 2 ^ 8 = 4294967296 := by
  decide +kernel

/-- `inv_ntt_to_mont` recovers an element from its leaf values, multiplied by
the Montgomery radix. -/
theorem invNttToMont_spec {v : Poly} (bounded : v.Bounded qConst) {p : Rq}
    {scale : Zq}
    (values : ∀ leaf : Fin 256, (v.coeff leaf : Zq) = scale * nttEquiv p leaf) :
    (invNttToMont v).Bounded 4211178 ∧
      (invNttToMont v).toRq = AdjoinRoot.of _ (scale * 4294967296) * p := by
  have element := Negacyclic.ofCoeffs_coeff p
  have leaves : ∀ index < 256, v.residues index =
      scale * forward 8 twiddle 8 (Negacyclic.coeff p) index := by
    intro index bound
    have value := values ⟨index, bound⟩
    rw [← element] at value
    rw [residues, value]
    congr 1
    exact Negacyclic.leafEquiv_ofCoeffs _ isField_zq nttTree two_ne_zero_zq _ _
  obtain ⟨_, range, current⟩ := invNttLayers_spec bounded leaves 8 (Nat.le_refl 8)
  have product : ∀ index < 256,
      |41978 * (invNttLayers v 8).2.coeff index| ≤ montgomeryLimit := by
    intro index bound
    have factor : |(41978 : Int)| ≤ 41978 := by norm_num
    exact abs_mul_le_montgomeryLimit factor (range index bound) (by decide)
  constructor
  · intro index bound
    rw [invNttToMont_eq_invNttLayers, coeff_map _ _ bound]
    apply montgomeryReduce_abs_le (product index bound)
    have size := range index bound
    rw [abs_mul]
    rw [qConst] at size ⊢
    norm_num at size ⊢
    omega
  · rw [← element, ← Negacyclic.ofCoeffs_mul_left]
    apply Negacyclic.ofCoeffs_congr
    intro index bound
    have residue := current index bound
    rw [residues] at residue
    rw [residues, invNttToMont_eq_invNttLayers, coeff_map _ _ bound,
      cast_montgomeryReduce (product index bound), ← invNtt_factor]
    push_cast
    rw [residue, show 8 - 8 = 0 from rfl, forward]
    ring

end LedgerQrl.Mldsa87
