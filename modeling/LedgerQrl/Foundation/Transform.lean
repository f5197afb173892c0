import LedgerQrl.Foundation.Index
import Mathlib.Algebra.BigOperators.Group.Finset.Basic
import Mathlib.Algebra.BigOperators.Ring.Finset
import Mathlib.Algebra.BigOperators.Intervals
import Mathlib.Tactic.Ring
import Mathlib.Tactic.LinearCombination

open scoped BigOperators

namespace LedgerQrl.Foundation

/-! # Radix-two transforms over a commutative ring

A transform of depth `d` works on `2 ^ d` entries in `d` layers. At level `l`
there are `2 ^ l` blocks; block `b` has node number `2 ^ l + b` and uses the
twiddle of that node. A sequence is a function on all naturals of which only
the first `2 ^ d` entries matter. -/

variable {R : Type*} [CommRing R]

/-! ## Layers -/

/-- `after` is `before` with each block of `2 * half` entries split: the lower
half gains the twiddled upper half, the upper half becomes the difference. -/
structure Splits (twiddle : ℕ → R) (half blocks : ℕ)
    (before after : ℕ → R) : Prop where
  lower : ∀ block < blocks, ∀ offset < half,
    after (2 * half * block + offset) =
      before (2 * half * block + offset) +
        twiddle block * before (2 * half * block + half + offset)
  upper : ∀ block < blocks, ∀ offset < half,
    after (2 * half * block + half + offset) =
      before (2 * half * block + offset) -
        twiddle block * before (2 * half * block + half + offset)

/-- `after` is `before` with the two halves of each block merged: sum below,
twiddled difference above. -/
structure Merges (twiddle : ℕ → R) (half blocks : ℕ)
    (before after : ℕ → R) : Prop where
  lower : ∀ block < blocks, ∀ offset < half,
    after (2 * half * block + offset) =
      before (2 * half * block + offset) +
        before (2 * half * block + half + offset)
  upper : ∀ block < blocks, ∀ offset < half,
    after (2 * half * block + half + offset) =
      twiddle block * (before (2 * half * block + offset) -
        before (2 * half * block + half + offset))

theorem index_in_block {half blocks index : ℕ} (positive : 0 < half)
    (bound : index < 2 * half * blocks) :
    ∃ block < blocks, ∃ offset < half,
      index = 2 * half * block + offset ∨
        index = 2 * half * block + half + offset := by
  have split := Nat.div_add_mod index (2 * half)
  have remainder : index % (2 * half) < 2 * half :=
    Nat.mod_lt _ (by omega)
  have blockBound : index / (2 * half) < blocks :=
    Nat.div_lt_of_lt_mul bound
  by_cases low : index % (2 * half) < half
  · exact ⟨_, blockBound, index % (2 * half), low, Or.inl split.symm⟩
  · exact ⟨_, blockBound, index % (2 * half) - half, by omega,
      Or.inr (by omega)⟩

theorem Merges.unique {twiddle : ℕ → R} {half blocks : ℕ}
    {before left right : ℕ → R} (positive : 0 < half)
    (toLeft : Merges twiddle half blocks before left)
    (toRight : Merges twiddle half blocks before right)
    {index : ℕ} (bound : index < 2 * half * blocks) :
    left index = right index := by
  obtain ⟨block, blockBound, offset, offsetBound, rfl | rfl⟩ :=
    index_in_block positive bound
  · rw [toLeft.lower block blockBound offset offsetBound,
      toRight.lower block blockBound offset offsetBound]
  · rw [toLeft.upper block blockBound offset offsetBound,
      toRight.upper block blockBound offset offsetBound]

theorem Merges.congr_source {twiddle : ℕ → R} {half blocks : ℕ}
    {before before' after : ℕ → R}
    (merges : Merges twiddle half blocks before after)
    (equal : ∀ index < 2 * half * blocks, before index = before' index) :
    Merges twiddle half blocks before' after where
  lower block blockBound offset offsetBound := by
    have inRange : 2 * half * (block + 1) ≤ 2 * half * blocks :=
      Nat.mul_le_mul_left _ blockBound
    rw [Nat.mul_succ] at inRange
    rw [← equal _ (by omega), ← equal _ (by omega)]
    exact merges.lower block blockBound offset offsetBound
  upper block blockBound offset offsetBound := by
    have inRange : 2 * half * (block + 1) ≤ 2 * half * blocks :=
      Nat.mul_le_mul_left _ blockBound
    rw [Nat.mul_succ] at inRange
    rw [← equal _ (by omega), ← equal _ (by omega)]
    exact merges.upper block blockBound offset offsetBound

def splitLayer (twiddle : ℕ → R) (half : ℕ) (before : ℕ → R) : ℕ → R :=
  fun index =>
    if index % (2 * half) < half then
      before index + twiddle (index / (2 * half)) * before (index + half)
    else
      before (index - half) - twiddle (index / (2 * half)) * before index

theorem splits_splitLayer (twiddle : ℕ → R) (half blocks : ℕ)
    (before : ℕ → R) :
    Splits twiddle half blocks before (splitLayer twiddle half before) where
  lower block _ offset offsetBound := by
    have remainder : (2 * half * block + offset) % (2 * half) = offset := by
      rw [Nat.mul_add_mod, Nat.mod_eq_of_lt (by omega)]
    have quotient : (2 * half * block + offset) / (2 * half) = block := by
      rw [Nat.mul_add_div (by omega), Nat.div_eq_of_lt (by omega), add_zero]
    rw [splitLayer, remainder, quotient, if_pos offsetBound]
    congr 3
    omega
  upper block _ offset offsetBound := by
    have remainder :
        (2 * half * block + half + offset) % (2 * half) = half + offset := by
      rw [add_assoc, Nat.mul_add_mod, Nat.mod_eq_of_lt (by omega)]
    have quotient :
        (2 * half * block + half + offset) / (2 * half) = block := by
      rw [add_assoc, Nat.mul_add_div (by omega), Nat.div_eq_of_lt (by omega),
        add_zero]
    rw [splitLayer, remainder, quotient, if_neg (by omega)]
    congr 2
    omega

/-- Two sequences that both result from a split agree on its blocks, also when
its inputs only agree there. -/
theorem Splits.unique {twiddle : ℕ → R} {half blocks : ℕ}
    {before before' left right : ℕ → R} (positive : 0 < half)
    (toLeft : Splits twiddle half blocks before left)
    (toRight : Splits twiddle half blocks before' right)
    (equal : ∀ index < 2 * half * blocks, before index = before' index)
    {index : ℕ} (bound : index < 2 * half * blocks) :
    left index = right index := by
  obtain ⟨block, blockBound, offset, offsetBound, position⟩ :=
    index_in_block positive bound
  have inRange : 2 * half * (block + 1) ≤ 2 * half * blocks :=
    Nat.mul_le_mul_left _ blockBound
  rw [Nat.mul_succ] at inRange
  have lower := equal (2 * half * block + offset) (by omega)
  have upper := equal (2 * half * block + half + offset) (by omega)
  rcases position with rfl | rfl
  · rw [toLeft.lower block blockBound offset offsetBound,
      toRight.lower block blockBound offset offsetBound, lower, upper]
  · rw [toLeft.upper block blockBound offset offsetBound,
      toRight.upper block blockBound offset offsetBound, lower, upper]

/-- Splitting a block evaluates its polynomial modulo the two factors of
`X ^ (2 * half) - twiddle ^ 2`. -/
theorem Splits.eval_lower {twiddle : ℕ → R} {half blocks : ℕ}
    {before after : ℕ → R} (splits : Splits twiddle half blocks before after)
    {block : ℕ} (blockBound : block < blocks) {point : R}
    (root : point ^ half = twiddle block) :
    ∑ offset ∈ Finset.range half,
        after (2 * half * block + offset) * point ^ offset =
      ∑ offset ∈ Finset.range (2 * half),
        before (2 * half * block + offset) * point ^ offset := by
  rw [two_mul half, Finset.sum_range_add, ← Finset.sum_add_distrib]
  apply Finset.sum_congr rfl
  intro offset member
  rw [← two_mul, splits.lower block blockBound offset
    (Finset.mem_range.mp member), pow_add, root, add_assoc (2 * half * block)]
  ring

theorem Splits.eval_upper {twiddle : ℕ → R} {half blocks : ℕ}
    {before after : ℕ → R} (splits : Splits twiddle half blocks before after)
    {block : ℕ} (blockBound : block < blocks) {point : R}
    (root : point ^ half = -twiddle block) :
    ∑ offset ∈ Finset.range half,
        after (2 * half * block + half + offset) * point ^ offset =
      ∑ offset ∈ Finset.range (2 * half),
        before (2 * half * block + offset) * point ^ offset := by
  rw [two_mul half, Finset.sum_range_add, ← Finset.sum_add_distrib]
  apply Finset.sum_congr rfl
  intro offset member
  rw [← two_mul, splits.upper block blockBound offset
    (Finset.mem_range.mp member), pow_add, root, add_assoc (2 * half * block)]
  ring

theorem Splits.merge {twiddle inverse : ℕ → R} {half blocks : ℕ}
    {before after : ℕ → R} (splits : Splits twiddle half blocks before after)
    (scale : R)
    (inverts : ∀ block < blocks, twiddle block * inverse block = 1) :
    Merges inverse half blocks (fun index => scale * after index)
      (fun index => scale * 2 * before index) where
  lower block blockBound offset offsetBound := by
    rw [splits.lower block blockBound offset offsetBound,
      splits.upper block blockBound offset offsetBound]
    ring
  upper block blockBound offset offsetBound := by
    rw [splits.lower block blockBound offset offsetBound,
      splits.upper block blockBound offset offsetBound]
    linear_combination (-2 * scale *
      before (2 * half * block + half + offset)) * inverts block blockBound

theorem Splits.undo {twiddle inverse : ℕ → R} {half blocks : ℕ}
    {before after source target : ℕ → R} (positive : 0 < half)
    (splits : Splits twiddle half blocks before after)
    (merges : Merges inverse half blocks source target) (scale : R)
    (scaled : ∀ index < 2 * half * blocks, source index = scale * after index)
    (inverts : ∀ block < blocks, twiddle block * inverse block = 1) :
    ∀ index < 2 * half * blocks, target index = scale * 2 * before index := by
  intro index bound
  exact Merges.unique positive (merges.congr_source scaled)
    (splits.merge scale inverts) bound

/-! ## The tree of roots -/

/-- The point of a node: plus or minus the twiddle of its parent. -/
def nodeRoot (twiddle : ℕ → R) (node : ℕ) : R :=
  if node = 1 then -1
  else if node % 2 = 0 then twiddle (node / 2)
  else -twiddle (node / 2)

/-- Twiddles whose squares are the points of their own nodes, so that each
level factors `X ^ n + 1` further. -/
structure RootTree (depth : ℕ) (twiddle : ℕ → R) : Prop where
  square : ∀ node, 1 ≤ node → node < 2 ^ depth →
    twiddle node ^ 2 = nodeRoot twiddle node

/-- The first `level` layers of the transform. -/
def forward (depth : ℕ) (twiddle : ℕ → R) : ℕ → (ℕ → R) → ℕ → R
  | 0, values => values
  | level + 1, values =>
      splitLayer (fun block => twiddle (2 ^ level + block))
        (2 ^ (depth - (level + 1))) (forward depth twiddle level values)

section Evaluation

variable {depth : ℕ} {twiddle : ℕ → R}

/-- After `level` layers a block holds the input modulo the polynomial of its
node: both agree at every root of it. -/
theorem forward_eval (tree : RootTree depth twiddle) (values : ℕ → R) :
    ∀ {level : ℕ}, level ≤ depth → ∀ block < 2 ^ level, ∀ point : R,
      point ^ 2 ^ (depth - level) = nodeRoot twiddle (2 ^ level + block) →
      ∑ offset ∈ Finset.range (2 ^ (depth - level)),
          forward depth twiddle level values
            (2 ^ (depth - level) * block + offset) * point ^ offset =
        ∑ index ∈ Finset.range (2 ^ depth), values index * point ^ index := by
  intro level
  induction level with
  | zero =>
      intro _ block blockBound point _
      have blockZero : block = 0 := by simpa using blockBound
      subst blockZero
      simp [forward]
  | succ level induction =>
      intro within block blockBound point root
      -- the parent block, whose polynomial the point also annihilates
      have halfEq : 2 * 2 ^ (depth - (level + 1)) = 2 ^ (depth - level) := by
        rw [← pow_succ']
        congr 1
        omega
      have parentBound : block / 2 < 2 ^ level := by
        rw [pow_succ] at blockBound
        omega
      have nodeHalf : (2 ^ (level + 1) + block) / 2 = 2 ^ level + block / 2 := by
        rw [pow_succ]
        omega
      have nodeNotOne : 2 ^ (level + 1) + block ≠ 1 := by
        have := Nat.one_le_two_pow (n := level)
        rw [pow_succ]
        omega
      have splits := splits_splitLayer
        (fun block => twiddle (2 ^ level + block))
        (2 ^ (depth - (level + 1))) (2 ^ level)
        (forward depth twiddle level values)
      have parentRoot : point ^ 2 ^ (depth - level) =
          nodeRoot twiddle (2 ^ level + block / 2) := by
        have squared : point ^ 2 ^ (depth - level) =
            (point ^ 2 ^ (depth - (level + 1))) ^ 2 := by
          rw [← pow_mul, mul_comm, halfEq]
        have nodeBound : 2 ^ level + block / 2 < 2 ^ depth := by
          have grows : 2 ^ (level + 1) ≤ 2 ^ depth :=
            Nat.pow_le_pow_right (by omega) within
          rw [pow_succ] at grows
          omega
        rw [squared, root, ← tree.square _
          (Nat.le_add_right_of_le Nat.one_le_two_pow) nodeBound,
          nodeRoot, if_neg nodeNotOne, nodeHalf]
        split <;> ring
      have parent := induction (by omega) (block / 2) parentBound point parentRoot
      rw [nodeRoot, if_neg nodeNotOne, nodeHalf] at root
      rw [← parent, ← halfEq]
      have parity : (2 ^ (level + 1) + block) % 2 = block % 2 := by
        rw [pow_succ]
        omega
      rw [parity] at root
      by_cases even : block % 2 = 0
      · rw [if_pos even] at root
        have position : 2 ^ (depth - (level + 1)) * block =
            2 * 2 ^ (depth - (level + 1)) * (block / 2) := by
          obtain ⟨parentBlock, rfl⟩ : ∃ parentBlock, block = 2 * parentBlock :=
            ⟨block / 2, by omega⟩
          rw [Nat.mul_div_cancel_left _ (by omega)]
          ring
        rw [position]
        exact splits.eval_lower parentBound root
      · rw [if_neg even] at root
        have position : 2 ^ (depth - (level + 1)) * block =
            2 * 2 ^ (depth - (level + 1)) * (block / 2) +
              2 ^ (depth - (level + 1)) := by
          obtain ⟨parentBlock, rfl⟩ :
              ∃ parentBlock, block = 2 * parentBlock + 1 :=
            ⟨block / 2, by omega⟩
          have half : (2 * parentBlock + 1) / 2 = parentBlock := by omega
          rw [half]
          ring
        rw [position]
        exact splits.eval_upper parentBound root

theorem forward_eq_eval (tree : RootTree depth twiddle) (values : ℕ → R)
    {leaf : ℕ} (bound : leaf < 2 ^ depth) :
    forward depth twiddle depth values leaf =
      ∑ index ∈ Finset.range (2 ^ depth),
        values index * nodeRoot twiddle (2 ^ depth + leaf) ^ index := by
  have evaluation := forward_eval tree values (Nat.le_refl depth) leaf bound
    (nodeRoot twiddle (2 ^ depth + leaf)) (by simp)
  simpa using evaluation

theorem nodeRoot_pow (tree : RootTree depth twiddle) :
    ∀ {level : ℕ}, level ≤ depth → ∀ block < 2 ^ level,
      nodeRoot twiddle (2 ^ level + block) ^ 2 ^ level = -1 := by
  intro level
  induction level with
  | zero =>
      intro _ block blockBound
      have blockZero : block = 0 := by simpa using blockBound
      subst blockZero
      simp [nodeRoot]
  | succ level induction =>
      intro within block blockBound
      have parentBound : block / 2 < 2 ^ level := by
        rw [pow_succ] at blockBound
        omega
      have nodeHalf : (2 ^ (level + 1) + block) / 2 = 2 ^ level + block / 2 := by
        rw [pow_succ]
        omega
      have nodeNotOne : 2 ^ (level + 1) + block ≠ 1 := by
        have := Nat.one_le_two_pow (n := level)
        rw [pow_succ]
        omega
      have nodeBound : 2 ^ level + block / 2 < 2 ^ depth := by
        have grows : 2 ^ (level + 1) ≤ 2 ^ depth :=
          Nat.pow_le_pow_right (by omega) within
        rw [pow_succ] at grows
        omega
      have parentSquare := tree.square (2 ^ level + block / 2)
        (Nat.le_add_right_of_le Nat.one_le_two_pow) nodeBound
      have nodeSquare : nodeRoot twiddle (2 ^ (level + 1) + block) ^ 2 =
          nodeRoot twiddle (2 ^ level + block / 2) := by
        rw [← parentSquare, nodeRoot, if_neg nodeNotOne, nodeHalf]
        split <;> ring
      calc nodeRoot twiddle (2 ^ (level + 1) + block) ^ 2 ^ (level + 1)
          = (nodeRoot twiddle (2 ^ (level + 1) + block) ^ 2) ^ 2 ^ level := by
            rw [← pow_mul, pow_succ']
        _ = -1 := by
            rw [nodeSquare]
            exact induction (by omega) (block / 2) parentBound

end Evaluation

end LedgerQrl.Foundation
