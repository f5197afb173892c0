import LedgerQrl.Foundation.Index
import LedgerQrl.Foundation.Transform
import Mathlib.RingTheory.AdjoinRoot
import Mathlib.LinearAlgebra.FiniteDimensional.Lemmas
import Mathlib.LinearAlgebra.Dimension.Constructions

open scoped BigOperators
open Polynomial

namespace LedgerQrl.Foundation

/-! # The ring of polynomials modulo `X ^ n + 1`

An element is given by its first `n` coefficients. Evaluation at a point with
`point ^ n = -1` is a ring homomorphism, and for a tree of roots the
evaluations at its leaves are an isomorphism onto the product ring. -/

/-- `R[X] / (X ^ n + 1)`. -/
abbrev Negacyclic (R : Type*) [CommRing R] (n : ℕ) : Type _ :=
  AdjoinRoot (X ^ n + 1 : R[X])

namespace Negacyclic

section Coefficients

variable {R : Type*} [CommRing R] {n : ℕ}

noncomputable def ofCoeffs (coeffs : ℕ → R) : Negacyclic R n :=
  AdjoinRoot.mk _ (∑ index ∈ Finset.range n, C (coeffs index) * X ^ index)

theorem ofCoeffs_congr {left right : ℕ → R}
    (equal : ∀ index < n, left index = right index) :
    (ofCoeffs left : Negacyclic R n) = ofCoeffs right := by
  rw [ofCoeffs, ofCoeffs]
  congr 1
  apply Finset.sum_congr rfl
  intro index member
  rw [equal index (Finset.mem_range.mp member)]

theorem ofCoeffs_add (left right : ℕ → R) :
    (ofCoeffs (fun index => left index + right index) : Negacyclic R n) =
      ofCoeffs left + ofCoeffs right := by
  rw [ofCoeffs, ofCoeffs, ofCoeffs, ← map_add, ← Finset.sum_add_distrib]
  congr 1
  apply Finset.sum_congr rfl
  intro index _
  rw [C_add, add_mul]

theorem ofCoeffs_sub (left right : ℕ → R) :
    (ofCoeffs (fun index => left index - right index) : Negacyclic R n) =
      ofCoeffs left - ofCoeffs right := by
  rw [ofCoeffs, ofCoeffs, ofCoeffs, ← map_sub, ← Finset.sum_sub_distrib]
  congr 1
  apply Finset.sum_congr rfl
  intro index _
  rw [C_sub, sub_mul]

theorem ofCoeffs_mul_left (scale : R) (coeffs : ℕ → R) :
    (ofCoeffs (fun index => scale * coeffs index) : Negacyclic R n) =
      AdjoinRoot.of _ scale * ofCoeffs coeffs := by
  rw [ofCoeffs, ofCoeffs, ← AdjoinRoot.mk_C, ← map_mul, Finset.mul_sum]
  congr 1
  apply Finset.sum_congr rfl
  intro index _
  rw [C_mul, mul_assoc]

variable [NeZero n]

theorem modulus_monic : (X ^ n + 1 : R[X]).Monic := by
  have monic := monic_X_pow_add_C (1 : R) (NeZero.ne n)
  rwa [C_1] at monic

theorem modulus_degree [Nontrivial R] : (X ^ n + 1 : R[X]).degree = n := by
  have degree := degree_X_pow_add_C (Nat.pos_of_ne_zero (NeZero.ne n)) (1 : R)
  rwa [C_1] at degree

noncomputable def coeff (element : Negacyclic R n) (index : ℕ) : R :=
  (AdjoinRoot.modByMonicHom modulus_monic element).coeff index

theorem coeff_add (left right : Negacyclic R n) (index : ℕ) :
    coeff (left + right) index = coeff left index + coeff right index := by
  rw [coeff, map_add, Polynomial.coeff_add]
  rfl

theorem coeff_zero (index : ℕ) : coeff (0 : Negacyclic R n) index = 0 := by
  rw [coeff, map_zero, Polynomial.coeff_zero]

variable [Nontrivial R]

theorem ofCoeffs_coeff (element : Negacyclic R n) :
    ofCoeffs (coeff element) = element := by
  have degree : (AdjoinRoot.modByMonicHom (modulus_monic (R := R) (n := n))
      element).natDegree < n := by
    obtain ⟨polynomial, rfl⟩ := AdjoinRoot.mk_surjective element
    rw [AdjoinRoot.modByMonicHom_mk]
    have bound := natDegree_modByMonic_lt polynomial
      (modulus_monic (R := R) (n := n)) (by
        intro one
        have degree := modulus_degree (R := R) (n := n)
        rw [one, degree_one] at degree
        exact NeZero.ne n (by exact_mod_cast degree.symm))
    rwa [natDegree_eq_of_degree_eq_some modulus_degree] at bound
  rw [ofCoeffs]
  simp only [coeff]
  rw [← as_sum_range_C_mul_X_pow' _ degree]
  exact AdjoinRoot.mk_leftInverse modulus_monic element

theorem coeff_ofCoeffs (coeffs : ℕ → R) {index : ℕ} (bound : index < n) :
    coeff (ofCoeffs coeffs : Negacyclic R n) index = coeffs index := by
  have degree : (∑ index ∈ Finset.range n, C (coeffs index) * X ^ index).degree
      < (X ^ n + 1 : R[X]).degree := by
    rw [modulus_degree, ← Fin.sum_univ_eq_sum_range
      (fun index => C (coeffs index) * X ^ index) n]
    exact degree_sum_fin_lt fun index => coeffs index
  rw [coeff, ofCoeffs, AdjoinRoot.modByMonicHom_mk,
    (modByMonic_eq_self_iff modulus_monic).mpr degree, finsetSum_coeff]
  simp only [coeff_C_mul, coeff_X_pow, mul_ite, mul_one, mul_zero]
  rw [Finset.sum_ite_eq, if_pos (Finset.mem_range.mpr bound)]

theorem ofCoeffs_inj {left right : ℕ → R}
    (equal : (ofCoeffs left : Negacyclic R n) = ofCoeffs right) {index : ℕ}
    (bound : index < n) : left index = right index := by
  rw [← coeff_ofCoeffs left bound, equal, coeff_ofCoeffs right bound]

end Coefficients

/-! ## Evaluation -/

section Evaluation

variable {R : Type*} [CommRing R] {n : ℕ}

noncomputable def evalAt (point : R) (root : point ^ n = -1) :
    Negacyclic R n →+* R :=
  AdjoinRoot.lift (RingHom.id R) point (by simp [root])

theorem evalAt_ofCoeffs (coeffs : ℕ → R) (point : R) (root : point ^ n = -1) :
    evalAt point root (ofCoeffs coeffs) =
      ∑ index ∈ Finset.range n, coeffs index * point ^ index := by
  rw [evalAt, ofCoeffs, AdjoinRoot.lift_mk, eval₂_finsetSum]
  simp

theorem evalAt_of (scale point : R) (root : point ^ n = -1) :
    evalAt point root (AdjoinRoot.of _ scale) = scale := by
  rw [evalAt, AdjoinRoot.lift_of, RingHom.id_apply]

end Evaluation

/-! ## The isomorphism of a tree of roots -/

section Leaves

variable {K : Type*} [CommRing K] {depth : ℕ} {twiddle : ℕ → K}

/-- The values at the leaves of the tree. -/
noncomputable def leafValues (tree : RootTree depth twiddle) :
    Negacyclic K (2 ^ depth) →+* (Fin (2 ^ depth) → K) :=
  RingHom.pi fun leaf =>
    evalAt (nodeRoot twiddle (2 ^ depth + leaf))
      (nodeRoot_pow tree (Nat.le_refl depth) leaf leaf.isLt)

theorem leafValues_ofCoeffs (tree : RootTree depth twiddle) (coeffs : ℕ → K)
    (leaf : Fin (2 ^ depth)) :
    leafValues tree (ofCoeffs coeffs) leaf =
      forward depth twiddle depth coeffs leaf := by
  rw [forward_eq_eval tree coeffs leaf.isLt]
  exact evalAt_ofCoeffs coeffs _
    (nodeRoot_pow tree (Nat.le_refl depth) leaf leaf.isLt)

theorem leafValues_of (tree : RootTree depth twiddle) (scale : K)
    (leaf : Fin (2 ^ depth)) :
    leafValues tree (AdjoinRoot.of _ scale) leaf = scale :=
  evalAt_of scale _ (nodeRoot_pow tree (Nat.le_refl depth) leaf leaf.isLt)

variable [IsDomain K]

theorem RootTree.twiddle_ne_zero (tree : RootTree depth twiddle) {level : ℕ}
    (within : level < depth) {block : ℕ} (bound : block < 2 ^ level) :
    twiddle (2 ^ level + block) ≠ 0 := by
  intro zero
  have nodeBound : 2 ^ level + block < 2 ^ depth := by
    have grows : 2 ^ (level + 1) ≤ 2 ^ depth :=
      Nat.pow_le_pow_right (by omega) within
    rw [pow_succ] at grows
    omega
  have square := tree.square (2 ^ level + block)
    (Nat.le_add_right_of_le Nat.one_le_two_pow) nodeBound
  have power := nodeRoot_pow tree (Nat.le_of_lt within) block bound
  rw [← square, zero] at power
  simp at power

theorem Splits.eq_zero {twiddles before after : ℕ → K} {half blocks : ℕ}
    (positive : 0 < half) (splits : Splits twiddles half blocks before after)
    (two : (2 : K) ≠ 0) (nonzero : ∀ block < blocks, twiddles block ≠ 0)
    (vanishes : ∀ index < 2 * half * blocks, after index = 0) :
    ∀ index < 2 * half * blocks, before index = 0 := by
  intro index bound
  obtain ⟨block, blockBound, offset, offsetBound, position⟩ :=
    index_in_block positive bound
  have inRange : 2 * half * (block + 1) ≤ 2 * half * blocks :=
    Nat.mul_le_mul_left _ blockBound
  rw [Nat.mul_succ] at inRange
  have lower := splits.lower block blockBound offset offsetBound
  have upper := splits.upper block blockBound offset offsetBound
  rw [vanishes _ (by omega)] at lower upper
  have first : before (2 * half * block + offset) = 0 := by
    apply (mul_eq_zero.mp _).resolve_left two
    linear_combination -lower - upper
  rcases position with rfl | rfl
  · exact first
  · rw [first, zero_add] at lower
    exact (mul_eq_zero.mp lower.symm).resolve_left (nonzero block blockBound)

theorem forward_eq_zero (tree : RootTree depth twiddle) (two : (2 : K) ≠ 0)
    (coeffs : ℕ → K) :
    ∀ {level : ℕ}, level ≤ depth →
      (∀ index < 2 ^ depth, forward depth twiddle level coeffs index = 0) →
      ∀ index < 2 ^ depth, coeffs index = 0 := by
  intro level
  induction level with
  | zero => exact fun _ vanishes => vanishes
  | succ level induction =>
      intro within vanishes
      have size : 2 * 2 ^ (depth - (level + 1)) * 2 ^ level = 2 ^ depth := by
        rw [← pow_succ', ← pow_add]
        congr 1
        omega
      have splits := splits_splitLayer
        (fun block => twiddle (2 ^ level + block))
        (2 ^ (depth - (level + 1))) (2 ^ level)
        (forward depth twiddle level coeffs)
      have before := Splits.eq_zero (by positivity) splits two
        (fun block bound => RootTree.twiddle_ne_zero tree within bound)
      rw [size] at before
      exact induction (Nat.le_of_succ_le within) (before vanishes)

/-- The values at the leaves determine an element. -/
theorem leafValues_injective (tree : RootTree depth twiddle)
    (two : (2 : K) ≠ 0) : Function.Injective (leafValues tree) := by
  rw [injective_iff_map_eq_zero]
  intro element vanishes
  have coeffsVanish := forward_eq_zero tree two (coeff element)
    (Nat.le_refl depth) (by
      intro index bound
      have value := leafValues_ofCoeffs tree (coeff element) ⟨index, bound⟩
      rw [ofCoeffs_coeff, vanishes] at value
      exact value.symm)
  rw [← ofCoeffs_coeff element, ofCoeffs_congr coeffsVanish, ofCoeffs]
  simp

noncomputable def leafValuesLinear (tree : RootTree depth twiddle) :
    Negacyclic K (2 ^ depth) →ₗ[K] (Fin (2 ^ depth) → K) where
  toFun := leafValues tree
  map_add' := map_add (leafValues tree)
  map_smul' scale element := by
    rw [Algebra.smul_def, map_mul, AdjoinRoot.algebraMap_eq]
    funext leaf
    rw [Pi.mul_apply, leafValues_of, Pi.smul_apply, smul_eq_mul,
      RingHom.id_apply]

theorem leafValues_bijective (field : IsField K)
    (tree : RootTree depth twiddle) (two : (2 : K) ≠ 0) :
    Function.Bijective (leafValues tree) := by
  have injective := leafValues_injective tree two
  refine ⟨injective, ?_⟩
  let _ := field.toField
  have monic := modulus_monic (R := K) (n := 2 ^ depth)
  have finite : Module.Finite K (Negacyclic K (2 ^ depth)) :=
    monic.finite_adjoinRoot
  have sameDimension : Module.finrank K (Negacyclic K (2 ^ depth)) =
      Module.finrank K (Fin (2 ^ depth) → K) := by
    rw [Module.finrank_fin_fun,
      (AdjoinRoot.powerBasis' monic).finrank, AdjoinRoot.powerBasis'_dim]
    exact natDegree_eq_of_degree_eq_some modulus_degree
  exact (LinearMap.injective_iff_surjective_of_finrank_eq_finrank
    (f := leafValuesLinear tree) sameDimension).mp injective

/-- The transform of a tree of roots as an isomorphism of rings. -/
noncomputable def leafEquiv {n : ℕ} (size : 2 ^ depth = n) (field : IsField K)
    (tree : RootTree depth twiddle) (two : (2 : K) ≠ 0) :
    Negacyclic K n ≃+* (Fin n → K) :=
  size ▸ RingEquiv.ofBijective (leafValues tree)
    (leafValues_bijective field tree two)

theorem leafEquiv_ofCoeffs {n : ℕ} (size : 2 ^ depth = n)
    (field : IsField K) (tree : RootTree depth twiddle) (two : (2 : K) ≠ 0) (coeffs : ℕ → K)
    (leaf : Fin n) :
    leafEquiv size field tree two (ofCoeffs coeffs) leaf =
      forward depth twiddle depth coeffs leaf := by
  subst size
  exact leafValues_ofCoeffs tree coeffs leaf

theorem leafEquiv_of {n : ℕ} (size : 2 ^ depth = n)
    (field : IsField K) (tree : RootTree depth twiddle) (two : (2 : K) ≠ 0) (scale : K)
    (leaf : Fin n) :
    leafEquiv size field tree two (AdjoinRoot.of _ scale) leaf = scale := by
  subst size
  exact leafValues_of tree scale leaf

end Leaves

end Negacyclic

end LedgerQrl.Foundation
