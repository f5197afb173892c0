import LedgerQrl.Mldsa87.SampledRange
import LedgerQrl.Mldsa87.Specification

namespace LedgerQrl.Mldsa87

open Foundation Poly
open scoped BigOperators

/-! # What a vector in memory stands for

A vector of words stands for a vector of ring elements, or holds the transforms
of one. The operations on vectors carry this along with a bound on the words. -/

theorem coeff_toRq (a : Poly) {n : ℕ} (bound : n < 256) :
    Negacyclic.coeff a.toRq n = (a.coeff n : Zq) :=
  Negacyclic.coeff_ofCoeffs a.residues bound

/-- The polynomial of the representatives in `[0, q)`. -/
noncomputable def canonicalRow (p : Rq) : Poly :=
  Vector.ofFn fun n => ((Negacyclic.coeff p n).val : ℤ)

theorem coeff_canonicalRow (p : Rq) {n : ℕ} (bound : n < 256) :
    (canonicalRow p).coeff n = (Negacyclic.coeff p n).val :=
  coeff_ofFn _ bound

theorem map_canonicalRow (f : ℤ → ℤ) (g : Zq → ℤ) (agrees : ∀ x : Zq, f x.val = g x)
    (p : Rq) :
    (canonicalRow p).map f =
      Vector.ofFn fun n : Fin 256 => g (Negacyclic.coeff p n) := by
  apply ext_coeff
  intro n bound
  rw [coeff_map _ _ bound, coeff_canonicalRow _ bound, coeff_ofFn _ bound, agrees]

/-- The conditional addition turns a bounded representative into the canonical
one. -/
theorem polyCAddq_eq {a : Poly} {limit : Int} (bounded : a.Bounded limit)
    (small : limit < qConst) : polyCAddq a = canonicalRow a.toRq := by
  apply ext_coeff
  intro n bound
  have range := (bounded n bound).trans_lt small
  have reduced := cAddq_range range
  rw [polyCAddq, coeff_map _ _ bound, coeff_canonicalRow _ bound,
    coeff_toRq a bound]
  exact eq_val_of_cast reduced.1 reduced.2 (cast_cAddq range.le)

variable {rows : ℕ}

/-- Bounded words that stand for the elements `p`. -/
structure Stands (v : Vector Poly rows) (limit : Int) (p : Fin rows → Rq) :
    Prop where
  bounded : ∀ i : Fin rows, v[i].Bounded limit
  toRq : ∀ i : Fin rows, v[i].toRq = p i

/-- Bounded words that hold the transforms of the elements `p`. -/
structure Hats (v : Vector Poly rows) (limit : Int) (scale : Zq)
    (p : Fin rows → Rq) : Prop where
  bounded : ∀ i : Fin rows, v[i].Bounded limit
  transforms : ∀ i : Fin rows, Transforms scale v[i] (p i)

section Vectors

variable {v w : Vector Poly rows} {p r : Fin rows → Rq} {limit other : Int}
  {scale : Zq}

theorem Stands.ntt (stands : Stands v limit p) (small : limit ≤ qConst) :
    Hats (v.map ntt) (9 * qConst) 1 p where
  bounded i := by
    rw [getElem_index, Vector.getElem_map]
    exact ntt_bounded ((stands.bounded i).mono small)
  transforms i := by
    rw [getElem_index, Vector.getElem_map, ← stands.toRq i]
    exact transforms_ntt ((stands.bounded i).mono small)

theorem Hats.pointwise {a : Poly} {c : Rq} (hats : Hats v (9 * qConst) 1 p)
    (bounded : a.Bounded (9 * qConst)) (transforms : Transforms 1 a c) :
    Hats (v.map (polyPointwiseMontgomery a)) qConst radixInv fun i => c * p i := by
  have product : 9 * qConst * (9 * qConst) ≤ montgomeryLimit := by decide
  constructor
  · intro i
    rw [getElem_index, Vector.getElem_map]
    exact pointwise_bounded bounded (hats.bounded i) product
  · intro i
    rw [getElem_index, Vector.getElem_map]
    exact transforms_pointwise bounded (hats.bounded i) product transforms
      (hats.transforms i)

theorem Hats.invNtt (hats : Hats v limit radixInv p) (small : limit ≤ qConst) :
    Stands (v.map invNttToMont) 4211178 p where
  bounded i := by
    rw [getElem_index, Vector.getElem_map]
    exact invNttToMont_bounded ((hats.bounded i).mono small) (hats.transforms i)
  toRq i := by
    rw [getElem_index, Vector.getElem_map]
    exact toRq_invNttToMont ((hats.bounded i).mono small) (hats.transforms i)

theorem Hats.reduce (hats : Hats v limit scale p) (small : limit ≤ reduceLimit) :
    Hats (v.map polyReduce) 6283008 scale p where
  bounded i := by
    rw [getElem_index, Vector.getElem_map]
    exact polyReduce_bounded ((hats.bounded i).mono small)
  transforms i := by
    rw [getElem_index, Vector.getElem_map]
    exact transforms_polyReduce ((hats.bounded i).mono small) (hats.transforms i)

theorem Hats.sub (first : Hats v limit scale p) (second : Hats w other scale r)
    (small : limit + other < 2147483648) :
    Hats (Vector.zipWith polySub v w) (limit + other) scale
      fun i => p i - r i where
  bounded i := by
    rw [getElem_index, Vector.getElem_zipWith]
    exact polySub_bounded (first.bounded i) (second.bounded i) small
  transforms i := by
    rw [getElem_index, Vector.getElem_zipWith]
    exact transforms_polySub (first.bounded i) (second.bounded i) small
      (first.transforms i) (second.transforms i)

theorem Stands.add (first : Stands v limit p) (second : Stands w other r)
    (small : limit + other < 2147483648) :
    Stands (Vector.zipWith polyAdd v w) (limit + other) fun i => p i + r i where
  bounded i := by
    rw [getElem_index, Vector.getElem_zipWith]
    exact polyAdd_bounded (first.bounded i) (second.bounded i) small
  toRq i := by
    rw [getElem_index, Vector.getElem_zipWith, ← first.toRq i, ← second.toRq i]
    exact toRq_polyAdd (first.bounded i) (second.bounded i) small

theorem Stands.sub (first : Stands v limit p) (second : Stands w other r)
    (small : limit + other < 2147483648) :
    Stands (Vector.zipWith polySub v w) (limit + other) fun i => p i - r i where
  bounded i := by
    rw [getElem_index, Vector.getElem_zipWith]
    exact polySub_bounded (first.bounded i) (second.bounded i) small
  toRq i := by
    rw [getElem_index, Vector.getElem_zipWith, ← first.toRq i, ← second.toRq i]
    exact toRq_polySub (first.bounded i) (second.bounded i) small

theorem Stands.reduce (stands : Stands v limit p) (small : limit ≤ reduceLimit) :
    Stands (v.map polyReduce) 6283008 p where
  bounded i := by
    rw [getElem_index, Vector.getElem_map]
    exact polyReduce_bounded ((stands.bounded i).mono small)
  toRq i := by
    rw [getElem_index, Vector.getElem_map, ← stands.toRq i]
    exact toRq_polyReduce ((stands.bounded i).mono small)

theorem Stands.cAddq (stands : Stands v limit p) (small : limit < qConst) :
    v.map polyCAddq = Vector.ofFn fun i => canonicalRow (p i) := by
  ext1 i bound
  have row := polyCAddq_eq (stands.bounded ⟨i, bound⟩) small
  rw [stands.toRq] at row
  rw [Vector.getElem_map, Vector.getElem_ofFn]
  exact row

end Vectors

theorem Stands.ofFn {value : Fin rows → ℕ → ℤ} {limit : Int}
    (small : ∀ i, ∀ n < 256, |value i n| ≤ limit) :
    Stands (Vector.ofFn fun i => Vector.ofFn fun n : Fin 256 => value i n) limit
      fun i => Spec.element (value i) where
  bounded i := by
    intro n bound
    rw [getElem_index, Vector.getElem_ofFn, coeff_ofFn _ bound]
    exact small i n bound
  toRq i := by
    rw [getElem_index, Vector.getElem_ofFn]
    apply Negacyclic.ofCoeffs_congr
    intro n bound
    rw [residues, coeff_ofFn _ bound]

/-! ## The matrix -/

/-- The product of the sampled matrix with transformed rows. -/
theorem Hats.times {shake : Shake} {rho : List UInt8} {v : PolyVecL}
    {p : Fin 7 → Rq} (hats : Hats v (9 * qConst) 1 p) (before : Fin 8 → Poly) :
    Hats (Vector.ofFn fun i : Fin 8 =>
        rowProduct (fun j => shake.matrixEntry rho i j) v (before i))
      (7 * qConst) radixInv (Spec.times shake rho p) := by
  have row : ∀ i : Fin 8,
      (rowProduct (fun j => shake.matrixEntry rho i j) v (before i)).Bounded
          (7 * qConst) ∧
        Transforms radixInv
          (rowProduct (fun j => shake.matrixEntry rho i j) v (before i))
          (Spec.times shake rho p i) := fun i =>
    rowProduct_spec (fun j => matrixEntry_bounded shake rho i j) hats.bounded
      (fun j => transforms_ofLeaves _) hats.transforms (before i)
  constructor
  · intro i
    rw [getElem_index, Vector.getElem_ofFn]
    exact (row i).1
  · intro i
    rw [getElem_index, Vector.getElem_ofFn]
    exact (row i).2

theorem Hats.timesBack {shake : Shake} {rho : List UInt8} {v : PolyVecL}
    {p : Fin 7 → Rq} (hats : Hats v (9 * qConst) 1 p) (before : Fin 8 → Poly) :
    Stands (((Vector.ofFn fun i : Fin 8 =>
        rowProduct (fun j => shake.matrixEntry rho i j) v (before i)).map
          polyReduce).map invNttToMont)
      4211178 (Spec.times shake rho p) :=
  ((hats.times before).reduce (by decide)).invNtt (by decide)

end LedgerQrl.Mldsa87
