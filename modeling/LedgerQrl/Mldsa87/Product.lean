import LedgerQrl.Mldsa87.Ntt
import LedgerQrl.Mldsa87.Sampling

namespace LedgerQrl.Mldsa87

open Foundation Poly
open scoped BigOperators

/-! # Products in the transformed domain

A transformed polynomial holds the leaf values of an element, up to a factor:
one after `ntt`, the inverse Montgomery radix after a pointwise product. -/

/-- `v` holds the leaf values of `p`, multiplied by `scale`. -/
def Transforms (scale : Zq) (v : Poly) (p : Rq) : Prop :=
  ∀ leaf : Fin 256, (v.coeff leaf : Zq) = scale * nttEquiv p leaf

theorem transforms_ntt {a : Poly} (bounded : a.Bounded qConst) :
    Transforms 1 (ntt a) a.toRq := by
  intro leaf
  rw [(ntt_spec bounded).2, one_mul]

theorem ntt_bounded {a : Poly} (bounded : a.Bounded qConst) :
    (ntt a).Bounded (9 * qConst) :=
  (ntt_spec bounded).1

noncomputable def ofLeaves (v : Poly) : Rq :=
  nttEquiv.symm fun leaf => (v.coeff leaf : Zq)

theorem transforms_ofLeaves (v : Poly) : Transforms 1 v (ofLeaves v) := by
  intro leaf
  rw [ofLeaves, RingEquiv.apply_symm_apply, one_mul]

section Pointwise

variable {u v : Poly} {p r : Rq} {scale : Zq} {left right : Int}

private theorem pointwise_limit (uBound : u.Bounded left)
    (vBound : v.Bounded right) (product : left * right ≤ montgomeryLimit)
    {index : ℕ} (bound : index < 256) :
    |u.coeff index * v.coeff index| ≤ montgomeryLimit :=
  abs_mul_le_montgomeryLimit (uBound index bound) (vBound index bound) product

theorem transforms_pointwise (uBound : u.Bounded left)
    (vBound : v.Bounded right) (product : left * right ≤ montgomeryLimit)
    (first : Transforms 1 u p) (second : Transforms 1 v r) :
    Transforms radixInv (polyPointwiseMontgomery u v) (p * r) := by
  intro leaf
  rw [polyPointwiseMontgomery, coeff_zipWith _ _ _ leaf.isLt,
    cast_montgomeryReduce (pointwise_limit uBound vBound product leaf.isLt)]
  push_cast
  rw [first leaf, second leaf, map_mul, Pi.mul_apply]
  ring

theorem pointwise_bounded (uBound : u.Bounded left) (vBound : v.Bounded right)
    (product : left * right ≤ montgomeryLimit) :
    (polyPointwiseMontgomery u v).Bounded qConst := by
  intro index bound
  rw [polyPointwiseMontgomery, coeff_zipWith _ _ _ bound]
  exact montgomeryReduce_abs_le_q
    (pointwise_limit uBound vBound product bound)

end Pointwise

/-! ## Sums and reductions -/

section Linear

variable {u v : Poly} {p r : Rq} {scale : Zq} {left right : Int}

theorem coeff_polyAdd (uBound : u.Bounded left) (vBound : v.Bounded right)
    (small : left + right < 2147483648) {index : ℕ} (bound : index < 256) :
    (polyAdd u v).coeff index = u.coeff index + v.coeff index := by
  have first := uBound index bound
  have second := vBound index bound
  rw [polyAdd, coeff_zipWith _ _ _ bound]
  rw [abs_le] at first second
  exact i32_of_inInt32 ⟨by omega, by omega⟩

theorem coeff_polySub (uBound : u.Bounded left) (vBound : v.Bounded right)
    (small : left + right < 2147483648) {index : ℕ} (bound : index < 256) :
    (polySub u v).coeff index = u.coeff index - v.coeff index := by
  have first := uBound index bound
  have second := vBound index bound
  rw [polySub, coeff_zipWith _ _ _ bound]
  rw [abs_le] at first second
  exact i32_of_inInt32 ⟨by omega, by omega⟩

theorem polyAdd_bounded (uBound : u.Bounded left) (vBound : v.Bounded right)
    (small : left + right < 2147483648) :
    (polyAdd u v).Bounded (left + right) := by
  intro index bound
  rw [coeff_polyAdd uBound vBound small bound]
  exact (abs_add_le _ _).trans (add_le_add (uBound index bound) (vBound index bound))

theorem polySub_bounded (uBound : u.Bounded left) (vBound : v.Bounded right)
    (small : left + right < 2147483648) :
    (polySub u v).Bounded (left + right) := by
  intro index bound
  rw [coeff_polySub uBound vBound small bound]
  exact (abs_sub _ _).trans (add_le_add (uBound index bound) (vBound index bound))

theorem transforms_polyAdd (uBound : u.Bounded left) (vBound : v.Bounded right)
    (small : left + right < 2147483648) (first : Transforms scale u p)
    (second : Transforms scale v r) :
    Transforms scale (polyAdd u v) (p + r) := by
  intro leaf
  rw [coeff_polyAdd uBound vBound small leaf.isLt]
  push_cast
  rw [first leaf, second leaf, map_add, Pi.add_apply]
  ring

theorem transforms_polySub (uBound : u.Bounded left) (vBound : v.Bounded right)
    (small : left + right < 2147483648) (first : Transforms scale u p)
    (second : Transforms scale v r) :
    Transforms scale (polySub u v) (p - r) := by
  intro leaf
  rw [coeff_polySub uBound vBound small leaf.isLt]
  push_cast
  rw [first leaf, second leaf, map_sub, Pi.sub_apply]
  ring

theorem toRq_polyAdd (uBound : u.Bounded left) (vBound : v.Bounded right)
    (small : left + right < 2147483648) :
    (polyAdd u v).toRq = u.toRq + v.toRq := by
  rw [toRq, toRq, toRq, ← Negacyclic.ofCoeffs_add]
  apply Negacyclic.ofCoeffs_congr
  intro index bound
  rw [residues, coeff_polyAdd uBound vBound small bound]
  push_cast
  rfl

theorem toRq_polySub (uBound : u.Bounded left) (vBound : v.Bounded right)
    (small : left + right < 2147483648) :
    (polySub u v).toRq = u.toRq - v.toRq := by
  rw [toRq, toRq, toRq, ← Negacyclic.ofCoeffs_sub]
  apply Negacyclic.ofCoeffs_congr
  intro index bound
  rw [residues, coeff_polySub uBound vBound small bound]
  push_cast
  rfl

theorem cast_polyReduce (uBound : u.Bounded reduceLimit) {index : ℕ}
    (bound : index < 256) :
    ((polyReduce u).coeff index : Zq) = (u.coeff index : Zq) := by
  rw [polyReduce, coeff_map _ _ bound]
  exact cast_reduce32 (uBound index bound)

theorem polyReduce_bounded (uBound : u.Bounded reduceLimit) :
    (polyReduce u).Bounded 6283008 := by
  intro index bound
  rw [polyReduce, coeff_map _ _ bound]
  exact reduce32_abs_le (uBound index bound)

theorem transforms_polyReduce (uBound : u.Bounded reduceLimit)
    (transforms : Transforms scale u p) : Transforms scale (polyReduce u) p := by
  intro leaf
  rw [cast_polyReduce uBound leaf.isLt]
  exact transforms leaf

theorem toRq_polyReduce (uBound : u.Bounded reduceLimit) :
    (polyReduce u).toRq = u.toRq :=
  toRq_congr fun _ bound => cast_polyReduce uBound bound

/-- Reduced and transformed back, a scaled sum of products is the sum itself. -/
theorem toRq_invNttToMont (vBound : v.Bounded qConst)
    (transforms : Transforms radixInv v p) : (invNttToMont v).toRq = p := by
  rw [(invNttToMont_spec vBound transforms).2, mul_comm radixInv,
    radix_mul_radixInv, map_one, one_mul]

theorem invNttToMont_bounded (vBound : v.Bounded qConst)
    (transforms : Transforms radixInv v p) :
    (invNttToMont v).Bounded 4211178 :=
  (invNttToMont_spec vBound transforms).1

end Linear

/-! ## Rows of the matrix product -/

/-- What `combined_method` leaves in a row that held `before`. -/
def rowProduct (row : Fin 7 → Poly) (s1hat : PolyVecL) (before : Poly) : Poly :=
  (List.finRange 7).foldl (fun acc j =>
    let product := polyPointwiseMontgomery (row j) s1hat[j]
    if j.val = 0 then product else polyAdd acc product) before

/-- The first column overwrites the row, so its content before is lost. -/
theorem rowProduct_eq (row : Fin 7 → Poly) (s1hat : PolyVecL) (before : Poly) :
    rowProduct row s1hat before =
      ([1, 2, 3, 4, 5, 6] : List (Fin 7)).foldl (fun acc j =>
        polyAdd acc (polyPointwiseMontgomery (row j) s1hat[j]))
        (polyPointwiseMontgomery (row 0) s1hat[(0 : Fin 7)]) := rfl

section Row

variable {row : Fin 7 → Poly} {s1hat : PolyVecL} {entries elements : Fin 7 → Rq}

private theorem rowSum_spec (rowBound : ∀ j, (row j).Bounded qConst)
    (vectorBound : ∀ j : Fin 7, s1hat[j].Bounded (9 * qConst))
    (rowTransforms : ∀ j, Transforms 1 (row j) (entries j))
    (vectorTransforms : ∀ j : Fin 7, Transforms 1 s1hat[j] (elements j))
    (columns : List (Fin 7)) {acc : Poly} {total : Rq} (count : ℕ)
    (within : count + columns.length ≤ 7) (accBound : acc.Bounded (count * qConst))
    (transforms : Transforms radixInv acc total) :
    (columns.foldl (fun acc j =>
        polyAdd acc (polyPointwiseMontgomery (row j) s1hat[j])) acc).Bounded
          (7 * qConst) ∧
      Transforms radixInv (columns.foldl (fun acc j =>
        polyAdd acc (polyPointwiseMontgomery (row j) s1hat[j])) acc)
          (total + (columns.map fun j => entries j * elements j).sum) := by
  induction columns generalizing acc total count with
  | nil =>
      rw [List.foldl_nil, List.map_nil, List.sum_nil, add_zero]
      refine ⟨accBound.mono ?_, transforms⟩
      rw [qConst]
      rw [List.length_nil] at within
      omega
  | cons j rest induction =>
      rw [List.length_cons] at within
      have product : qConst * (9 * qConst) ≤ montgomeryLimit := by decide
      have small : count * qConst + qConst < 2147483648 := by
        rw [qConst]
        omega
      have termBound := pointwise_bounded (rowBound j) (vectorBound j) product
      have term := transforms_pointwise (rowBound j) (vectorBound j) product
        (rowTransforms j) (vectorTransforms j)
      have sumBound := polyAdd_bounded accBound termBound small
      have sum := transforms_polyAdd accBound termBound small transforms term
      rw [List.foldl_cons, List.map_cons, List.sum_cons, ← add_assoc]
      exact induction (count + 1) (by omega)
        (sumBound.mono (by push_cast; linarith)) sum

theorem rowProduct_spec (rowBound : ∀ j, (row j).Bounded qConst)
    (vectorBound : ∀ j : Fin 7, s1hat[j].Bounded (9 * qConst))
    (rowTransforms : ∀ j, Transforms 1 (row j) (entries j))
    (vectorTransforms : ∀ j : Fin 7, Transforms 1 s1hat[j] (elements j))
    (before : Poly) :
    (rowProduct row s1hat before).Bounded (7 * qConst) ∧
      Transforms radixInv (rowProduct row s1hat before)
        (∑ j, entries j * elements j) := by
  have product : qConst * (9 * qConst) ≤ montgomeryLimit := by decide
  have columns := rowSum_spec rowBound vectorBound rowTransforms
    vectorTransforms [1, 2, 3, 4, 5, 6] 1 (by simp)
    ((pointwise_bounded (rowBound 0) (vectorBound 0) product).mono (by simp))
    (transforms_pointwise (rowBound 0) (vectorBound 0) product
      (rowTransforms 0) (vectorTransforms 0))
  rw [rowProduct_eq]
  have total : ∑ j, entries j * elements j = entries 0 * elements 0 +
      (([1, 2, 3, 4, 5, 6] : List (Fin 7)).map fun j =>
        entries j * elements j).sum := by
    rw [Fin.sum_univ_seven]
    simp only [List.map_cons, List.map_nil, List.sum_cons, List.sum_nil]
    ring
  rw [total]
  exact columns

end Row

end LedgerQrl.Mldsa87
