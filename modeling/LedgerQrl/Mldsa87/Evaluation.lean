import LedgerQrl.Foundation.Reversal
import LedgerQrl.Mldsa87.Product

namespace LedgerQrl.Mldsa87

open Foundation Poly
open scoped BigOperators

/-! # What the transforms compute

The table holds the powers of 1753 in Montgomery form, in the order of their
reversed bits, so that `ntt` evaluates at the odd powers of 1753. -/

/-- The root whose powers the table holds. -/
def rootOfUnity : Zq := 1753

private theorem zeta_power : ∀ node < 256, node ≠ 0 →
    (8380417 : Int) ∣ 4294967296 * 1753 ^ reversed 8 node - zeta node := by
  decide +kernel

theorem twiddle_power (node : ℕ) (bound : node < 2 ^ (7 + 1)) (positive : node ≠ 0) :
    twiddle node = rootOfUnity ^ reversed (7 + 1) node := by
  have divides := zeta_power node bound positive
  rw [← cast_eq_cast_iff] at divides
  push_cast at divides
  rw [twiddle, divides, rootOfUnity]
  linear_combination (1753 : Zq) ^ reversed 8 node * radix_mul_radixInv

theorem rootOfUnity_half : rootOfUnity ^ 2 ^ (7 + 1) = -1 := by
  decide +kernel

/-- The point at which `ntt` evaluates for an index of its result. -/
def nttPoint (leaf : ℕ) : Zq := leafPoint 8 rootOfUnity leaf

theorem nttPoint_root (leaf : ℕ) : nttPoint leaf ^ 256 = -1 := by
  rw [nttPoint, leafPoint, ← pow_mul, mul_comm, pow_mul]
  calc (rootOfUnity ^ 2 ^ (7 + 1)) ^ (2 * reversed 8 leaf + 1)
      = (-1) ^ (2 * reversed 8 leaf + 1) := by rw [rootOfUnity_half]
    _ = -1 := Odd.neg_one_pow ⟨reversed 8 leaf, rfl⟩

theorem nttEquiv_toRq_eval (a : Poly) (leaf : Fin 256) :
    nttEquiv a.toRq leaf =
      ∑ index ∈ Finset.range 256, (a.coeff index : Zq) * nttPoint leaf ^ index := by
  have point : nodeRoot twiddle (2 ^ 8 + leaf) = nttPoint leaf :=
    nodeRoot_leaf rootOfUnity_half twiddle_power leaf.isLt
  have bound : leaf.val < 2 ^ 8 := leaf.isLt
  rw [nttEquiv_toRq, forward_eq_eval nttTree a.residues bound, point]
  rfl

/-- Polynomials that stand for a multiple of an element hold the multiples of
its coefficients. -/
theorem coeff_of_toRq_scaled {a b : Poly} {scale : Zq}
    (scaled : a.toRq = AdjoinRoot.of _ scale * b.toRq) {index : ℕ}
    (bound : index < 256) :
    (a.coeff index : Zq) = scale * (b.coeff index : Zq) := by
  rw [toRq, toRq, ← Negacyclic.ofCoeffs_mul_left] at scaled
  exact Negacyclic.ofCoeffs_inj scaled bound

theorem ntt_invNttToMont {v : Poly} (bounded : v.Bounded qConst) {leaf : ℕ}
    (bound : leaf < 256) :
    ((ntt (invNttToMont v)).coeff leaf : Zq) = 4294967296 * (v.coeff leaf : Zq) := by
  obtain ⟨range, element⟩ := invNttToMont_spec bounded (transforms_ofLeaves v)
  have within : (invNttToMont v).Bounded qConst :=
    range.mono (by rw [qConst]; norm_num)
  have values := (ntt_spec within).2 ⟨leaf, bound⟩
  rw [element, map_mul, Pi.mul_apply, nttEquiv_of, ofLeaves,
    RingEquiv.apply_symm_apply, one_mul] at values
  exact values

/-- Transforming back what was transformed and reduced multiplies by the
radix. -/
theorem invNttToMont_ntt {a : Poly} (bounded : a.Bounded qConst) {index : ℕ}
    (bound : index < 256) :
    ((invNttToMont (polyReduce (ntt a))).coeff index : Zq) =
      4294967296 * (a.coeff index : Zq) := by
  have transformed : (ntt a).Bounded reduceLimit :=
    (ntt_bounded bounded).mono (by rw [qConst, reduceLimit]; norm_num)
  have reduced : (polyReduce (ntt a)).Bounded qConst :=
    (polyReduce_bounded transformed).mono (by rw [qConst]; norm_num)
  have values := transforms_polyReduce transformed (transforms_ntt bounded)
  have element := (invNttToMont_spec reduced values).2
  rw [one_mul] at element
  exact coeff_of_toRq_scaled element bound

/-- The transforms are evaluation and interpolation: `ntt` takes the values of
the polynomial at the odd powers of 1753 in bit-reversed order, which are all
the roots of `X ^ 256 + 1`, each once. `inv_ntt_to_mont` undoes it up to the
Montgomery radix, when `poly_reduce` has made the values small enough for it, and is
undone by it. -/
theorem transforms_evaluate {a : Poly} (bounded : a.Bounded qConst) :
    (∀ leaf < 256, ((ntt a).coeff leaf : Zq) =
      ∑ index ∈ Finset.range 256, (a.coeff index : Zq) * nttPoint leaf ^ index) ∧
    (∀ point : Zq, point ^ 256 = -1 ↔ ∃! leaf : Fin 256, nttPoint leaf = point) ∧
    (∀ index < 256, ((invNttToMont (polyReduce (ntt a))).coeff index : Zq) =
      4294967296 * (a.coeff index : Zq)) ∧
    ∀ leaf < 256, ((ntt (invNttToMont a)).coeff leaf : Zq) =
      4294967296 * (a.coeff leaf : Zq) := by
  refine ⟨?evaluates, ?points, ?back, ?forth⟩
  case evaluates =>
    intro leaf bound
    have value := (ntt_spec bounded).2 ⟨leaf, bound⟩
    rw [value]
    exact nttEquiv_toRq_eval a ⟨leaf, bound⟩
  case points =>
    intro point
    constructor
    · exact existsUnique_leaf two_ne_zero_zq rootOfUnity_half
    · intro unique
      obtain ⟨leaf, rfl, _⟩ := unique
      exact nttPoint_root leaf
  case back => exact fun index bound => invNttToMont_ntt bounded bound
  case forth => exact fun leaf bound => ntt_invNttToMont bounded bound

/-- The polynomial whose coefficients are all one, at the first point. -/
theorem transforms_evaluate_ones :
    ((ntt (Vector.replicate 256 1)).coeff 0 : Zq) =
      ∑ index ∈ Finset.range 256, nttPoint 0 ^ index := by
  have bounded : Poly.Bounded (Vector.replicate 256 1) qConst := by
    intro index bound
    rw [coeff_of_lt _ bound, Vector.getElem_replicate, qConst]
    norm_num
  rw [(transforms_evaluate bounded).1 0 (by decide)]
  apply Finset.sum_congr rfl
  intro index member
  rw [coeff_of_lt _ (Finset.mem_range.mp member), Vector.getElem_replicate]
  push_cast
  rw [one_mul]

end LedgerQrl.Mldsa87
