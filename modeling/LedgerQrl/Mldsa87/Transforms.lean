import LedgerQrl.Mldsa87.Product
import LedgerQrl.Mldsa87.Stages

namespace LedgerQrl.Mldsa87

open Foundation Poly

/-! # The transforms multiply

Transforming, multiplying pointwise and transforming back multiplies in
`Z_q[X] / (X^256 + 1)`, and the copies that work on the storage do the same to
every polynomial. -/

section Multiply

variable {a b : Poly}

theorem transforms_product (aBound : a.Bounded qConst) (bBound : b.Bounded qConst) :
    (polyPointwiseMontgomery (ntt a) (ntt b)).Bounded qConst ∧
      Transforms radixInv (polyPointwiseMontgomery (ntt a) (ntt b)) (a.toRq * b.toRq) := by
  have product : (9 * qConst) * (9 * qConst) ≤ montgomeryLimit := by decide
  have transformed := transforms_pointwise (ntt_bounded aBound) (ntt_bounded bBound) product
    (transforms_ntt aBound) (transforms_ntt bBound)
  exact ⟨pointwise_bounded (ntt_bounded aBound) (ntt_bounded bBound) product, transformed⟩

theorem coeff_invNttToMont_pointwise (aBound : ∀ index < 256, |a.coeff index| < qConst)
    (bBound : ∀ index < 256, |b.coeff index| < qConst) :
    ∀ index < 256,
      |(invNttToMont (polyPointwiseMontgomery (ntt a) (ntt b))).coeff index| < qConst ∧
      ((invNttToMont (polyPointwiseMontgomery (ntt a) (ntt b))).coeff index : Zq) =
        Negacyclic.coeff (a.toRq * b.toRq) index := by
  intro index bound
  obtain ⟨range, transforms⟩ := transforms_product
    (fun index bound => (aBound index bound).le) fun index bound => (bBound index bound).le
  have small := invNttToMont_bounded range transforms index bound
  have element := toRq_invNttToMont range transforms
  constructor
  · exact small.trans_lt (by decide)
  · rw [← element, Poly.toRq, Negacyclic.coeff_ofCoeffs _ bound]
    rfl

end Multiply

/-! ## The copies -/

/-- The transforms multiply polynomials, and the copies on the storage are the
transforms. -/
theorem transforms_multiply :
    (∀ a b : Poly, (∀ index < 256, |a.coeff index| < qConst) →
      (∀ index < 256, |b.coeff index| < qConst) → ∀ index < 256,
        |(invNttToMont (polyPointwiseMontgomery (ntt a) (ntt b))).coeff index| < qConst ∧
        ((invNttToMont (polyPointwiseMontgomery (ntt a) (ntt b))).coeff index : Zq) =
          Negacyclic.coeff (a.toRq * b.toRq) index) ∧
    (∀ (region : Region InternalStorage PolyVecK) (storage : InternalStorage),
      (polyVecKNttVolatile region).finish storage =
        region.write ((region.read storage).map ntt) storage ∧
      (polyVecKInvNttToMontVolatile region).finish storage =
        region.write ((region.read storage).map invNttToMont) storage) ∧
    (∀ (region : Region InternalStorage PolyVecL) (storage : InternalStorage),
      (polyVecLNttVolatile region).finish storage =
        region.write ((region.read storage).map ntt) storage ∧
      (polyVecLInvNttToMontVolatile region).finish storage =
        region.write ((region.read storage).map invNttToMont) storage) ∧
    ∀ storage : InternalStorage,
      polyNttVolatile.finish storage = { storage with cp := ntt storage.cp } := by
  refine ⟨fun a b => coeff_invNttToMont_pointwise, ?_, ?_, finish_polyNttVolatile⟩
  · intro region storage
    exact ⟨finish_polyVecKNttVolatile region storage,
      finish_polyVecKInvNttToMontVolatile region storage⟩
  · intro region storage
    exact ⟨finish_polyVecLNttVolatile region storage,
      finish_polyVecLInvNttToMontVolatile region storage⟩

theorem transforms_multiply_falling : ∀ index < 256,
    |(invNttToMont (polyPointwiseMontgomery (ntt (falling 255 2))
      (ntt (falling 8380416 65000)))).coeff index| < qConst ∧
    ((invNttToMont (polyPointwiseMontgomery (ntt (falling 255 2))
      (ntt (falling 8380416 65000)))).coeff index : Zq) =
        Negacyclic.coeff ((falling 255 2).toRq * (falling 8380416 65000).toRq) index := by
  apply transforms_multiply.1
  · intro index bound
    rw [coeff_falling _ _ bound, abs_lt, qConst]
    omega
  · intro index bound
    rw [coeff_falling _ _ bound, abs_lt, qConst]
    omega

end LedgerQrl.Mldsa87
