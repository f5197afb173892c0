import LedgerQrl.Mldsa87.Leftover

namespace LedgerQrl.Mldsa87

open Foundation Program InternalStorage

/-! # What verification stores before it transforms anything

Until the first transform, `z` and `h` hold what they held before or what the signature
encodes. How many writes it takes to unpack a signature depends on the signature alone. -/

/-- The vectors that outlast a wipe, while a signature is unpacked. -/
structure Decoded (sig : List UInt8) (before content : InternalStorage) : Prop where
  z : ∀ j : Fin 7, content.z[j] = before.z[j] ∨ content.z[j] = (responseRows sig)[j]
  h : ∀ i : Fin 8, ∀ n < 256, content.h[i].coeff n = before.h[i].coeff n ∨
    content.h[i].coeff n = 0 ∨
      content.h[i].coeff n = (hintWords (sig.drop 4544))[i].coeff n
  w1 : content.w1 = before.w1
  t1 : content.t1 = before.t1

section Unpack

variable {sig : List UInt8} {before content twin : InternalStorage}

theorem Decoded.refl (sig : List UInt8) (before : InternalStorage) :
    Decoded sig before before where
  z _ := Or.inl rfl
  h _ _ _ := Or.inl rfl
  w1 := rfl
  t1 := rfl

theorem Decoded.kept (decoded : Decoded sig before content) {after : InternalStorage}
    (same : (after.z, after.h, after.w1, after.t1) =
      (content.z, content.h, content.w1, content.t1)) : Decoded sig before after := by
  simp only [Prod.mk.injEq] at same
  constructor
  · rw [same.1]
    exact decoded.z
  · rw [same.2.1]
    exact decoded.h
  · rw [same.2.2.1]
    exact decoded.w1
  · rw [same.2.2.2]
    exact decoded.t1

/-- Every coefficient of the new row is an old one, zero, or that of a hint. -/
theorem Decoded.hintRow (decoded : Decoded sig before content) (row : Fin 8) {a : Poly}
    (each : ∀ n < 256, a.coeff n = content.h[row].coeff n ∨ a.coeff n = 0 ∨
      a.coeff n = (hintWords (sig.drop 4544))[row].coeff n) :
    Decoded sig before (hRegion.setRow row a content) := by
  refine { decoded with h := ?_ }
  intro i n bound
  by_cases same : row = i
  · subst same
    have stored : (hRegion.setRow row a content).h[row] = a :=
      Vector.getElem_set_self row.isLt
    rw [stored]
    rcases each n bound with old | new
    · rw [old]
      exact decoded.h row n bound
    · exact Or.inr new
  · have other : (hRegion.setRow row a content).h[i] = content.h[i] :=
      read_setRow_other hRegion same _ content
    rw [other]
    exact decoded.h i n bound

theorem Decoded.position (decoded : Decoded sig before content) (row : Fin 8) {j : ℕ}
    (above : Spec.hintStart (sig.drop 4544) row ≤ j)
    (below : j < Spec.hintEnd (sig.drop 4544) row) :
    Decoded sig before (hRegion.setRow row
      (content.h[row].assign (byteAt sig (4544 + j)) 1) content) := by
  apply decoded.hintRow row
  intro n bound
  rw [Poly.coeff_assign _ _ (byteAt_lt sig (4544 + j))]
  by_cases here : byteAt sig (4544 + j) = n
  · have hint : Spec.hintAt (sig.drop 4544) row n = true := by
      rw [Spec.hintAt, List.any_eq_true]
      refine ⟨j, List.mem_range'_1.mpr ⟨above, by omega⟩, ?_⟩
      rw [byteAt_drop, decide_eq_true_eq]
      exact here
    rw [coeff_hintWords _ row bound, hint, if_pos rfl, if_pos here]
    exact Or.inr (Or.inr rfl)
  · rw [if_neg here]
    exact Or.inl rfl

/-- The number of writes of `unpack_sig_volatile`. -/
def unpackWrites (sig : List UInt8) : ℕ :=
  ((unpackSigVolatile zRegion hRegion sig).history zeroed).length

end Unpack

/-! ## Up to the challenge -/

/-- What verification returns `false` for before it computes a hash. -/
def Refused (sig : List UInt8) : Prop :=
  ¬ Spec.WellFormedHints (sig.drop 4544) ∨
    polyVecLChkNorm (responseRows sig) (gamma1 - beta) ≠ 0

section Stored

variable (shake : Shake) (rho sig message : List UInt8) {before content : InternalStorage}

end Stored

end LedgerQrl.Mldsa87
