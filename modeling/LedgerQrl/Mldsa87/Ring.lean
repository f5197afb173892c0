import LedgerQrl.Foundation.Negacyclic
import LedgerQrl.Mldsa87.Poly
import Mathlib.Algebra.Field.ZMod
import Mathlib.Data.ZMod.ValMinAbs
import Mathlib.Tactic.NormNum.Prime

namespace LedgerQrl.Mldsa87

open Foundation

/-! # The ring the arithmetic is about

Coefficient words stand for elements of `Z_q`, polynomials for elements of
`Z_q[X] / (X^256 + 1)`, and a transformed polynomial for the values of an
element at the 256 roots of `X^256 + 1`. -/

abbrev Zq := ZMod 8380417

instance prime_q : Fact (Nat.Prime 8380417) := ⟨by norm_num⟩

abbrev Rq := Negacyclic Zq 256

theorem two_ne_zero_zq : (2 : Zq) ≠ 0 := by decide +kernel

theorem intCast_qConst : ((qConst : Int) : Zq) = 0 := by
  rw [qConst, ZMod.intCast_zmod_eq_zero_iff_dvd]
  exact dvd_refl _

theorem cast_eq_cast_iff {a b : Int} :
    (a : Zq) = (b : Zq) ↔ (8380417 : Int) ∣ b - a := by
  have criterion := ZMod.intCast_eq_intCast_iff_dvd_sub a b 8380417
  exact_mod_cast criterion

namespace Poly

/-- The coefficients of a polynomial in `Z_q`. -/
def residues (a : Poly) (index : ℕ) : Zq := (a.coeff index : Zq)

/-- The element of the ring that a polynomial stands for. -/
noncomputable def toRq (a : Poly) : Rq := Negacyclic.ofCoeffs a.residues

theorem coeff_of_lt (a : Poly) {index : ℕ} (bound : index < 256) :
    a.coeff index = a[index] := by
  simp [coeff, Vector.getElem?_eq_getElem bound]

theorem coeff_eq_getElem (a : Poly) (index : Fin 256) :
    a.coeff index = a[index] :=
  coeff_of_lt a index.isLt

theorem ext_coeff {a b : Poly}
    (equal : ∀ index < 256, a.coeff index = b.coeff index) : a = b := by
  ext index bound
  have same := equal index bound
  rwa [coeff_of_lt a bound, coeff_of_lt b bound] at same

theorem coeff_assign (a : Poly) {index : ℕ} (value : Int)
    (bound : index < 256) (other : ℕ) :
    (a.assign index value).coeff other =
      if index = other then value else a.coeff other := by
  simp only [coeff, assign, Vector.getElem?_setIfInBounds]
  split <;> simp_all

theorem coeff_ofFn (f : Fin 256 → Int) {index : ℕ} (bound : index < 256) :
    coeff (Vector.ofFn f) index = f ⟨index, bound⟩ := by
  rw [coeff_of_lt _ bound, Vector.getElem_ofFn]

/-- The coefficients fall by `step` from `top` on. -/
def falling (top step : Int) : Poly := Vector.ofFn fun index => top - step * index

theorem coeff_falling (top step : Int) {index : ℕ} (bound : index < 256) :
    (falling top step).coeff index = top - step * index := coeff_ofFn _ bound

theorem coeff_map (f : Int → Int) (a : Poly) {index : ℕ}
    (bound : index < 256) : coeff (a.map f) index = f (a.coeff index) := by
  rw [coeff_of_lt _ bound, coeff_of_lt _ bound, Vector.getElem_map]

theorem coeff_zipWith (f : Int → Int → Int) (a b : Poly) {index : ℕ}
    (bound : index < 256) :
    coeff (Vector.zipWith f a b) index = f (a.coeff index) (b.coeff index) := by
  rw [coeff_of_lt _ bound, coeff_of_lt _ bound, coeff_of_lt _ bound,
    Vector.getElem_zipWith]

/-- Every coefficient is at most `limit` in absolute value. -/
def Bounded (a : Poly) (limit : Int) : Prop :=
  ∀ index < 256, |a.coeff index| ≤ limit

theorem Bounded.mono {a : Poly} {limit larger : Int} (bounded : a.Bounded limit)
    (le : limit ≤ larger) : a.Bounded larger :=
  fun index bound => (bounded index bound).trans le

theorem toRq_congr {a b : Poly}
    (equal : ∀ index < 256, (a.coeff index : Zq) = (b.coeff index : Zq)) :
    a.toRq = b.toRq :=
  Negacyclic.ofCoeffs_congr equal

end Poly

/-! ## The roots -/

def radixInv : Zq := 8265825

theorem radix_mul_radixInv : (4294967296 : Zq) * radixInv = 1 := by
  decide +kernel

def zeta (node : ℕ) : Int := zetas[node]?.getD 0

/-- The twiddle that `ZETAS` holds in Montgomery form. -/
def twiddle (node : ℕ) : Zq := (zeta node : Zq) * radixInv

/-- The point of a node in Montgomery form, as a word. -/
def parentWord (node : ℕ) : Int :=
  if node = 1 then -4294967296
  else if node % 2 = 0 then zeta (node / 2)
  else -zeta (node / 2)

/-- The table, checked on integers: squares of entries are the entries of the
parent nodes. -/
private theorem zeta_square : ∀ node < 256, node ≠ 0 →
    (8380417 : Int) ∣ parentWord node - zeta node * zeta node * 8265825 := by
  decide +kernel

theorem zeta_abs_le : ∀ node < 256, |zeta node| ≤ 4190208 := by
  decide +kernel

/-- The table, checked on integers: entries that the inverse transform pairs
with those of the transform are their negated inverses. -/
private theorem zeta_inverse : ∀ level < 8, ∀ block < 2 ^ level,
    (8380417 : Int) ∣ 4294967296 * 4294967296 -
      zeta (2 ^ level + block) * -zeta (2 ^ (level + 1) - 1 - block) := by
  decide +kernel

theorem nttTree : RootTree 8 twiddle where
  square node positive bound := by
    have divides := zeta_square node (by simpa using bound) (by omega)
    rw [← cast_eq_cast_iff] at divides
    push_cast at divides
    have squared : twiddle node ^ 2 = (parentWord node : Zq) * radixInv := by
      rw [← divides, twiddle, show (8265825 : Zq) = radixInv from rfl]
      ring
    rw [squared, nodeRoot, parentWord]
    split_ifs
    · push_cast
      rw [neg_mul, radix_mul_radixInv]
    · rfl
    · rw [twiddle, Int.cast_neg, neg_mul]

theorem twiddle_inverse {level : ℕ} (within : level < 8) {block : ℕ}
    (bound : block < 2 ^ level) :
    twiddle (2 ^ level + block) * -twiddle (2 ^ (level + 1) - 1 - block) = 1 := by
  have divides := zeta_inverse level within block bound
  rw [← cast_eq_cast_iff] at divides
  push_cast at divides
  have inverse := radix_mul_radixInv
  calc twiddle (2 ^ level + block) * -twiddle (2 ^ (level + 1) - 1 - block)
      = (zeta (2 ^ level + block) : Zq) *
          -(zeta (2 ^ (level + 1) - 1 - block) : Zq) * (radixInv * radixInv) := by
        rw [twiddle, twiddle]
        ring
    _ = 1 := by
        rw [divides]
        linear_combination (4294967296 * radixInv + 1) * inverse

theorem isField_zq : IsField Zq := Field.toIsField Zq

/-- The transform: the values of an element at the 256 leaves. -/
noncomputable def nttEquiv : Rq ≃+* (Fin 256 → Zq) :=
  Negacyclic.leafEquiv (by norm_num) isField_zq nttTree two_ne_zero_zq

theorem nttEquiv_toRq (a : Poly) (leaf : Fin 256) :
    nttEquiv a.toRq leaf = forward 8 twiddle 8 a.residues leaf :=
  Negacyclic.leafEquiv_ofCoeffs _ isField_zq nttTree two_ne_zero_zq a.residues leaf

theorem nttEquiv_of (scale : Zq) (leaf : Fin 256) :
    nttEquiv (AdjoinRoot.of _ scale) leaf = scale :=
  Negacyclic.leafEquiv_of _ isField_zq nttTree two_ne_zero_zq scale leaf

end LedgerQrl.Mldsa87
