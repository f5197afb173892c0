import LedgerQrl.Foundation.CInt
import LedgerQrl.Foundation.Index
import LedgerQrl.Mldsa87.Constant

namespace LedgerQrl.Mldsa87

open Foundation

/-! # Polynomials and their arithmetic

`reduce.c`, `rounding.c`, `ntt.c` and the pointwise part of `poly.c`. A
coefficient is an `int32_t`, an integer on which every operation that could
leave the 32-bit range is followed by the conversion `i32`. -/

abbrev Poly := Vector Int 256

abbrev PolyVecK := Vector Poly 8

abbrev PolyVecL := Vector Poly 7

/-! The three sizes are positive; `0` is an index below each. -/

instance coefficients_neZero : NeZero 256 := ⟨by decide⟩

instance rows_neZero : NeZero 8 := ⟨by decide⟩

instance columns_neZero : NeZero 7 := ⟨by decide⟩

theorem zero_lt_rows : 0 < 8 := by decide

namespace Poly

/-- The coefficient at an index; the loops of the source stay in range. -/
def coeff (a : Poly) (index : Nat) : Int := a[index]?.getD 0

def assign (a : Poly) (index : Nat) (value : Int) : Poly :=
  a.setIfInBounds index value

def zero : Poly := Vector.replicate 256 0

end Poly

/-! ## `reduce.c` -/

def montgomeryReduce (a : Int) : Int :=
  let t := i32 (i32 a * qInv)
  i32 (sar (a - t * qConst) 32)

def reduce32 (a : Int) : Int :=
  let t := sar (i32 (a + 4194304)) 23
  i32 (a - i32 (t * qConst))

def cAddq (a : Int) : Int :=
  i32 (a + Int.land (sar a 31) qConst)

/-! ## `rounding.c` -/

/-- Returns `a1` and stores `a0`. -/
def power2Round (a : Int) : Int × Int :=
  let a1 := sar (i32 (i32 (a + 4096) - 1)) 13
  (a1, i32 (a - shl a1 13))

def decompose (a : Int) : Int × Int :=
  let a1 := sar (i32 (a + 127)) 7
  let a1 := sar (i32 (i32 (a1 * 1025) + 2097152)) 22
  let a1 := Int.land a1 15
  let a0 := i32 (a - i32 (i32 (a1 * 2) * gamma2))
  let a0 := i32 (a0 - Int.land (sar (i32 ((qConst - 1) / 2 - a0)) 31) qConst)
  (a1, a0)

def makeHint (a0 a1 : Int) : Nat :=
  let gt := u32 (i32 (gamma2 - a0)) >>> 31
  let lt := u32 (i32 (a0 + gamma2)) >>> 31
  let diff := i32 (a0 + gamma2)
  let eq := 1 - u32 (Int.lor diff (i32 (-diff))) >>> 31
  let nz := u32 (Int.lor a1 (i32 (-a1))) >>> 31
  (gt ||| lt ||| (eq &&& nz)) &&& 1

def useHint (a hint : Int) : Int :=
  let a1 := (decompose a).1
  let a0 := (decompose a).2
  let hintZero : Int := 1 - (u32 (Int.lor hint (i32 (-hint))) >>> 31 : Nat)
  let positive : Int := (u32 (i32 (-a0)) >>> 31 : Nat)
  let maskZero := -hintZero
  let maskNz := -(1 - hintZero)
  let maskPos := -positive
  Int.lor
    (Int.lor (Int.land a1 maskZero)
      (Int.land (Int.land (Int.land (a1 + 1) 15) maskNz) maskPos))
    (Int.land (Int.land (Int.land (a1 - 1) 15) maskNz) (-1 - maskPos))

/-! ## `ntt.c` -/

/-- The innermost round of `ntt`. -/
def nttButterfly (zeta : Int) (count j : Nat) (a : Poly) : Poly :=
  let t := montgomeryReduce (zeta * a.coeff (j + count))
  let a := a.assign (j + count) (i32 (a.coeff j - t))
  a.assign j (i32 (a.coeff j + t))

/-- The innermost round of `inv_ntt_to_mont`. -/
def invNttButterfly (zeta : Int) (count j : Nat) (a : Poly) : Poly :=
  let t := a.coeff j
  let a := a.assign j (i32 (t + a.coeff (j + count)))
  let a := a.assign (j + count) (i32 (t - a.coeff (j + count)))
  a.assign (j + count) (montgomeryReduce (zeta * a.coeff (j + count)))

def butterflies (butterfly : (count j : Nat) → Poly → Poly)
    (count start : Nat) (a : Poly) : Poly :=
  (List.range' start count).foldl (fun a j => butterfly count j a) a

/-- The loop over `start`: after each pass `j` is `start + count`, so the next
`start` is `2 * count` further. The counter `k` is part of the state. -/
def nttLayer (count : Nat) (state : Nat × Poly) : Nat × Poly :=
  (List.range (128 / count)).foldl (fun (k, a) block =>
    let k := k + 1
    (k, butterflies (nttButterfly (zetas[k]?.getD 0)) count
      (2 * count * block) a)) state

def ntt (a : Poly) : Poly :=
  ([128, 64, 32, 16, 8, 4, 2, 1].foldl (fun state count =>
    nttLayer count state) (0, a)).2

def invNttLayer (count : Nat) (state : Nat × Poly) : Nat × Poly :=
  (List.range (128 / count)).foldl (fun (k, a) block =>
    let k := k - 1
    (k, butterflies (invNttButterfly (-(zetas[k]?.getD 0))) count
      (2 * count * block) a)) state

def invNttToMont (a : Poly) : Poly :=
  let a := ([1, 2, 4, 8, 16, 32, 64, 128].foldl (fun state count =>
    invNttLayer count state) (256, a)).2
  a.map fun value => montgomeryReduce (41978 * value)

/-! ## The pointwise part of `poly.c` -/

def polyCAddq (a : Poly) : Poly := a.map cAddq

def polyReduce (a : Poly) : Poly := a.map reduce32

def polyAdd (a b : Poly) : Poly :=
  Vector.zipWith (fun left right => i32 (left + right)) a b

def polySub (a b : Poly) : Poly :=
  Vector.zipWith (fun left right => i32 (left - right)) a b

def polyShiftL (a : Poly) : Poly := a.map fun value => shl value 13

def polyPointwiseMontgomery (a b : Poly) : Poly :=
  Vector.zipWith (fun left right => montgomeryReduce (left * right)) a b

def violates (bound value : Int) : Nat :=
  let t := sar value 31
  let t := i32 (value - Int.land t (i32 (2 * value)))
  1 ^^^ (u32 (i32 (t - bound)) >>> 31)

def polyChkNorm (a : Poly) (bound : Int) : Int :=
  if bound > (qConst - 1) / 8 then 1
  else
    let violation := a.foldl (fun violation value =>
      violation ||| violates bound value) 0
    (violation &&& 1 : Nat)

/-- The loop shared by `poly_vec_l_chk_norm` and `poly_vec_k_chk_norm`. -/
def polyVecChkNorm {rows : Nat} (v : Vector Poly rows) (bound : Int) : Int :=
  if v.any fun row => polyChkNorm row bound != 0 then 1 else 0

def polyVecLChkNorm (v : PolyVecL) (bound : Int) : Int := polyVecChkNorm v bound

def polyVecKChkNorm (v : PolyVecK) (bound : Int) : Int := polyVecChkNorm v bound

end LedgerQrl.Mldsa87
