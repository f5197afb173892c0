import LedgerQrl.Mldsa87.Poly

namespace LedgerQrl.Mldsa87

open Foundation

/-! # The copies of the transforms

`sign.c` transforms the polynomials of the storage in a buffer, with the loops of
`ntt.c` and the Montgomery reduction written out. -/

def reduceInLine (aReduce : Int) : Int :=
  let t2 := i32 (i32 aReduce * qInv)
  i32 (sar (aReduce - t2 * qConst) 32)

def nttRoundInLine (zeta : Int) (count j : Nat) (tempPoly : Poly) : Poly :=
  let aReduce := zeta * tempPoly.coeff (j + count)
  let t := reduceInLine aReduce
  let temp := i32 (tempPoly.coeff j - t)
  let tempPoly := tempPoly.assign (j + count) temp
  let temp := i32 (tempPoly.coeff j + t)
  tempPoly.assign j temp

def nttInLine (tempPoly : Poly) : Poly :=
  ([128, 64, 32, 16, 8, 4, 2, 1].foldl (fun state count =>
    (List.range (128 / count)).foldl (fun (k, tempPoly) block =>
      let k := k + 1
      (k, (List.range' (2 * count * block) count).foldl (fun tempPoly j =>
        nttRoundInLine (zetas[k]?.getD 0) count j tempPoly) tempPoly)) state)
    (0, tempPoly)).2

def invNttRoundInLine (zeta : Int) (count j : Nat) (tempPoly : Poly) : Poly :=
  let t := tempPoly.coeff j
  let temp := i32 (t + tempPoly.coeff (j + count))
  let tempPoly := tempPoly.assign j temp
  let temp := i32 (t - tempPoly.coeff (j + count))
  let tempPoly := tempPoly.assign (j + count) temp
  let a := zeta * tempPoly.coeff (j + count)
  tempPoly.assign (j + count) (reduceInLine a)

def invNttToMontInLine (tempPoly : Poly) : Poly :=
  let tempPoly := ([1, 2, 4, 8, 16, 32, 64, 128].foldl (fun state count =>
    (List.range (128 / count)).foldl (fun (k, tempPoly) block =>
      let k := k - 1
      (k, (List.range' (2 * count * block) count).foldl (fun tempPoly j =>
        invNttRoundInLine (-(zetas[k]?.getD 0)) count j tempPoly) tempPoly)) state)
    (256, tempPoly)).2
  tempPoly.map fun value => reduceInLine (41978 * value)

theorem reduceInLine_eq : reduceInLine = montgomeryReduce := rfl

theorem nttRoundInLine_eq : nttRoundInLine = nttButterfly := rfl

theorem invNttRoundInLine_eq : invNttRoundInLine = invNttButterfly := rfl

theorem nttInLine_eq : nttInLine = ntt := by
  funext a
  rw [nttInLine, nttRoundInLine_eq]
  rfl

theorem invNttToMontInLine_eq : invNttToMontInLine = invNttToMont := by
  funext a
  rw [invNttToMontInLine, invNttRoundInLine_eq, reduceInLine_eq]
  rfl

end LedgerQrl.Mldsa87
