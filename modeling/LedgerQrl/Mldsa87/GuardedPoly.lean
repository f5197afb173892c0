import LedgerQrl.Foundation.Guarded
import LedgerQrl.Mldsa87.Product
import LedgerQrl.Mldsa87.Rounding

namespace LedgerQrl.Mldsa87.Guarded

open Foundation Poly

/-! # Arithmetic that faults instead of wrapping around

The functions of `reduce.c`, `rounding.c`, `ntt.c` and `poly.c` once more. Every
`int32_t` and `int64_t` operation whose exact result does not fit is a fault, and
so is an argument outside of the range a function relies on. -/

instance (value : Int) : Decidable (InInt32 value) :=
  inferInstanceAs (Decidable (_ ∧ _))

/-- The exact result of an operation, when an `int32_t` holds it. -/
def int32 (value : Int) : Option Int :=
  if InInt32 value then some value else none

def int64 (value : Int) : Option Int :=
  if -9223372036854775808 ≤ value ∧ value < 9223372036854775808 then some value
  else none

def require (condition : Prop) [Decidable condition] : Option Unit :=
  if condition then some () else none

/-- Coefficients from `low` up to, but not including, `high`. -/
def Within (low high : Int) (a : Poly) : Prop :=
  ∀ index < 256, low ≤ a.coeff index ∧ a.coeff index < high

instance (low high : Int) (a : Poly) : Decidable (Within low high a) :=
  Nat.decidableBallLT 256 fun index _ => low ≤ a.coeff index ∧ a.coeff index < high

theorem int32_eq {value : Int} (range : InInt32 value) :
    int32 value = some (i32 value) := by
  rw [int32, if_pos range, i32_of_inInt32 range]

theorem int32_exact {value : Int} (range : InInt32 value) : int32 value = some value :=
  if_pos range

theorem int64_eq {value : Int} (range : |value| < 9223372036854775808) :
    int64 value = some value := by
  rw [abs_lt] at range
  rw [int64, if_pos ⟨range.1.le, range.2⟩]

theorem require_eq {condition : Prop} [Decidable condition] (holds : condition) :
    require condition = some () :=
  if_pos holds

/-! ## `reduce.c` -/

def montgomeryReduce (a : Int) : Option Int := do
  require (|a| ≤ montgomeryLimit)
  let product ← int64 (i32 a * qInv)
  let t := i32 product
  let multiple ← int64 (t * qConst)
  let difference ← int64 (a - multiple)
  int32 (sar difference 32)

def reduce32 (a : Int) : Option Int := do
  let sum ← int32 (a + 4194304)
  let t := sar sum 23
  let multiple ← int32 (t * qConst)
  int32 (a - multiple)

def cAddq (a : Int) : Option Int :=
  int32 (a + Int.land (sar a 31) qConst)

/-! ## `rounding.c` -/

def power2Round (a : Int) : Option (Int × Int) := do
  require (0 ≤ a ∧ a < qConst)
  let sum ← int32 (a + 4096)
  let sum ← int32 (sum - 1)
  let a1 := sar sum 13
  let multiple ← int32 (a1 * 2 ^ 13)
  let a0 ← int32 (a - multiple)
  pure (a1, a0)

def decompose (a : Int) : Option (Int × Int) := do
  require (0 ≤ a ∧ a < qConst)
  let sum ← int32 (a + 127)
  let a1 := sar sum 7
  let product ← int32 (a1 * 1025)
  let sum ← int32 (product + 2097152)
  let a1 := Int.land (sar sum 22) 15
  let double ← int32 (a1 * 2)
  let multiple ← int32 (double * gamma2)
  let a0 ← int32 (a - multiple)
  let distance ← int32 ((qConst - 1) / 2 - a0)
  let a0 ← int32 (a0 - Int.land (sar distance 31) qConst)
  pure (a1, a0)

def makeHint (a0 a1 : Int) : Option Nat := do
  let above ← int32 (gamma2 - a0)
  let gt := u32 above >>> 31
  let below ← int32 (a0 + gamma2)
  let lt := u32 below >>> 31
  let diff ← int32 (a0 + gamma2)
  let negated ← int32 (-diff)
  let eq := 1 - u32 (Int.lor diff negated) >>> 31
  let opposite ← int32 (-a1)
  let nz := u32 (Int.lor a1 opposite) >>> 31
  pure ((gt ||| lt ||| (eq &&& nz)) &&& 1)

def useHint (a hint : Int) : Option Int := do
  let parts ← decompose a
  let a1 := parts.1
  let a0 := parts.2
  let opposite ← int32 (-hint)
  let hintZero ← int32 (1 - (u32 (Int.lor hint opposite) >>> 31 : Nat))
  let negated ← int32 (-a0)
  let positive : Int := (u32 negated >>> 31 : Nat)
  let maskZero ← int32 (-hintZero)
  let nonZero ← int32 (1 - hintZero)
  let maskNz ← int32 (-nonZero)
  let maskPos ← int32 (-positive)
  let upper ← int32 (a1 + 1)
  let lower ← int32 (a1 - 1)
  pure (Int.lor
    (Int.lor (Int.land a1 maskZero)
      (Int.land (Int.land (Int.land upper 15) maskNz) maskPos))
    (Int.land (Int.land (Int.land lower 15) maskNz) (-1 - maskPos)))

/-! ## `ntt.c` -/

def nttButterfly (zeta : Int) (count j : Nat) (a : Poly) : Option Poly := do
  let t ← montgomeryReduce (zeta * a.coeff (j + count))
  let difference ← int32 (a.coeff j - t)
  let a := a.assign (j + count) difference
  let sum ← int32 (a.coeff j + t)
  pure (a.assign j sum)

def invNttButterfly (zeta : Int) (count j : Nat) (a : Poly) : Option Poly := do
  let t := a.coeff j
  let sum ← int32 (t + a.coeff (j + count))
  let a := a.assign j sum
  let difference ← int32 (t - a.coeff (j + count))
  let a := a.assign (j + count) difference
  let product ← montgomeryReduce (zeta * a.coeff (j + count))
  pure (a.assign (j + count) product)

def butterflies (butterfly : (count j : Nat) → Poly → Option Poly)
    (count start : Nat) (a : Poly) : Option Poly :=
  (List.range' start count).foldlM (fun a j => butterfly count j a) a

def nttLayer (count : Nat) (state : Nat × Poly) : Option (Nat × Poly) :=
  (List.range (128 / count)).foldlM (fun (k, a) block => do
    let k := k + 1
    let a ← butterflies (nttButterfly (zetas[k]?.getD 0)) count (2 * count * block) a
    pure (k, a)) state

def ntt (a : Poly) : Option Poly := do
  let state ← [128, 64, 32, 16, 8, 4, 2, 1].foldlM (fun state count =>
    nttLayer count state) (0, a)
  pure state.2

def invNttLayer (count : Nat) (state : Nat × Poly) : Option (Nat × Poly) :=
  (List.range (128 / count)).foldlM (fun (k, a) block => do
    let k := k - 1
    let zeta ← int32 (-(zetas[k]?.getD 0))
    let a ← butterflies (invNttButterfly zeta) count (2 * count * block) a
    pure (k, a)) state

def mapPoly (f : Int → Option Int) (a : Poly) : Option Poly :=
  collect fun index => f a[index]

def zipPoly (f : Int → Int → Option Int) (a b : Poly) : Option Poly :=
  collect fun index => f a[index] b[index]

/-- Only takes coefficients below `q` in absolute value. -/
def invNttToMont (a : Poly) : Option Poly := do
  require (Within (1 - qConst) qConst a)
  let state ← [1, 2, 4, 8, 16, 32, 64, 128].foldlM (fun state count =>
    invNttLayer count state) (256, a)
  mapPoly (fun value => montgomeryReduce (41978 * value)) state.2

/-! ## The pointwise part of `poly.c` -/

def polyCAddq (a : Poly) : Option Poly := mapPoly cAddq a

def polyReduce (a : Poly) : Option Poly := mapPoly reduce32 a

def polyAdd (a b : Poly) : Option Poly :=
  zipPoly (fun left right => int32 (left + right)) a b

def polySub (a b : Poly) : Option Poly :=
  zipPoly (fun left right => int32 (left - right)) a b

def polyShiftL (a : Poly) : Option Poly :=
  mapPoly (fun value => int32 (value * 2 ^ 13)) a

def polyPointwiseMontgomery (a b : Poly) : Option Poly :=
  zipPoly (fun left right => montgomeryReduce (left * right)) a b

def violates (bound value : Int) : Option Nat := do
  let t := sar value 31
  let double ← int32 (2 * value)
  let t ← int32 (value - Int.land t double)
  let distance ← int32 (t - bound)
  pure (1 ^^^ (u32 distance >>> 31))

def polyChkNorm (a : Poly) (bound : Int) : Option Int :=
  if bound > (qConst - 1) / 8 then some 1
  else do
    let violations ← collect fun index : Fin 256 => violates bound a[index]
    let violation := violations.foldl (fun violation value => violation ||| value) 0
    pure (violation &&& 1 : Nat)

/-- The loop of `poly_vec_l_chk_norm` and `poly_vec_k_chk_norm`, which stops at
the first row that violates the bound; here the other rows are tested too. -/
def polyVecChkNorm {rows : Nat} (v : Vector Poly rows) (bound : Int) : Option Int := do
  let norms ← collect fun i : Fin rows => polyChkNorm v[i] bound
  pure (if norms.any fun norm => norm != 0 then 1 else 0)

/-! ## What passes -/

section Scalars

variable {a : Int}

theorem montgomeryReduce_eq (bound : |a| ≤ montgomeryLimit) :
    montgomeryReduce a = some (Mldsa87.montgomeryReduce a) := by
  have word := i32_inInt32 a
  have factor := i32_inInt32 (i32 a * qInv)
  have exactly := montgomeryReduce_exact bound
  have small := montgomeryReduce_abs_le_q bound
  have limit : montgomeryLimit = 17996808470921216 := rfl
  have modulus : qConst = 8380417 := rfl
  have inverse : qInv = 58728449 := rfl
  rw [limit] at bound
  have product : |i32 a * qInv| < 9223372036854775808 := by
    rw [InInt32] at word
    rw [inverse, abs_lt]
    omega
  have multiple : |i32 (i32 a * qInv) * qConst| < 9223372036854775808 := by
    rw [InInt32] at factor
    rw [modulus, abs_lt]
    omega
  have difference : |a - i32 (i32 a * qInv) * qConst| < 9223372036854775808 := by
    rw [InInt32] at factor
    rw [abs_le] at bound
    rw [modulus, abs_lt]
    omega
  have quotient : InInt32 (sar (a - i32 (i32 a * qInv) * qConst) 32) := by
    rw [modulus, abs_le] at small
    rw [sar, ← exactly.1, InInt32]
    omega
  simp only [montgomeryReduce, require_eq (limit ▸ bound), int64_eq product,
    int64_eq multiple, int64_eq difference, int32_eq quotient, Option.bind_eq_bind,
    Option.bind_some]
  rfl

theorem reduce32_eq (bound : |a| ≤ reduceLimit) :
    reduce32 a = some (Mldsa87.reduce32 a) := by
  have modulus : qConst = 8380417 := rfl
  rw [reduceLimit, abs_le] at bound
  have sum : InInt32 (a + 4194304) := ⟨by omega, by omega⟩
  have multiple : InInt32 (sar (a + 4194304) 23 * qConst) := by
    rw [sar, modulus, InInt32]
    omega
  have difference : InInt32 (a - sar (a + 4194304) 23 * qConst) := by
    rw [sar, modulus, InInt32]
    omega
  simp only [reduce32, Mldsa87.reduce32, int32_eq sum, i32_of_inInt32 sum,
    int32_eq multiple, i32_of_inInt32 multiple, int32_eq difference,
    Option.bind_eq_bind, Option.bind_some]

theorem cAddq_eq (bound : |a| ≤ qConst) : cAddq a = some (Mldsa87.cAddq a) := by
  have range : InInt32 (a + Int.land (sar a 31) qConst) := by
    rw [qConst, abs_le] at bound
    rw [sar_31 ⟨by omega, by omega⟩]
    split
    · rw [neg_one_land, qConst, InInt32]
      omega
    · rw [zero_land, InInt32]
      omega
  exact int32_eq range

theorem power2Round_eq (nonneg : 0 ≤ a) (bound : a < qConst) :
    power2Round a = some (Mldsa87.power2Round a) := by
  have modulus : qConst = 8380417 := rfl
  have inRange : 0 ≤ a ∧ a < qConst := ⟨nonneg, bound⟩
  rw [modulus] at bound
  have sum : InInt32 (a + 4096) := ⟨by omega, by omega⟩
  have rounded : InInt32 (a + 4096 - 1) := ⟨by omega, by omega⟩
  have multiple : InInt32 (sar (a + 4096 - 1) 13 * 2 ^ 13) := by
    rw [sar, InInt32]
    omega
  have difference : InInt32 (a - sar (a + 4096 - 1) 13 * 2 ^ 13) := by
    rw [sar, InInt32]
    omega
  simp only [power2Round, Mldsa87.power2Round, shl, require_eq inRange, int32_eq sum,
    i32_of_inInt32 sum, int32_eq rounded, i32_of_inInt32 rounded, int32_eq multiple,
    i32_of_inInt32 multiple, int32_eq difference, Option.bind_eq_bind, Option.bind_some,
    Option.pure_def]

private theorem land_sign {value : Int} (range : InInt32 value) :
    Int.land (sar value 31) qConst = 0 ∨ Int.land (sar value 31) qConst = qConst := by
  rw [sar_31 range]
  split
  · exact Or.inr (neg_one_land _)
  · exact Or.inl (zero_land _)

theorem decompose_eq (nonneg : 0 ≤ a) (bound : a < qConst) :
    decompose a = some (Mldsa87.decompose a) := by
  have modulus : qConst = 8380417 := rfl
  have inRange : 0 ≤ a ∧ a < qConst := ⟨nonneg, bound⟩
  rw [modulus] at bound
  have sum : InInt32 (a + 127) := ⟨by omega, by omega⟩
  have product : InInt32 (sar (a + 127) 7 * 1025) := by
    rw [sar, InInt32]
    omega
  have rounded : InInt32 (sar (a + 127) 7 * 1025 + 2097152) := by
    rw [sar, InInt32]
    omega
  have quotient : 0 ≤ sar (sar (a + 127) 7 * 1025 + 2097152) 22 := by
    rw [sar, sar]
    omega
  have masked : Int.land (sar (sar (a + 127) 7 * 1025 + 2097152) 22) 15 =
      sar (sar (a + 127) 7 * 1025 + 2097152) 22 % 16 := land_mask quotient 4
  simp only [decompose, Mldsa87.decompose, require_eq inRange, int32_eq sum,
    i32_of_inInt32 sum, int32_eq product, i32_of_inInt32 product, int32_eq rounded,
    i32_of_inInt32 rounded, masked, Option.bind_eq_bind, Option.bind_some]
  -- the high part is below 16 whatever it is
  generalize sar (sar (a + 127) 7 * 1025 + 2097152) 22 = high at *
  have double : InInt32 (high % 16 * 2) := ⟨by omega, by omega⟩
  have multiple : InInt32 (high % 16 * 2 * gamma2) := by
    rw [gamma2, InInt32]
    omega
  have low : InInt32 (a - high % 16 * 2 * gamma2) := by
    rw [gamma2, InInt32]
    omega
  have distance : InInt32 ((qConst - 1) / 2 - (a - high % 16 * 2 * gamma2)) := by
    rw [modulus, gamma2, InInt32]
    omega
  have centred : InInt32 (a - high % 16 * 2 * gamma2 - Int.land
      (sar ((qConst - 1) / 2 - (a - high % 16 * 2 * gamma2)) 31) qConst) := by
    have sign := land_sign distance
    rw [gamma2] at *
    rw [InInt32]
    omega
  simp only [int32_eq double, i32_of_inInt32 double, int32_eq multiple,
    i32_of_inInt32 multiple, int32_eq low, i32_of_inInt32 low, int32_eq distance,
    i32_of_inInt32 distance, int32_eq centred, Option.bind_some, Option.pure_def]

theorem makeHint_eq {a0 a1 : Int} (low : |a0| < 1073741824) (high : |a1| < 1073741824) :
    makeHint a0 a1 = some (Mldsa87.makeHint a0 a1) := by
  rw [abs_lt] at low high
  have above : InInt32 (gamma2 - a0) := by
    rw [gamma2, InInt32]
    omega
  have below : InInt32 (a0 + gamma2) := by
    rw [gamma2, InInt32]
    omega
  have negated : InInt32 (-(a0 + gamma2)) := by
    rw [gamma2, InInt32]
    omega
  have opposite : InInt32 (-a1) := ⟨by omega, by omega⟩
  simp only [makeHint, Mldsa87.makeHint, int32_eq above, int32_eq below,
    i32_of_inInt32 below, int32_eq negated, int32_eq opposite, Option.bind_eq_bind,
    Option.bind_some, Option.pure_def]

private theorem topBit_le (value : Int) : u32 value >>> 31 ≤ 1 := by
  rw [u32, Nat.shiftRight_eq_div_pow]
  omega

theorem useHint_eq {hint : Int} (nonneg : 0 ≤ a) (bound : a < qConst)
    (bit : hint = 0 ∨ hint = 1) :
    useHint a hint = some (Mldsa87.useHint a hint) := by
  have parts : 0 ≤ (Mldsa87.decompose a).1 ∧ (Mldsa87.decompose a).1 ≤ 15 ∧
      |(Mldsa87.decompose a).2| ≤ 261888 := by
    rw [abs_le]
    have cases := decompose_cases nonneg bound
    omega
  obtain ⟨highNonneg, highBound, lowBound⟩ := parts
  rw [abs_le] at lowBound
  have opposite : InInt32 (-hint) := ⟨by omega, by omega⟩
  have negated : InInt32 (-(Mldsa87.decompose a).2) := ⟨by omega, by omega⟩
  have isZero := topBit_le (Int.lor hint (i32 (-hint)))
  have isPositive := topBit_le (i32 (-(Mldsa87.decompose a).2))
  have upper : InInt32 ((Mldsa87.decompose a).1 + 1) := ⟨by omega, by omega⟩
  have lower : InInt32 ((Mldsa87.decompose a).1 - 1) := ⟨by omega, by omega⟩
  simp only [useHint, Mldsa87.useHint, decompose_eq nonneg bound, int32_eq opposite,
    int32_eq negated, int32_eq upper, i32_of_inInt32 upper, int32_eq lower,
    i32_of_inInt32 lower, Option.bind_eq_bind, Option.bind_some, Option.pure_def]
  -- the masks are made of two bits
  generalize u32 (Int.lor hint (i32 (-hint))) >>> 31 = nonzero at *
  generalize u32 (i32 (-(Mldsa87.decompose a).2)) >>> 31 = positive at *
  have hintZero : InInt32 (((1 : ℕ) : Int) - nonzero) := ⟨by omega, by omega⟩
  have maskZero : InInt32 (-(((1 : ℕ) : Int) - nonzero)) := ⟨by omega, by omega⟩
  have nonZero : InInt32 (1 - (((1 : ℕ) : Int) - nonzero)) := ⟨by omega, by omega⟩
  have maskNz : InInt32 (-(1 - (((1 : ℕ) : Int) - nonzero))) := ⟨by omega, by omega⟩
  have maskPos : InInt32 (-(positive : Int)) := ⟨by omega, by omega⟩
  simp only [int32_eq hintZero, i32_of_inInt32 hintZero, int32_eq maskZero,
    i32_of_inInt32 maskZero, int32_eq nonZero, i32_of_inInt32 nonZero, int32_eq maskNz,
    i32_of_inInt32 maskNz, int32_eq maskPos, i32_of_inInt32 maskPos, Option.bind_some]

end Scalars

/-! ## Coefficient by coefficient -/

section Pointwise

variable {a b : Poly} {left right : Int}

theorem mapPoly_eq {f : Int → Option Int} {g : Int → Int}
    (each : ∀ index < 256, f (a.coeff index) = some (g (a.coeff index))) :
    mapPoly f a = some (a.map g) := by
  have entries : collect (fun index : Fin 256 => f a[index]) =
      some (Vector.ofFn fun index : Fin 256 => g a[index]) := by
    apply collect_eq
    intro index
    have entry := each index index.isLt
    rwa [coeff_eq_getElem] at entry
  have list : (Vector.ofFn fun index : Fin 256 => g a[index]) = a.map g := by
    ext index bound
    simp
  rw [mapPoly, entries, list]

theorem zipPoly_eq {f : Int → Int → Option Int} {g : Int → Int → Int}
    (each : ∀ index < 256, f (a.coeff index) (b.coeff index) =
      some (g (a.coeff index) (b.coeff index))) :
    zipPoly f a b = some (Vector.zipWith g a b) := by
  have entries : collect (fun index : Fin 256 => f a[index] b[index]) =
      some (Vector.ofFn fun index : Fin 256 => g a[index] b[index]) := by
    apply collect_eq
    intro index
    have entry := each index index.isLt
    rwa [coeff_eq_getElem, coeff_eq_getElem] at entry
  have list : (Vector.ofFn fun index : Fin 256 => g a[index] b[index]) =
      Vector.zipWith g a b := by
    ext index bound
    simp
  rw [zipPoly, entries, list]

theorem polyReduce_eq (bounded : a.Bounded reduceLimit) :
    polyReduce a = some (Mldsa87.polyReduce a) :=
  mapPoly_eq fun index bound => reduce32_eq (bounded index bound)

theorem polyCAddq_eq (bounded : a.Bounded qConst) :
    polyCAddq a = some (Mldsa87.polyCAddq a) :=
  mapPoly_eq fun index bound => cAddq_eq (bounded index bound)

theorem polyAdd_eq (aBound : a.Bounded left) (bBound : b.Bounded right)
    (small : left + right < 2147483648) :
    polyAdd a b = some (Mldsa87.polyAdd a b) := by
  apply zipPoly_eq
  intro index bound
  have first := aBound index bound
  have second := bBound index bound
  rw [abs_le] at first second
  exact int32_eq ⟨by omega, by omega⟩

theorem polySub_eq (aBound : a.Bounded left) (bBound : b.Bounded right)
    (small : left + right < 2147483648) :
    polySub a b = some (Mldsa87.polySub a b) := by
  apply zipPoly_eq
  intro index bound
  have first := aBound index bound
  have second := bBound index bound
  rw [abs_le] at first second
  exact int32_eq ⟨by omega, by omega⟩

theorem polyShiftL_eq (range : Within 0 1024 a) :
    polyShiftL a = some (Mldsa87.polyShiftL a) := by
  apply mapPoly_eq
  intro index bound
  have coefficient := range index bound
  apply int32_eq
  rw [InInt32]
  omega

theorem polyPointwiseMontgomery_eq (aBound : a.Bounded left) (bBound : b.Bounded right)
    (product : left * right ≤ montgomeryLimit) :
    polyPointwiseMontgomery a b = some (Mldsa87.polyPointwiseMontgomery a b) :=
  zipPoly_eq fun index bound => montgomeryReduce_eq
    (abs_mul_le_montgomeryLimit (aBound index bound) (bBound index bound) product)

theorem violates_eq {bound value : Int} (small : |value| < 1073741824)
    (nonneg : 0 ≤ bound) (limit : bound < 1073741824) :
    violates bound value = some (Mldsa87.violates bound value) := by
  rw [abs_lt] at small
  have word : InInt32 value := ⟨by omega, by omega⟩
  have double : InInt32 (2 * value) := ⟨by omega, by omega⟩
  have masked : Int.land (sar value 31) (2 * value) = if value < 0 then 2 * value else 0 := by
    rw [sar_31 word]
    split
    · exact neg_one_land _
    · exact zero_land _
  have magnitude : InInt32 (value - Int.land (sar value 31) (2 * value)) := by
    rw [masked, InInt32]
    split <;> omega
  have distance :
      InInt32 (value - Int.land (sar value 31) (2 * value) - bound) := by
    rw [masked, InInt32]
    split <;> omega
  simp only [violates, Mldsa87.violates, int32_eq double, i32_of_inInt32 double,
    int32_eq magnitude, i32_of_inInt32 magnitude, int32_eq distance,
    Option.bind_eq_bind, Option.bind_some, Option.pure_def]

theorem polyChkNorm_eq {bound : Int} (bounded : a.Bounded 1073741823)
    (nonneg : 0 ≤ bound) : polyChkNorm a bound = some (Mldsa87.polyChkNorm a bound) := by
  rw [polyChkNorm, Mldsa87.polyChkNorm]
  by_cases large : bound > (qConst - 1) / 8
  · rw [if_pos large, if_pos large]
  · rw [if_neg large, if_neg large]
    have limit : bound < 1073741824 := by
      rw [qConst] at large
      omega
    have entries : collect (fun index : Fin 256 => violates bound a[index]) =
        some (Vector.ofFn fun index : Fin 256 => Mldsa87.violates bound a[index]) := by
      apply collect_eq
      intro index
      have coefficient := bounded index index.isLt
      rw [coeff_eq_getElem] at coefficient
      exact violates_eq (by omega) nonneg limit
    have list : (Vector.ofFn fun index : Fin 256 => Mldsa87.violates bound a[index]) =
        a.map (Mldsa87.violates bound) := by
      ext index bound
      simp
    rw [entries, list]
    simp only [Option.bind_eq_bind, Option.bind_some, Option.pure_def, Vector.foldl_map]

theorem polyVecChkNorm_eq {rows : ℕ} {v : Vector Poly rows} {bound : Int}
    (bounded : ∀ i : Fin rows, v[i].Bounded 1073741823) (nonneg : 0 ≤ bound) :
    polyVecChkNorm v bound = some (Mldsa87.polyVecChkNorm v bound) := by
  have entries : collect (fun i : Fin rows => polyChkNorm v[i] bound) =
      some (Vector.ofFn fun i : Fin rows => Mldsa87.polyChkNorm v[i] bound) :=
    collect_eq fun i => polyChkNorm_eq (bounded i) nonneg
  have list : (Vector.ofFn fun i : Fin rows => Mldsa87.polyChkNorm v[i] bound) =
      v.map fun row => Mldsa87.polyChkNorm row bound := by
    ext index bound
    simp
  rw [polyVecChkNorm, Mldsa87.polyVecChkNorm, entries, list]
  simp only [Option.bind_eq_bind, Option.bind_some, Option.pure_def, Vector.any_map]
  rfl

end Pointwise

end LedgerQrl.Mldsa87.Guarded
