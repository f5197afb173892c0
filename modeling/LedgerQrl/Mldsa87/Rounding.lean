import LedgerQrl.Mldsa87.Reduce

namespace LedgerQrl.Mldsa87

open Foundation

/-! # Rounding

The functions of `rounding.c` select with masks; here they are compared with
the definitions by a centred remainder. -/

namespace Spec

/-- The representative of `r` modulo `alpha` in `(-alpha / 2, alpha / 2]`. -/
def centredMod (r alpha : ℤ) : ℤ :=
  if 2 * (r % alpha) ≤ alpha then r % alpha else r % alpha - alpha

/-- High and low part for the dropped bits of `t`. -/
def power2Round (r : Zq) : ℤ × ℤ :=
  let low := centredMod r.val 8192
  ((r.val - low) / 8192, low)

/-- High and low part for the commitment `w`. -/
def decompose (r : Zq) : ℤ × ℤ :=
  let low := centredMod r.val (2 * gamma2)
  if r.val - low = qConst - 1 then (0, low - 1)
  else ((r.val - low) / (2 * gamma2), low)

/-- Whether adding `low` to the value with high part `high` changes it. -/
def makeHint (low : Zq) (high : ℤ) : Bool :=
  (decompose ((high * (2 * gamma2) : ℤ) + low)).1 ≠ high

/-- The high part that a hint corrects. -/
def useHint (hint : Bool) (r : Zq) : ℤ :=
  let parts := decompose r
  if hint then
    if 0 < parts.2 then (parts.1 + 1) % 16 else (parts.1 - 1) % 16
  else parts.1

end Spec

/-! ## Representatives -/

theorem val_cast {a : Int} (nonneg : 0 ≤ a) (bound : a < qConst) :
    ((a : Zq).val : ℤ) = a := by
  rw [ZMod.val_intCast]
  exact Int.emod_eq_of_lt nonneg bound

theorem eq_val_of_cast {a : Int} {x : Zq} (nonneg : 0 ≤ a) (bound : a < qConst)
    (cast : (a : Zq) = x) : a = x.val := by
  rw [← cast, val_cast nonneg bound]

theorem val_range (x : Zq) : 0 ≤ (x.val : ℤ) ∧ (x.val : ℤ) < qConst := by
  have bound := ZMod.val_lt x
  rw [qConst]
  omega

theorem cast_val (x : Zq) : (((x.val : ℤ)) : Zq) = x := by
  rw [Int.cast_natCast]
  exact ZMod.natCast_zmod_val x

theorem valMinAbs_cast {a : Int} (bound : 2 * |a| < qConst) :
    (a : Zq).valMinAbs = a := by
  rw [ZMod.valMinAbs_spec]
  refine ⟨rfl, ?_⟩
  rcases abs_cases a with ⟨equal, _⟩ | ⟨equal, _⟩ <;>
    rw [equal, qConst] at bound <;>
    exact ⟨by push_cast; omega, by push_cast; omega⟩

/-! ## `power2_round` and `decompose` -/

/-- The centred remainder differs by a multiple and lies in its interval. -/
theorem centredMod_spec (r : ℤ) {alpha : ℤ} (positive : 0 < alpha) :
    ∃ k, r = alpha * k + Spec.centredMod r alpha ∧
      -alpha < 2 * Spec.centredMod r alpha ∧
      2 * Spec.centredMod r alpha ≤ alpha := by
  have split := Int.mul_ediv_add_emod r alpha
  have nonneg := Int.emod_nonneg r positive.ne'
  have bound := Int.emod_lt_of_pos r positive
  rw [Spec.centredMod]
  split_ifs
  · exact ⟨r / alpha, by omega, by omega, by omega⟩
  · refine ⟨r / alpha + 1, ?_, by omega, by omega⟩
    rw [mul_add, mul_one]
    omega

theorem power2Round_eq {a : Int} (nonneg : 0 ≤ a) (bound : a < qConst) :
    power2Round a = Spec.power2Round (a : Zq) := by
  rw [qConst] at bound
  have high : i32 (i32 (a + 4096) - 1) = a + 4095 := by
    rw [i32, i32]
    omega
  have low : ∀ b : Int, 0 ≤ b → b ≤ 1023 → shl b 13 = b * 8192 := by
    intro b _ _
    rw [shl, i32]
    omega
  rw [power2Round, Spec.power2Round, val_cast nonneg bound, Spec.centredMod]
  simp only [high, sar, Int.reducePow]
  rw [low _ (by omega) (by omega), i32_of_inInt32 ⟨by omega, by omega⟩]
  refine Prod.ext ?_ ?_
  · dsimp only
    split <;> omega
  · dsimp only
    split <;> omega

/-- The fixed-point quotient is the nearest multiple of `2 * gamma2`. -/
private theorem decompose_quotient {a : Int} (nonneg : 0 ≤ a) (bound : a < 8380417) :
    ∃ d, ((a + 127) / 128 * 1025 + 2097152) / 4194304 = d ∧ 0 ≤ d ∧ d ≤ 16 ∧
      -261888 < a - d * 523776 ∧ a - d * 523776 ≤ 261888 := by
  obtain ⟨d, quotient⟩ :
      ∃ d, ((a + 127) / 128 * 1025 + 2097152) / 4194304 = d := ⟨_, rfl⟩
  have lower : 0 ≤ d := by omega
  have upper : d ≤ 16 := by omega
  refine ⟨d, quotient, lower, upper, ?_⟩
  interval_cases d <;> omega

/-- The two cases of a decomposition: the low part is centred, or the value is
one of the last below `q` and its high part wraps around to zero. -/
theorem decompose_cases {a : Int} (nonneg : 0 ≤ a) (bound : a < qConst) :
    (0 ≤ (decompose a).1 ∧ (decompose a).1 ≤ 15 ∧
        a = (decompose a).1 * 523776 + (decompose a).2 ∧
        -261888 < (decompose a).2 ∧ (decompose a).2 ≤ 261888) ∨
      ((decompose a).1 = 0 ∧ a = (decompose a).2 + 8380417 ∧
        -261888 ≤ (decompose a).2 ∧ (decompose a).2 < 0) := by
  rw [qConst] at bound
  obtain ⟨d, quotient, lower, upper, below, above⟩ :=
    decompose_quotient nonneg bound
  have first : i32 (a + 127) = a + 127 := i32_of_inInt32 ⟨by omega, by omega⟩
  have second : i32 (i32 ((a + 127) / 128 * 1025) + 2097152) =
      (a + 127) / 128 * 1025 + 2097152 := by
    rw [i32, i32]
    omega
  have masked : Int.land d 15 = d % 16 := land_mask lower 4
  simp only [decompose, sar, Int.reducePow, first, second, quotient, masked,
    qConst, gamma2]
  have wrapped : d % 16 = if d = 16 then 0 else d := by split <;> omega
  have lowWord : ∀ c : Int, 0 ≤ c → c ≤ 15 →
      i32 (a - i32 (i32 (c * 2) * 261888)) = a - c * 523776 := by
    intro c _ _
    rw [i32, i32, i32]
    omega
  have mask : ∀ c : Int, -261888 ≤ c → c ≤ 8380416 →
      i32 ((8380417 - 1) / 2 - c) / 2147483648 =
        if c > 4190208 then -1 else 0 := by
    intro c _ _
    rw [i32_of_inInt32 ⟨by omega, by omega⟩]
    split <;> omega
  rw [wrapped]
  split
  · right
    rw [lowWord 0 (by omega) (by omega), mask _ (by omega) (by omega),
      if_pos (by omega), neg_one_land, i32_of_inInt32 ⟨by omega, by omega⟩]
    omega
  · left
    rw [lowWord d (by omega) (by omega), mask _ (by omega) (by omega),
      if_neg (by omega), zero_land, i32_of_inInt32 ⟨by omega, by omega⟩]
    omega

theorem cast_decompose {a : Int} (nonneg : 0 ≤ a) (bound : a < qConst) :
    (a : Zq) = (((decompose a).1 * (2 * gamma2) + (decompose a).2 : Int) : Zq) := by
  rw [cast_eq_cast_iff, gamma2]
  rcases decompose_cases nonneg bound with ⟨_, _, exactly, _, _⟩ | ⟨zero, wraps, _, _⟩
  · omega
  · omega

theorem decompose_eq {a : Int} (nonneg : 0 ≤ a) (bound : a < qConst) :
    decompose a = Spec.decompose (a : Zq) := by
  have cases := decompose_cases nonneg bound
  obtain ⟨k, exactly, lower, upper⟩ := centredMod_spec a (show 0 < 2 * gamma2 by decide)
  rw [Spec.decompose, val_cast nonneg bound]
  generalize Spec.centredMod a (2 * gamma2) = low at *
  split <;> simp only [gamma2, qConst, Int.reduceMul, Int.reduceSub] at * <;>
    refine Prod.ext ?_ ?_ <;> dsimp only <;> omega

theorem spec_decompose_high_range (r : Zq) :
    0 ≤ (Spec.decompose r).1 ∧ (Spec.decompose r).1 ≤ 15 := by
  have range := val_range r
  have cases := decompose_cases range.1 range.2
  rw [decompose_eq range.1 range.2, cast_val] at cases
  omega

theorem spec_decompose_low_abs (r : Zq) : |(Spec.decompose r).2| ≤ gamma2 := by
  have range := val_range r
  have cases := decompose_cases range.1 range.2
  rw [decompose_eq range.1 range.2, cast_val] at cases
  rw [gamma2, abs_le]
  omega

theorem spec_decompose_sum (r : Zq) :
    r = (((Spec.decompose r).1 * (2 * gamma2) : ℤ) : Zq) + ((Spec.decompose r).2 : Zq) := by
  have range := val_range r
  have sum := cast_decompose range.1 range.2
  rw [decompose_eq range.1 range.2, cast_val] at sum
  rw [← Int.cast_add]
  exact sum

/-! ## `make_hint` and `use_hint` -/

private theorem hintBits (gt lt ne nz : Prop) [Decidable gt] [Decidable lt]
    [Decidable ne] [Decidable nz] :
    (((if gt then 1 else 0) ||| (if lt then 1 else 0) |||
        ((1 - if ne then 1 else 0) &&& (if nz then 1 else 0))) &&& 1 : ℕ) =
      if gt ∨ lt ∨ (¬ne ∧ nz) then 1 else 0 := by
  by_cases gt <;> by_cases lt <;> by_cases ne <;> by_cases nz <;> simp [*]

/-- The branchless test for a non-zero word. -/
private theorem nonzeroBit {value : Int} (bound : |value| < 2147483648) :
    u32 (Int.lor value (i32 (-value))) >>> 31 = if value ≠ 0 then 1 else 0 := by
  have negated : i32 (-value) = -value := i32_of_abs_lt (by rwa [abs_neg])
  rw [negated, u32_shiftRight_31 (lor_neg_self_inInt32 bound)]
  simp only [lor_neg_self_neg_iff]

theorem makeHint_eq {a0 a1 : Int} (low : |a0| < 1073741824)
    (high : |a1| < 1073741824) :
    makeHint a0 a1 =
      if a0 > gamma2 ∨ a0 < -gamma2 ∨ (a0 = -gamma2 ∧ a1 ≠ 0) then 1 else 0 := by
  have sum : i32 (a0 + gamma2) = a0 + gamma2 := by
    rw [gamma2]
    rw [abs_lt] at low
    exact i32_of_inInt32 ⟨by omega, by omega⟩
  have difference : i32 (gamma2 - a0) = gamma2 - a0 := by
    rw [gamma2]
    rw [abs_lt] at low
    exact i32_of_inInt32 ⟨by omega, by omega⟩
  have sumRange : |a0 + gamma2| < 2147483648 := by
    rw [abs_lt] at low ⊢
    rw [gamma2]
    omega
  have gt : u32 (gamma2 - a0) >>> 31 = if a0 > gamma2 then 1 else 0 := by
    rw [u32_shiftRight_31 (by rw [abs_lt] at low; rw [gamma2]; exact ⟨by omega, by omega⟩)]
    simp only [sub_neg, gt_iff_lt]
  have lt : u32 (a0 + gamma2) >>> 31 = if a0 < -gamma2 then 1 else 0 := by
    rw [u32_shiftRight_31 (by rw [abs_lt] at sumRange; exact ⟨by omega, by omega⟩)]
    simp only [← lt_neg_iff_add_neg]
  have eq : u32 (Int.lor (a0 + gamma2) (i32 (-(a0 + gamma2)))) >>> 31 =
      if a0 ≠ -gamma2 then 1 else 0 := by
    rw [nonzeroBit sumRange]
    simp only [ne_eq, add_eq_zero_iff_eq_neg]
  have nz := nonzeroBit (high.trans (by norm_num))
  rw [makeHint]
  simp only [sum, difference, gt, lt, eq, nz, hintBits,
    not_not, ne_eq]

private theorem parts_representative (high low : Int) :
    ∃ k r : Int, high * (2 * gamma2) + low = r + qConst * k ∧
      (((high * (2 * gamma2) : ℤ) : Zq) + (low : Zq)) = (r : Zq) ∧
      0 ≤ r ∧ r < qConst := by
  refine ⟨(high * (2 * gamma2) + low) / qConst,
    (high * (2 * gamma2) + low) % qConst, (Int.emod_add_mul_ediv _ _).symm, ?_,
    Int.emod_nonneg _ (by decide), Int.emod_lt_of_pos _ (by decide)⟩
  rw [← Int.cast_add, cast_eq_cast_iff]
  have split := Int.emod_add_mul_ediv (high * (2 * gamma2) + low) qConst
  rw [qConst] at split ⊢
  omega

/-- The hint is set exactly when the low part carries into the high part. -/
theorem makeHint_spec {a0 a1 : Int} (low : |a0| < 2 * gamma2) (nonneg : 0 ≤ a1)
    (bound : a1 ≤ 15) :
    makeHint a0 a1 = if Spec.makeHint (a0 : Zq) a1 then 1 else 0 := by
  rw [makeHint_eq (low.trans (by decide)) (by rw [abs_lt]; omega),
    Spec.makeHint]
  obtain ⟨k, r, sum, cast, rNonneg, rBound⟩ := parts_representative a1 a0
  have cases := decompose_cases rNonneg rBound
  rw [cast, ← decompose_eq rNonneg rBound]
  simp only [decide_eq_true_eq]
  refine if_congr ?_ rfl rfl
  rw [abs_lt] at low
  simp only [gamma2, qConst, Int.reduceMul] at *
  have wraps : k = -1 ∨ k = 0 ∨ k = 1 := by omega
  rcases wraps with rfl | rfl | rfl <;> omega

/-- A hint made for a low part recovers the high part. -/
theorem useHint_makeHint {high low : Int} (small : |low| < 2 * gamma2)
    (nonneg : 0 ≤ high) (bound : high ≤ 15) :
    Spec.useHint (Spec.makeHint (low : Zq) high)
      (((high * (2 * gamma2) : ℤ) : Zq) + (low : Zq)) = high := by
  rw [Spec.useHint, Spec.makeHint]
  obtain ⟨k, r, sum, cast, rNonneg, rBound⟩ := parts_representative high low
  have cases := decompose_cases rNonneg rBound
  rw [cast, ← decompose_eq rNonneg rBound]
  simp only [decide_eq_true_eq]
  rw [abs_lt] at small
  simp only [gamma2, qConst, Int.reduceMul] at *
  have wraps : k = -1 ∨ k = 0 ∨ k = 1 := by omega
  split
  · split <;> rcases wraps with rfl | rfl | rfl <;> omega
  · omega

/-- Without a wrap the masks select one of the three high parts. -/
theorem useHint_eq {a hint : Int} (nonneg : 0 ≤ a) (bound : a < qConst)
    (bit : hint = 0 ∨ hint = 1) :
    useHint a hint = Spec.useHint (hint = 1) (a : Zq) := by
  have cases := decompose_cases nonneg bound
  have up : ∀ c : Int, 0 ≤ c → Int.land c 15 = c % 16 :=
    fun c nonneg => land_mask nonneg 4
  have down : ∀ c : Int, 0 ≤ c → Int.land (c - 1) 15 = (c - 1) % 16 := by
    intro c nonneg
    rcases Int.lt_or_le 0 c with positive | zero
    · exact land_mask (by omega) 4
    · obtain rfl : c = 0 := by omega
      exact neg_one_land 15
  rw [Spec.useHint, ← decompose_eq nonneg bound, useHint]
  generalize decompose a = parts at *
  obtain ⟨high, low⟩ := parts
  dsimp only at cases ⊢
  have highNonneg : 0 ≤ high := by omega
  have negated : i32 (-low) = -low := i32_of_inInt32 ⟨by omega, by omega⟩
  have sign : u32 (-low) >>> 31 = if 0 < low then 1 else 0 := by
    rw [u32_shiftRight_31 ⟨by omega, by omega⟩]
    simp only [neg_neg_iff_pos]
  rw [negated, sign, up (high + 1) (by omega), down high highNonneg]
  rcases bit with rfl | rfl
  · rw [nonzeroBit (by norm_num)]
    simp
  · rw [nonzeroBit (by norm_num)]
    by_cases positive : 0 < low <;> simp [positive]

theorem makeHint_bit {a0 a1 : Int} (low : |a0| < 2 * gamma2) (nonneg : 0 ≤ a1)
    (bound : a1 ≤ 15) : ((makeHint a0 a1 : ℕ) : Int) = 0 ∨ ((makeHint a0 a1 : ℕ) : Int) = 1 := by
  rw [makeHint_spec low nonneg bound]
  split
  · exact .inr rfl
  · exact .inl rfl

/-- The hint for a disturbed low part recovers the high part, and the parts of a
value are in their ranges. -/
theorem useHint_recovers {w : Int} (nonneg : 0 ≤ w) (bound : w < qConst) :
    (∀ e1 e2 : Int, |(decompose w).2 - e1| < gamma2 - beta → |e2| < gamma2 →
      useHint ((w - e1 + e2) % qConst)
        (makeHint ((decompose w).2 - e1 + e2) (decompose w).1) = (decompose w).1) ∧
      (qConst : Int) ∣ w - ((decompose w).1 * 2 * gamma2 + (decompose w).2) ∧
      0 ≤ (decompose w).1 ∧ (decompose w).1 < 16 ∧
      -gamma2 ≤ (decompose w).2 ∧ (decompose w).2 ≤ gamma2 ∧
      ((decompose w).2 = -gamma2 → (decompose w).1 = 0) := by
  have cases := decompose_cases nonneg bound
  have parts := cast_decompose nonneg bound
  have high : 0 ≤ (decompose w).1 ∧ (decompose w).1 ≤ 15 := by omega
  constructor
  · intro e1 e2 first second
    have small : |(decompose w).2 - e1 + e2| < 2 * gamma2 := by
      rw [abs_lt] at first second ⊢
      rw [gamma2, beta] at *
      omega
    have cast : (((w - e1 + e2) % qConst : Int) : Zq) =
        (((decompose w).1 * (2 * gamma2) : ℤ) : Zq) +
          (((decompose w).2 - e1 + e2 : Int) : Zq) := by
      have reduced : (((w - e1 + e2) % qConst : Int) : Zq) = ((w - e1 + e2 : Int) : Zq) := by
        rw [cast_eq_cast_iff]
        exact ⟨(w - e1 + e2) / qConst, by
          have split := Int.emod_add_mul_ediv (w - e1 + e2) qConst
          rw [qConst] at split ⊢
          omega⟩
      rw [reduced]
      push_cast at parts ⊢
      rw [parts]
      ring
    rw [useHint_eq (Int.emod_nonneg _ (by decide)) (Int.emod_lt_of_pos _ (by decide))
        (makeHint_bit small high.1 high.2), cast, makeHint_spec small high.1 high.2]
    have recovered := useHint_makeHint small high.1 high.2
    cases hint : Spec.makeHint (((decompose w).2 - e1 + e2 : Int) : Zq) (decompose w).1 with
    | false =>
        rw [hint] at recovered
        exact recovered
    | true =>
        rw [hint] at recovered
        exact recovered
  · simp only [gamma2, qConst] at *
    refine ⟨?_, high.1, by omega, by omega, by omega, by omega⟩
    omega

theorem useHint_recovers_wrapped :
    (∀ e1 e2 : Int, |(decompose 8380416).2 - e1| < gamma2 - beta → |e2| < gamma2 →
      useHint ((8380416 - e1 + e2) % qConst)
        (makeHint ((decompose 8380416).2 - e1 + e2) (decompose 8380416).1) =
          (decompose 8380416).1) ∧
      (qConst : Int) ∣ 8380416 - ((decompose 8380416).1 * 2 * gamma2 + (decompose 8380416).2) ∧
      0 ≤ (decompose 8380416).1 ∧ (decompose 8380416).1 < 16 ∧
      -gamma2 ≤ (decompose 8380416).2 ∧ (decompose 8380416).2 ≤ gamma2 ∧
      ((decompose 8380416).2 = -gamma2 → (decompose 8380416).1 = 0) :=
  useHint_recovers (by decide) (by decide)

/-! ## The norm check -/

theorem violates_eq {bound value : Int} (small : |value| ≤ 536870912)
    (nonneg : 0 ≤ bound) (limit : bound ≤ 1047552) :
    violates bound value = if |value| < bound then 0 else 1 := by
  have double : i32 (2 * value) = 2 * value := by
    rw [abs_le] at small
    exact i32_of_inInt32 ⟨by omega, by omega⟩
  have absolute : i32 (value - Int.land (sar value 31) (i32 (2 * value))) =
      |value| := by
    have cases := abs_cases value
    rw [double, sar_31 (by rw [abs_le] at small; exact ⟨by omega, by omega⟩)]
    split
    · rw [neg_one_land, i32_of_inInt32 ⟨by omega, by omega⟩]
      omega
    · rw [zero_land, i32_of_inInt32 ⟨by omega, by omega⟩]
      omega
  have positive := abs_nonneg value
  rw [violates]
  simp only [absolute]
  rw [i32_of_inInt32 ⟨by omega, by omega⟩,
    u32_shiftRight_31 ⟨by omega, by omega⟩]
  split <;> split <;> first | rfl | omega

private theorem foldl_or_eq_zero (bits : Int → Nat) (values : List Int)
    (start : Nat) :
    values.foldl (fun violation value => violation ||| bits value) start = 0 ↔
      start = 0 ∧ ∀ value ∈ values, bits value = 0 := by
  induction values generalizing start with
  | nil => simp
  | cons value rest induction =>
      rw [List.foldl_cons, induction, Nat.or_eq_zero_iff]
      simp [and_assoc]

private theorem foldl_or_le_one (bits : Int → Nat) (values : List Int)
    (bit : ∀ value ∈ values, bits value ≤ 1) {start : Nat} (small : start ≤ 1) :
    values.foldl (fun violation value => violation ||| bits value) start ≤ 1 := by
  induction values generalizing start with
  | nil => exact small
  | cons value rest induction =>
      rw [List.foldl_cons]
      apply induction fun other member => bit other (List.mem_cons_of_mem _ member)
      have first := bit value List.mem_cons_self
      exact Nat.or_lt_two_pow (n := 1) (by omega) (by omega) |> Nat.le_of_lt_succ

theorem polyChkNorm_eq_zero_iff {a : Poly} {bound : Int}
    (bounded : a.Bounded 536870912) (nonneg : 0 ≤ bound)
    (limit : bound ≤ 1047552) :
    polyChkNorm a bound = 0 ↔ ∀ index < 256, |a.coeff index| < bound := by
  have each : ∀ value ∈ a.toList,
      violates bound value = if |value| < bound then 0 else 1 := by
    intro value member
    obtain ⟨index, inRange, rfl⟩ := List.getElem_of_mem member
    rw [Vector.length_toList] at inRange
    apply violates_eq _ nonneg limit
    rw [Vector.getElem_toList, ← Poly.coeff_of_lt a inRange]
    exact bounded index inRange
  have all : (∀ value ∈ a.toList, violates bound value = 0) ↔
      ∀ index < 256, |a.coeff index| < bound := by
    constructor
    · intro passes index inRange
      have member : a.coeff index ∈ a.toList := by
        rw [Poly.coeff_of_lt a inRange, Vector.mem_toList_iff]
        exact Vector.getElem_mem inRange
      have passed := passes _ member
      rw [each _ member] at passed
      by_contra exceeds
      rw [if_neg exceeds] at passed
      exact one_ne_zero passed
    · intro below value member
      obtain ⟨index, inRange, rfl⟩ := List.getElem_of_mem member
      rw [each _ member, if_pos]
      rw [Vector.length_toList] at inRange
      rw [Vector.getElem_toList, ← Poly.coeff_of_lt a inRange]
      exact below index inRange
  have accepted : ¬ bound > (qConst - 1) / 8 := by
    rw [qConst]
    omega
  have small := foldl_or_le_one (violates bound) a.toList
    (by intro value member; rw [each value member]; split <;> omega)
    (Nat.zero_le 1)
  rw [← all, polyChkNorm, if_neg accepted, ← Vector.foldl_toList]
  have fold := foldl_or_eq_zero (violates bound) a.toList 0
  generalize a.toList.foldl (fun violation value =>
    violation ||| violates bound value) 0 = total at *
  rw [show (∀ value ∈ a.toList, violates bound value = 0) ↔ total = 0 by
    rw [fold]; simp]
  interval_cases total <;> simp

theorem polyVecChkNorm_eq_zero_iff {rows : ℕ} {v : Vector Poly rows} {bound : Int}
    (bounded : ∀ i : Fin rows, v[i].Bounded 536870912) (nonneg : 0 ≤ bound)
    (limit : bound ≤ 1047552) :
    polyVecChkNorm v bound = 0 ↔
      ∀ i : Fin rows, ∀ index < 256, |v[i].coeff index| < bound := by
  have row : ∀ i : Fin rows, polyChkNorm v[i] bound = 0 ↔
      ∀ index < 256, |v[i].coeff index| < bound :=
    fun i => polyChkNorm_eq_zero_iff (bounded i) nonneg limit
  rw [polyVecChkNorm]
  by_cases passes : ∀ i : Fin rows, polyChkNorm v[i] bound = 0
  · have none : ¬ (v.any fun row => polyChkNorm row bound != 0) = true := by
      rw [Vector.any_eq_true]
      rintro ⟨i, inRange, exceeds⟩
      exact (bne_iff_ne.mp exceeds) (passes ⟨i, inRange⟩)
    rw [if_neg none]
    exact ⟨fun _ i => (row i).mp (passes i), fun _ => rfl⟩
  · obtain ⟨i, exceeds⟩ := not_forall.mp passes
    have some : (v.any fun row => polyChkNorm row bound != 0) = true := by
      rw [Vector.any_eq_true]
      exact ⟨i, i.isLt, bne_iff_ne.mpr exceeds⟩
    rw [if_pos some]
    constructor
    · intro impossible
      exact absurd impossible one_ne_zero
    · intro below
      exact absurd ((row i).mpr (below i)) exceeds

end LedgerQrl.Mldsa87
