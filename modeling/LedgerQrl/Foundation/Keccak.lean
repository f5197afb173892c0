import LedgerQrl.Foundation.Index
import LedgerQrl.Foundation.Sponge
import Mathlib.Algebra.BigOperators.Fin
import Mathlib.Algebra.CharP.Two
import Mathlib.Algebra.Field.ZMod
import Mathlib.Data.Fintype.EquivFin
import Mathlib.Data.ZMod.Basic
import Mathlib.Tactic.LinearCombination
import Mathlib.Tactic.Ring

open scoped BigOperators

namespace LedgerQrl.Foundation.Keccak

/-! # The Keccak permutations

The step mappings on a state of bits with coordinates `x`, `y` and `z`. Every
lane has the same number of bits. -/

abbrev State (size : ℕ) : Type := ZMod 5 → ZMod 5 → ZMod size → ZMod 2

instance sheets_neZero : NeZero 5 := ⟨by decide⟩

section Steps

variable {size : ℕ}

def columnParity (a : State size) (x : ZMod 5) (z : ZMod size) : ZMod 2 :=
  ∑ y, a x y z

def theta (a : State size) : State size := fun x y z =>
  a x y z + columnParity a (x - 1) z + columnParity a (x + 1) (z - 1)

/-- The lane that is rotated in step `step` of `rho`. -/
def rhoLane : ℕ → ZMod 5 × ZMod 5
  | 0 => (1, 0)
  | step + 1 => ((rhoLane step).2, 2 * (rhoLane step).1 + 3 * (rhoLane step).2)

def rhoOffset (x y : ZMod 5) : ℕ :=
  match (List.range 24).find? fun step => rhoLane step = (x, y) with
  | some step => (step + 1) * (step + 2) / 2
  | none => 0

def rho (a : State size) : State size := fun x y z => a x y (z - rhoOffset x y)

def pi (a : State size) : State size := fun x y z => a (x + 3 * y) x z

def chi (a : State size) : State size := fun x y z =>
  a x y z + (a (x + 1) y z + 1) * a (x + 2) y z

def iota (constant : ZMod size → ZMod 2) (a : State size) : State size := fun x y z =>
  if x = 0 ∧ y = 0 then a x y z + constant z else a x y z

def round (constant : ZMod size → ZMod 2) (a : State size) : State size :=
  iota constant (chi (pi (rho (theta a))))

end Steps

/-! ## Round constants -/

/-- A register of eight bits with linear feedback. -/
def feedback (register : BitVec 8) : BitVec 8 :=
  register <<< 1 ^^^ if register.getLsbD 7 then 0x71 else 0

/-- The output of the register after `time` steps. -/
def roundBit (time : ℕ) : Bool := (feedback^[time % 255] 1).getLsbD 0

/-- The constant of a round; only bits whose number is one below a power of two
can be set. -/
def roundConstant (log index : ℕ) (z : ZMod (2 ^ log)) : ZMod 2 :=
  ∑ j ∈ Finset.range (log + 1),
    if z.val + 1 = 2 ^ j ∧ roundBit (j + 7 * index) = true then 1 else 0

/-- The permutation on lanes of `2 ^ log` bits. -/
def permutation (log : ℕ) (a : State (2 ^ log)) : State (2 ^ log) :=
  (List.range (12 + 2 * log)).foldl (fun a index => round (roundConstant log index) a) a

/-! ## The steps are injective -/

section Parities

variable {size : ℕ}

/-- What `theta` does to the parities of the columns, for any two distances. -/
def mix (sheet : ZMod 5) (bit : ZMod size) (parity : ZMod 5 → ZMod size → ZMod 2) :
    ZMod 5 → ZMod size → ZMod 2 := fun x z =>
  parity x z + parity (x - sheet) z + parity (x + sheet) (z - bit)

theorem columnParity_theta (a : State size) :
    columnParity (theta a) = mix 1 1 (columnParity a) := by
  funext x z
  have five : ∀ bit : ZMod 2, (5 : ℕ) • bit = bit := by decide
  simp only [columnParity, theta, mix, Finset.sum_add_distrib, Finset.sum_const,
    Finset.card_univ, ZMod.card, five]

theorem mix_mix (sheet : ZMod 5) (bit : ZMod size)
    (parity : ZMod 5 → ZMod size → ZMod 2) :
    mix sheet bit (mix sheet bit parity) = mix (2 * sheet) (2 * bit) parity := by
  funext x z
  have back : x - sheet - sheet = x - 2 * sheet := by ring
  have forth : x + sheet + sheet = x + 2 * sheet := by ring
  have low : z - bit - bit = z - 2 * bit := by ring
  have two : (2 : ZMod 2) = 0 := by decide
  simp only [mix, back, forth, low, sub_add_cancel, add_sub_cancel_right]
  linear_combination (parity (x - sheet) z + parity (x + sheet) (z - bit) +
    parity x (z - bit)) * two

theorem iterate_mix (parity : ZMod 5 → ZMod size → ZMod 2) (power : ℕ) :
    (mix 1 1)^[2 ^ power] parity = mix (2 ^ power) (2 ^ power) parity := by
  induction power generalizing parity with
  | zero =>
      rw [pow_zero, pow_zero, pow_zero]
      rfl
  | succ power induction =>
      rw [pow_succ, mul_two, Function.iterate_add_apply, induction, induction, mix_mix,
        pow_succ', pow_succ']

/-- Once the bits have gone round, mixing has order three. -/
theorem mix_cubed (parity : ZMod 5 → ZMod size → ZMod 2) :
    mix 1 0 (mix 1 0 (mix 1 0 parity)) = parity := by
  rw [mix_mix]
  funext x z
  have two : (2 : ZMod 2) = 0 := by decide
  have opposite : x - 2 - 1 = x + 2 ∧ x + 2 + 1 = x - 2 ∧ x - 2 + 1 = x - 1 ∧
      x + 2 - 1 = x + 1 := by
    revert x
    decide
  simp only [mix, mul_one, mul_zero, sub_zero, opposite]
  linear_combination (parity (x - 2) z + parity (x + 2) z + parity (x - 1) z +
    parity (x + 1) z) * two

end Parities

section Injective

variable {log : ℕ}

theorem iterate_mix_identity (parity : ZMod 5 → ZMod (2 ^ log) → ZMod 2) :
    (mix 1 1)^[2 ^ (4 * log) + 2 ^ (4 * log) + 2 ^ (4 * log)] parity = parity := by
  have sheets : (2 : ZMod 5) ^ (4 * log) = 1 := by
    have sixteen : (2 : ZMod 5) ^ 4 = 1 := by decide
    rw [pow_mul, sixteen, one_pow]
  have bits : (2 : ZMod (2 ^ log)) ^ (4 * log) = 0 := by
    have whole : ((2 ^ log : ℕ) : ZMod (2 ^ log)) = 0 := ZMod.natCast_self _
    rw [Nat.cast_pow, Nat.cast_two] at whole
    rw [mul_comm, pow_mul, whole]
    exact zero_pow (by decide)
  rw [Function.iterate_add_apply, Function.iterate_add_apply, iterate_mix, iterate_mix,
    iterate_mix, sheets, bits, mix_cubed]

theorem mix_injective :
    Function.Injective (mix 1 1 : (ZMod 5 → ZMod (2 ^ log) → ZMod 2) → _) := by
  obtain ⟨rest, count⟩ := Nat.exists_eq_succ_of_ne_zero
    (Nat.add_pos_right (2 ^ (4 * log) + 2 ^ (4 * log)) (Nat.two_pow_pos (4 * log))).ne'
  have inverse : Function.LeftInverse (mix 1 1)^[rest]
      (mix 1 1 : (ZMod 5 → ZMod (2 ^ log) → ZMod 2) → _) := by
    intro parity
    rw [← Function.iterate_succ_apply, ← count, iterate_mix_identity]
  exact inverse.injective

/-- The parities behind `theta` determine those before it, and these what `theta`
has added. -/
theorem theta_injective : Function.Injective (theta : State (2 ^ log) → _) := by
  intro first second same
  have parity : columnParity first = columnParity second := by
    apply mix_injective
    rw [← columnParity_theta, same, columnParity_theta]
  funext x y z
  have bit := congrFun (congrFun (congrFun same x) y) z
  rw [theta, theta, parity] at bit
  exact add_right_cancel (add_right_cancel bit)

variable {size : ℕ}

theorem rho_injective : Function.Injective (rho : State size → _) := by
  intro first second same
  funext x y z
  have bit := congrFun (congrFun (congrFun same x) y) (z + rhoOffset x y)
  rwa [rho, rho, add_sub_cancel_right] at bit

theorem pi_injective : Function.Injective (pi : State size → _) := by
  intro first second same
  funext x y z
  have source : y + 3 * (2 * (x - y)) = x := by
    revert x y
    decide
  have bit := congrFun (congrFun (congrFun same y) (2 * (x - y))) z
  rwa [pi, pi, source] at bit

theorem chi_row : ∀ a0 a1 a2 a3 a4 b0 b1 b2 b3 b4 : ZMod 2,
    a0 + (a1 + 1) * a2 = b0 + (b1 + 1) * b2 → a1 + (a2 + 1) * a3 = b1 + (b2 + 1) * b3 →
    a2 + (a3 + 1) * a4 = b2 + (b3 + 1) * b4 → a3 + (a4 + 1) * a0 = b3 + (b4 + 1) * b0 →
    a4 + (a0 + 1) * a1 = b4 + (b0 + 1) * b1 →
      a0 = b0 ∧ a1 = b1 ∧ a2 = b2 ∧ a3 = b3 ∧ a4 = b4 := by
  decide

theorem chi_injective : Function.Injective (chi : State size → _) := by
  intro first second same
  have bit : ∀ x y z, chi first x y z = chi second x y z :=
    fun x y z => congrFun (congrFun (congrFun same x) y) z
  funext x y z
  have row := chi_row (first 0 y z) (first 1 y z) (first 2 y z) (first 3 y z)
    (first 4 y z) (second 0 y z) (second 1 y z) (second 2 y z) (second 3 y z)
    (second 4 y z) (bit 0 y z) (bit 1 y z) (bit 2 y z) (bit 3 y z) (bit 4 y z)
  fin_cases x
  · exact row.1
  · exact row.2.1
  · exact row.2.2.1
  · exact row.2.2.2.1
  · exact row.2.2.2.2

theorem iota_injective (constant : ZMod size → ZMod 2) :
    Function.Injective (iota constant) := by
  intro first second same
  funext x y z
  have bit := congrFun (congrFun (congrFun same x) y) z
  rw [iota, iota] at bit
  split at bit
  · exact add_right_cancel bit
  · exact bit

theorem round_injective (constant : ZMod (2 ^ log) → ZMod 2) :
    Function.Injective (round constant) :=
  (iota_injective constant).comp (chi_injective.comp (pi_injective.comp
    (rho_injective.comp theta_injective)))

theorem foldl_injective {Item Content : Type} {step : Content → Item → Content}
    (each : ∀ item, Function.Injective fun content => step content item) (items : List Item) :
    Function.Injective fun content => items.foldl step content := by
  induction items with
  | nil => exact Function.injective_id
  | cons item rest induction => exact induction.comp (each item)

/-- The permutation permutes the states. -/
theorem permutation_bijective : Function.Bijective (permutation log) := by
  have finite : Finite (State (2 ^ log)) := inferInstance
  exact Finite.injective_iff_bijective.mp
    (foldl_injective (fun index => round_injective (roundConstant log index)) _)

end Injective

/-! ## The sponge of bits -/

section Bits

variable {size : ℕ}

def place (x y : ZMod 5) (z : ZMod size) : ℕ := size * (5 * y.val + x.val) + z.val

def mixBit (a : State size) (position : ℕ) (bit : ZMod 2) : State size := fun x y z =>
  if place x y z = position then a x y z + bit else a x y z

def bitAt (a : State size) (position : ℕ) : ZMod 2 :=
  a (position / size : ℕ) (position / size / 5 : ℕ) position

end Bits

/-- The first `rate` bits of a state are open. -/
def sponge (log rate : ℕ) (positive : 0 < rate) : Sponge (State (2 ^ log)) (ZMod 2) where
  permute := permutation log
  mix := mixBit
  readAt := bitAt
  rate := rate
  positive := positive

/-- A one, zeros and a one that fill the last block. -/
def padding (rate length : ℕ) : List (ZMod 2) :=
  1 :: (List.replicate ((rate - (length + 2) % rate) % rate) 0 ++ [1])

def output (log rate : ℕ) (positive : 0 < rate) (bits : List (ZMod 2)) : ℕ → ZMod 2 :=
  (sponge log rate positive).output
    ((sponge log rate positive).absorbAll (fun _ _ _ => 0)
      (bits ++ padding rate bits.length))

section Places

variable {log rate : ℕ} {positive : 0 < rate}

theorem mixFrom_apply (bits : List (ZMod 2)) : ∀ (a : State (2 ^ log)) (start : ℕ)
    (x y : ZMod 5) (z : ZMod (2 ^ log)),
      (sponge log rate positive).mixFrom a start bits x y z =
        a x y z + if start ≤ place x y z then (bits[place x y z - start]?).getD 0 else 0 := by
  induction bits with
  | nil =>
      intro a start x y z
      rw [Sponge.mixFrom, List.getElem?_nil, Option.getD_none, ite_self, add_zero]
  | cons bit rest induction =>
      intro a start x y z
      have mixed : (sponge log rate positive).mix a start bit = mixBit a start bit := rfl
      rw [Sponge.mixFrom, induction, mixed, mixBit]
      by_cases here : place x y z = start
      · rw [if_pos here, if_neg (by omega), if_pos here.ge, here, Nat.sub_self, add_zero]
        rfl
      · rw [if_neg here]
        by_cases before : start ≤ place x y z
        · have next : place x y z - start = place x y z - (start + 1) + 1 := by omega
          rw [if_pos before, if_pos (by omega), next, List.getElem?_cons_succ]
        · rw [if_neg before, if_neg (by omega)]

end Places

end LedgerQrl.Foundation.Keccak
