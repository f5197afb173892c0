import LedgerQrl.Foundation.Keccak
import LedgerQrl.Foundation.LocalStep
import LedgerQrl.Mldsa87.Keccak256

namespace LedgerQrl.Mldsa87

open Foundation

/-! # Keccak-f[1600]

`keccakf.c`. Lane `x`, `y` of the state is word `x + 5 * y`. -/

def wordAt {size : ℕ} (words : Vector UInt64 size) (index : ℕ) : UInt64 :=
  words[index]?.getD 0

def rol64 (x : UInt64) (n : ℕ) : UInt64 :=
  (x <<< UInt64.ofNat n) ||| (x >>> UInt64.ofNat ((64 - n) &&& 63))

/-- `RC`. -/
def keccakConstants : Vector UInt64 24 := ⟨#[
  0x0000000000000001, 0x0000000000008082, 0x800000000000808A, 0x8000000080008000,
  0x000000000000808B, 0x0000000080000001, 0x8000000080008081, 0x8000000000008009,
  0x000000000000008A, 0x0000000000000088, 0x0000000080008009, 0x000000008000000A,
  0x000000008000808B, 0x800000000000008B, 0x8000000000008089, 0x8000000000008003,
  0x8000000000008002, 0x8000000000000080, 0x000000000000800A, 0x800000008000000A,
  0x8000000080008081, 0x8000000000008080, 0x0000000080000001, 0x8000000080008008], rfl⟩

/-- `r`. -/
def keccakRotations : List ℕ :=
  [0, 1, 62, 28, 27, 36, 44, 6, 55, 20, 3, 10, 43, 25, 39, 41, 45, 15, 21, 8, 18, 2, 61, 56,
    14]

/-! ## The loops of a round -/

def keccakColumns (s : Vector UInt64 25) : Vector UInt64 5 :=
  Vector.ofFn fun x =>
    wordAt s x ^^^ wordAt s (x + 5) ^^^ wordAt s (x + 10) ^^^ wordAt s (x + 15) ^^^
      wordAt s (x + 20)

def keccakDifferences (c : Vector UInt64 5) : Vector UInt64 5 :=
  Vector.ofFn fun x => wordAt c ((x + 4) % 5) ^^^ rol64 (wordAt c ((x + 1) % 5)) 1

def keccakAddDifferences (d : Vector UInt64 5) (s : Vector UInt64 25) : Vector UInt64 25 :=
  Vector.ofFn fun i => wordAt s i ^^^ wordAt d (i % 5)

/-- Word `i` of the state goes to this word of `B`. -/
def keccakTarget (i : ℕ) : ℕ := i / 5 + 5 * ((2 * (i % 5) + 3 * (i / 5)) % 5)

def keccakRotate (s b : Vector UInt64 25) : Vector UInt64 25 :=
  (List.range 25).foldl (fun b i =>
    b.setIfInBounds (keccakTarget i) (rol64 (wordAt s i) (keccakRotations[i]?.getD 0))) b

def keccakCombine (b : Vector UInt64 25) : Vector UInt64 25 :=
  Vector.ofFn fun i =>
    wordAt b i ^^^ (~~~ wordAt b ((i + 1) % 5 + 5 * (i / 5)) &&&
      wordAt b ((i + 2) % 5 + 5 * (i / 5)))

def keccakRound (b : Vector UInt64 25) (round : ℕ) (s : Vector UInt64 25) :
    Vector UInt64 25 :=
  let c := keccakColumns s
  let d := keccakDifferences c
  let s := keccakAddDifferences d s
  let b := keccakRotate s b
  let s := keccakCombine b
  s.setIfInBounds 0 (wordAt s 0 ^^^ wordAt keccakConstants round)

/-- The array `B` of every round is uninitialised. -/
def keccakf (uninitialised : ℕ → Vector UInt64 25) : Permutation := fun s =>
  (List.range 24).foldl (fun s round => keccakRound (uninitialised round) round s) s

/-! ## Bits of words -/

abbrev Lane := ZMod (2 ^ 6)

def bit (word : UInt64) (z : Lane) : ZMod 2 := if word.toBitVec.getLsbD z.val then 1 else 0

/-- The bits of the words. -/
def keccakBits (s : Vector UInt64 25) : Keccak.State (2 ^ 6) := fun x y z =>
  bit (wordAt s (x.val + 5 * y.val)) z

theorem bit_xor (first second : UInt64) (z : Lane) :
    bit (first ^^^ second) z = bit first z + bit second z := by
  have sums : ∀ first second : Bool, (if (first ^^ second) = true then (1 : ZMod 2) else 0) =
      (if first = true then 1 else 0) + if second = true then 1 else 0 := by decide
  rw [bit, UInt64.toBitVec_xor, BitVec.getLsbD_xor]
  exact sums _ _

theorem bit_not_and (first second : UInt64) (z : Lane) :
    bit (~~~ first &&& second) z = (bit first z + 1) * bit second z := by
  have products : ∀ first second : Bool,
      (if (!first && second) = true then (1 : ZMod 2) else 0) =
        ((if first = true then 1 else 0) + 1) * if second = true then 1 else 0 := by decide
  have bound : z.val < 64 := ZMod.val_lt z
  rw [bit, UInt64.toBitVec_and, UInt64.toBitVec_not, BitVec.getLsbD_and, BitVec.getLsbD_not,
    decide_eq_true bound, Bool.true_and]
  exact products _ _

theorem val_sub_natCast (z : Lane) {n : ℕ} (small : n < 64) :
    (z - (n : Lane)).val = (z.val + (64 - n)) % 64 := by
  have whole : ((64 : ℕ) : Lane) = 0 := ZMod.natCast_self (2 ^ 6)
  have turned : z - (n : Lane) = ((z.val + (64 - n) : ℕ) : Lane) := by
    rw [Nat.cast_add, Nat.cast_sub small.le, whole, ZMod.natCast_zmod_val]
    ring
  rw [turned, ZMod.val_natCast]
  rfl

theorem shiftAmount {n : ℕ} (small : n < 64) :
    (UInt64.ofNat n).toBitVec % 64 = BitVec.ofNat 64 n := by
  apply BitVec.eq_of_toNat_eq
  simp
  omega

theorem toBitVec_rol64 (word : UInt64) {n : ℕ} (small : n < 64) :
    (rol64 word n).toBitVec = word.toBitVec <<< n ||| word.toBitVec >>> ((64 - n) % 64) := by
  have masked : (64 - n) &&& 63 = (64 - n) % 64 := Nat.and_two_pow_sub_one_eq_mod (64 - n) 6
  have back : (64 - n) % 64 < 64 := Nat.mod_lt _ (by decide)
  rw [rol64, masked, UInt64.toBitVec_or, UInt64.toBitVec_shiftLeft,
    UInt64.toBitVec_shiftRight, shiftAmount small, shiftAmount back, BitVec.shiftLeft_eq',
    BitVec.ushiftRight_eq', BitVec.toNat_ofNat, BitVec.toNat_ofNat,
    Nat.mod_eq_of_lt (by omega), Nat.mod_eq_of_lt (back.trans (by decide))]

theorem bit_rol64 (word : UInt64) {n : ℕ} (small : n < 64) (z : Lane) :
    bit (rol64 word n) z = bit word (z - (n : Lane)) := by
  have bound : z.val < 64 := ZMod.val_lt z
  rw [bit, bit, val_sub_natCast z small, toBitVec_rol64 word small, BitVec.getLsbD_or,
    BitVec.getLsbD_shiftLeft, BitVec.getLsbD_ushiftRight, decide_eq_true bound,
    Bool.true_and]
  by_cases low : z.val < n
  · have place : (64 - n) % 64 + z.val = (z.val + (64 - n)) % 64 := by omega
    rw [decide_eq_true low, Bool.not_true, Bool.false_and, Bool.false_or, place]
  · have place : (z.val + (64 - n)) % 64 = z.val - n := by omega
    rw [decide_eq_false low, Bool.not_false, Bool.true_and, place]
    by_cases still : n = 0
    · subst still
      have back : (64 - 0) % 64 + z.val = z.val - 0 := by omega
      rw [back, Bool.or_self]
    · have beyond : word.toBitVec.getLsbD ((64 - n) % 64 + z.val) = false :=
        BitVec.getLsbD_of_ge _ _ (by omega)
      rw [beyond, Bool.or_false]

/-! ## Words and coordinates -/

theorem wordAt_ofFn {size index : ℕ} (word : Fin size → UInt64) (bound : index < size) :
    wordAt (Vector.ofFn word) index = word ⟨index, bound⟩ := by
  rw [wordAt, Vector.getElem?_eq_getElem bound, Vector.getElem_ofFn, Option.getD_some]

theorem wordAt_set {size target index : ℕ} (words : Vector UInt64 size) (word : UInt64)
    (bound : target < size) :
    wordAt (words.setIfInBounds target word) index =
      if target = index then word else wordAt words index := by
  rw [wordAt, Vector.getElem?_setIfInBounds]
  split
  · rfl
  · rfl

theorem place_lt (x y : ZMod 5) : x.val + 5 * y.val < 25 := by
  have row : x.val < 5 := ZMod.val_lt x
  have column : y.val < 5 := ZMod.val_lt y
  omega

theorem place_mod (x y : ZMod 5) : (x.val + 5 * y.val) % 5 = x.val := by
  have row : x.val < 5 := ZMod.val_lt x
  omega

theorem place_div (x y : ZMod 5) : (x.val + 5 * y.val) / 5 = y.val := by
  have row : x.val < 5 := ZMod.val_lt x
  omega

theorem val_neighbours (x : ZMod 5) :
    (x - 1).val = (x.val + 4) % 5 ∧ (x + 1).val = (x.val + 1) % 5 ∧
      (x + 2).val = (x.val + 2) % 5 := by
  revert x
  decide

/-! ## The loops are the steps -/

theorem bit_columns (s : Vector UInt64 25) (x : ZMod 5) (z : Lane) :
    bit (wordAt (keccakColumns s) x.val) z = Keccak.columnParity (keccakBits s) x z := by
  have row : x.val < 5 := ZMod.val_lt x
  have sum : Keccak.columnParity (keccakBits s) x z =
      keccakBits s x 0 z + keccakBits s x 1 z + keccakBits s x 2 z + keccakBits s x 3 z +
        keccakBits s x 4 z :=
    Fin.sum_univ_five (fun y : ZMod 5 => keccakBits s x y z)
  rw [sum, keccakColumns, wordAt_ofFn _ row, bit_xor, bit_xor, bit_xor, bit_xor]
  rfl

theorem keccakBits_theta (s : Vector UInt64 25) :
    keccakBits (keccakAddDifferences (keccakDifferences (keccakColumns s)) s) =
      Keccak.theta (keccakBits s) := by
  funext x y z
  have row : x.val < 5 := ZMod.val_lt x
  rw [keccakBits, keccakAddDifferences, wordAt_ofFn _ (place_lt x y), bit_xor, place_mod,
    keccakDifferences, wordAt_ofFn _ row, bit_xor, bit_rol64 _ (by decide), Nat.cast_one,
    ← (val_neighbours x).1, ← (val_neighbours x).2.1, bit_columns, bit_columns, ← add_assoc]
  rfl

theorem keccakTarget_injective : ∀ i < 25, ∀ j < 25, keccakTarget i = keccakTarget j → i = j := by
  decide

theorem keccakTarget_lt : ∀ i < 25, keccakTarget i < 25 := by decide

theorem wordAt_keccakRotate (s b : Vector UInt64 25) {i : ℕ} (bound : i < 25) :
    wordAt (keccakRotate s b) (keccakTarget i) =
      rol64 (wordAt s i) (keccakRotations[i]?.getD 0) := by
  have steps : LocalSteps (fun b position => wordAt b position)
      (fun i position => keccakTarget i = position)
      (fun i (b : Vector UInt64 25) => b.setIfInBounds (keccakTarget i)
        (rol64 (wordAt s i) (keccakRotations[i]?.getD 0))) (List.range 25) := by
    constructor
    · intro i member b position other
      rw [wordAt_set _ _ (keccakTarget_lt i (List.mem_range.mp member)), if_neg other]
    · intro i member b other _ position own
      have inside := keccakTarget_lt i (List.mem_range.mp member)
      rw [wordAt_set _ _ inside, wordAt_set _ _ inside, if_pos own, if_pos own]
    · intro i member j other position first second
      exact keccakTarget_injective i (List.mem_range.mp member) j (List.mem_range.mp other)
        (first.trans second.symm)
  have written := steps.foldl_owned List.nodup_range b (List.mem_range.mpr bound) rfl
  rw [wordAt_set _ _ (keccakTarget_lt i bound), if_pos rfl] at written
  exact written

/-- Where the word for a lane of `B` comes from. -/
theorem keccakTarget_source (x y : ZMod 5) :
    keccakTarget ((x + 3 * y).val + 5 * x.val) = x.val + 5 * y.val := by
  revert x y
  decide

theorem keccakRotations_eq (x y : ZMod 5) :
    keccakRotations[x.val + 5 * y.val]?.getD 0 < 64 ∧
      ((keccakRotations[x.val + 5 * y.val]?.getD 0 : ℕ) : Lane) =
        (Keccak.rhoOffset x y : Lane) := by
  revert x y
  decide

theorem keccakBits_rotate (s b : Vector UInt64 25) :
    keccakBits (keccakRotate s b) = Keccak.pi (Keccak.rho (keccakBits s)) := by
  funext x y z
  have rotation := keccakRotations_eq (x + 3 * y) x
  rw [keccakBits, ← keccakTarget_source x y, wordAt_keccakRotate s b (place_lt _ _),
    bit_rol64 _ rotation.1, rotation.2]
  rfl

theorem keccakBits_combine (b : Vector UInt64 25) :
    keccakBits (keccakCombine b) = Keccak.chi (keccakBits b) := by
  funext x y z
  have near : (x.val + 5 * y.val + 1) % 5 = (x + 1).val := by
    rw [(val_neighbours x).2.1]
    omega
  have far : (x.val + 5 * y.val + 2) % 5 = (x + 2).val := by
    rw [(val_neighbours x).2.2]
    omega
  rw [keccakBits, keccakCombine, wordAt_ofFn _ (place_lt x y), bit_xor, bit_not_and,
    place_div, near, far]
  rfl

theorem keccakConstants_eq : ∀ index < 24, ∀ z : Lane,
    bit (wordAt keccakConstants index) z = Keccak.roundConstant 6 index z := by
  decide +kernel

theorem keccakBits_iota (s : Vector UInt64 25) {index : ℕ} (bound : index < 24) :
    keccakBits (s.setIfInBounds 0 (wordAt s 0 ^^^ wordAt keccakConstants index)) =
      Keccak.iota (Keccak.roundConstant 6 index) (keccakBits s) := by
  funext x y z
  have origin : 0 = x.val + 5 * y.val ↔ x = 0 ∧ y = 0 := by
    revert x y
    decide
  rw [keccakBits, wordAt_set _ _ (by decide), Keccak.iota]
  by_cases first : x = 0 ∧ y = 0
  · rw [if_pos (origin.mpr first), if_pos first, bit_xor, keccakConstants_eq index bound,
      first.1, first.2]
    rfl
  · rw [if_neg (fun same => first (origin.mp same)), if_neg first]
    rfl

theorem keccakBits_round (b s : Vector UInt64 25) {index : ℕ} (bound : index < 24) :
    keccakBits (keccakRound b index s) =
      Keccak.round (Keccak.roundConstant 6 index) (keccakBits s) := by
  rw [keccakRound, keccakBits_iota _ bound, keccakBits_combine, keccakBits_rotate,
    keccakBits_theta, Keccak.round]

/-- The rounds of the source are those of the permutation on lanes of 64 bits. -/
theorem keccakBits_keccakf (uninitialised : ℕ → Vector UInt64 25) (s : Vector UInt64 25) :
    keccakBits (keccakf uninitialised s) = Keccak.permutation 6 (keccakBits s) := by
  have rounds : ∀ (indices : List ℕ) (s : Vector UInt64 25), (∀ index ∈ indices, index < 24) →
      keccakBits (indices.foldl (fun s index => keccakRound (uninitialised index) index s) s) =
        indices.foldl (fun a index => Keccak.round (Keccak.roundConstant 6 index) a)
          (keccakBits s) := by
    intro indices
    induction indices with
    | nil => exact fun _ _ => rfl
    | cons index rest induction =>
        intro s within
        rw [List.foldl_cons, List.foldl_cons,
          induction _ fun other member => within other (List.mem_cons_of_mem _ member),
          keccakBits_round _ _ (within index List.mem_cons_self)]
  exact rounds (List.range 24) s fun index member => List.mem_range.mp member

/-! ## Nothing is lost -/

theorem keccakBits_injective : Function.Injective keccakBits := by
  intro first second same
  ext index bound
  have row : ((index : ℕ) : ZMod 5).val = index % 5 := ZMod.val_natCast 5 index
  have column : ((index / 5 : ℕ) : ZMod 5).val = index / 5 := by
    rw [ZMod.val_natCast, Nat.mod_eq_of_lt (by omega)]
  have bits : ∀ z : Lane, bit (wordAt first index) z = bit (wordAt second index) z := by
    intro z
    have lane := congrFun (congrFun (congrFun same (index : ℕ)) (index / 5 : ℕ)) z
    rw [keccakBits, keccakBits, row, column, Nat.mod_add_div] at lane
    exact lane
  have words : wordAt first index = wordAt second index := by
    apply UInt64.toBitVec_inj.mp
    apply BitVec.eq_of_getLsbD_eq
    intro place inside
    have lane := bits (place : ℕ)
    have depth : ((place : ℕ) : Lane).val = place := by
      rw [ZMod.val_natCast]
      exact Nat.mod_eq_of_lt inside
    rw [bit, bit, depth] at lane
    revert lane
    generalize (wordAt first index).toBitVec.getLsbD place = left
    generalize (wordAt second index).toBitVec.getLsbD place = right
    revert left right
    decide
  rw [wordAt, wordAt, Vector.getElem?_eq_getElem bound, Vector.getElem?_eq_getElem bound] at words
  exact congrArg UInt64.toNat words

/-- `keccakf` permutes the states of the sponges, whatever its array holds. -/
theorem keccakf_bijective (uninitialised : ℕ → Vector UInt64 25) :
    Function.Bijective (keccakf uninitialised) := by
  have finite : Finite (Vector UInt64 25) :=
    Finite.of_injective keccakBits keccakBits_injective
  apply Finite.injective_iff_bijective.mp
  intro first second same
  apply keccakBits_injective
  apply Keccak.permutation_bijective.injective
  rw [← keccakBits_keccakf uninitialised, same, keccakBits_keccakf]

end LedgerQrl.Mldsa87
