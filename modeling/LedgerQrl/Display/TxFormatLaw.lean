import LedgerQrl.Display.TxFormatExact

namespace LedgerQrl.Display

open Foundation Transaction

/-! # What the number formatters promise -/

/-- A formatter's result for a number whose text needs `needed` characters: it succeeds
exactly when the buffer has room, then the buffer holds the number's one canonical numeral,
and a refusal leaves the buffer as it was. -/
structure Formatted {size : ℕ} (value : ℚ) (needed : ℕ) (out : Buffer size)
    (result : Bool × Buffer size) : Prop where
  accepted_iff : result.1 = true ↔ needed ≤ size
  refused : result.1 = false → result.2 = out
  text : result.1 = true → ∃ text, result.2.string = some text ∧ text.length < size ∧
    CanonicalDecimal text ∧ decimalValue text = value ∧
      ∀ other, CanonicalDecimal other → decimalValue other = value → other = text

section Formatted

variable {length size : ℕ} {value : ℚ} {needed : ℕ} {out : Buffer size}

theorem formatted_refused (small : size < needed) : Formatted value needed out (false, out) :=
  { accepted_iff := iff_of_false Bool.false_ne_true (Nat.not_le.mpr small)
    refused := fun _ => rfl
    text := fun impossible => absurd impossible Bool.false_ne_true }

theorem formatted_accepted {stored : Buffer size} {text : List Char} (room : needed ≤ size)
    (begins : stored.Begins (text ++ [nul])) (plain : nul ∉ text)
    (canonical : CanonicalDecimal text) (worth : decimalValue text = value) :
    Formatted value needed out (true, stored) := by
  have fits := begins.length_le
  rw [List.length_append, List.length_singleton] at fits
  exact
    { accepted_iff := iff_of_true rfl room
      refused := fun impossible => absurd impossible.symm Bool.false_ne_true
      text := fun _ => ⟨text, begins.string_eq plain, fits, canonical, worth,
        fun other otherCanonical equal =>
          otherCanonical.unique canonical (equal.trans worth.symm)⟩ }

end Formatted

section Decimal

variable {length size : ℕ} {bytes : List UInt8}

/-- The digits of a number of at most 40 bytes fill the loop's buffer at most. -/
theorem decimalLoop_ends (few : bytes.length ≤ maxIntegerBytes) :
    decimalLoop maxDecimalDigits bytes [nul] =
        some (decimalText (bigEndian bytes) ++ [nul]) ∧
      (decimalText (bigEndian bytes)).length ≤ maxDecimalDigits := by
  have power : 256 ^ bytes.length ≤ 256 ^ 40 := Nat.pow_le_pow_right (by norm_num) few
  have bound : bigEndian bytes < 10 ^ maxDecimalDigits :=
    (bigEndian_lt bytes).trans (power.trans_lt (by norm_num [maxDecimalDigits]))
  exact ⟨decimalLoop_eq [nul] (by norm_num [maxDecimalDigits]) bound,
    length_decimalText_bigEndian_le few⟩

theorem uint8ArrayToDecimal_formatted (few : bytes.length ≤ maxIntegerBytes)
    (out : Buffer size) :
    ∃ result, uint8ArrayToDecimal bytes out = .ok result ∧
      Formatted (bigEndian bytes) ((decimalText (bigEndian bytes)).length + 1) out result := by
  by_cases room : (decimalText (bigEndian bytes)).length + 1 ≤ size
  · obtain ⟨stored, done, begins⟩ := uint8ArrayToDecimal_eq few out room
    exact ⟨_, done, formatted_accepted room begins (nul_not_mem (digits_decimalText _))
      (canonical_decimalText _) (decimalValue_decimalText _)⟩
  · refine ⟨(false, out), ?_, formatted_refused (Nat.lt_of_not_le room)⟩
    rw [uint8ArrayToDecimal]
    split
    · rfl
    · rw [(decimalLoop_ends few).1]
      simp only
      rw [if_pos]
      rw [List.length_append, List.length_singleton]
      exact Nat.lt_of_not_le room

theorem uint8ArrayToDecimal_long (long : maxIntegerBytes < bytes.length) (out : Buffer size) :
    uint8ArrayToDecimal bytes out = .ok (false, out) := by
  rw [uint8ArrayToDecimal, if_pos (.inr long)]

end Decimal

section Point

variable {length size : ℕ} {amount : List UInt8}

theorem formatWithDecimals_refused {raw : Buffer length} {digits : List Char}
    (begins : raw.Begins (digits ++ [nul])) (plain : nul ∉ digits) {decimals : ℕ}
    (positive : 0 < decimals) (out : Buffer size)
    (small : size < (placePoint decimals digits).length + 1) :
    formatWithDecimals raw decimals out = .ok (false, out) := by
  have counted := length_placePoint decimals digits
  have len : strlen raw = .ok digits.length := by
    rw [strlen, begins.string_eq plain]
  rw [formatWithDecimals]
  split
  · rfl
  · rw [len, ok_bind, if_neg (by omega)]
    simp only [leading_eq]
    rw [← counted, if_pos small]

theorem formatQrlAmount_formatted (few : amount.length ≤ maxIntegerBytes) (out : Buffer size) :
    ∃ result, formatQrlAmount amount out = .ok result ∧
      Formatted (bigEndian amount / 10 ^ 18)
        ((placePoint 18 (decimalText (bigEndian amount))).length + 1) out result := by
  by_cases room : (placePoint 18 (decimalText (bigEndian amount))).length + 1 ≤ size
  · obtain ⟨stored, done, begins⟩ := formatQrlAmount_eq few out room
    exact ⟨_, done, formatted_accepted room begins (nul_not_mem_fixedText _ _)
      (canonical_fixedText _ _) (decimalValue_fixedText _ _)⟩
  · have small := Nat.lt_of_not_le room
    have digits := length_decimalText_bigEndian_le few
    obtain ⟨decimal, converted, begins⟩ := uint8ArrayToDecimal_eq few
      (Vector.replicate (maxDecimalDigits + 1) nul) (by omega)
    refine ⟨(false, out), ?_, formatted_refused small⟩
    rw [formatQrlAmount, converted, ok_bind]
    exact formatWithDecimals_refused begins (nul_not_mem (digits_decimalText _))
      (by norm_num) out small

theorem formatQrlAmount_long (long : maxIntegerBytes < amount.length) (out : Buffer size) :
    formatQrlAmount amount out = .ok (false, out) := by
  rw [formatQrlAmount, uint8ArrayToDecimal_long long, ok_bind]
  rfl

/-- Amounts are formatted exactly, canonically, or not at all. -/
theorem formatting_exact {size : ℕ} (bytes : List UInt8) (out : Buffer size) :
    (bytes.length ≤ maxIntegerBytes →
      (∃ result, formatQrlAmount bytes out = .ok result ∧
        Formatted (bigEndian bytes / 10 ^ 18)
          ((placePoint 18 (decimalText (bigEndian bytes))).length + 1) out result) ∧
      (∃ result, uint8ArrayToDecimal bytes out = .ok result ∧
        Formatted (bigEndian bytes) ((decimalText (bigEndian bytes)).length + 1) out result) ∧
      decimalLoop maxDecimalDigits bytes [nul] =
        some (decimalText (bigEndian bytes) ++ [nul]) ∧
      (decimalText (bigEndian bytes)).length ≤ 97) ∧
    (maxIntegerBytes < bytes.length →
      formatQrlAmount bytes out = .ok (false, out) ∧
      uint8ArrayToDecimal bytes out = .ok (false, out)) := by
  constructor
  · intro few
    exact ⟨formatQrlAmount_formatted few out, uint8ArrayToDecimal_formatted few out,
      (decimalLoop_ends few).1, (decimalLoop_ends few).2⟩
  · intro long
    exact ⟨formatQrlAmount_long long out, uint8ArrayToDecimal_long long out⟩

/-- One unit and one part of 10^18, and a number of more than forty bytes. -/
theorem formatting_exact_one :
    (∃ result, formatQrlAmount [0x0D, 0xE0, 0xB6, 0xB3, 0xA7, 0x64, 0x00, 0x01]
        (Vector.replicate 40 nul) = .ok result ∧
      Formatted (1000000000000000001 / 10 ^ 18) 21 (Vector.replicate 40 nul) result) ∧
    (∃ result, uint8ArrayToDecimal [0x0D, 0xE0, 0xB6, 0xB3, 0xA7, 0x64, 0x00, 0x01]
        (Vector.replicate 40 nul) = .ok result ∧
      Formatted 1000000000000000001 20 (Vector.replicate 40 nul) result) ∧
    formatQrlAmount (List.replicate 41 0xFF) (Vector.replicate 40 nul) =
      .ok (false, Vector.replicate 40 nul) := by
  have value : bigEndian [0x0D, 0xE0, 0xB6, 0xB3, 0xA7, 0x64, 0x00, 0x01] =
      1000000000000000001 := by decide
  have digits : (decimalText 1000000000000000001).length + 1 = 20 := by decide
  have point : (placePoint 18 (decimalText 1000000000000000001)).length + 1 = 21 := by decide
  have short := (formatting_exact [0x0D, 0xE0, 0xB6, 0xB3, 0xA7, 0x64, 0x00, 0x01]
    (Vector.replicate 40 nul)).1 (by decide)
  have long := (formatting_exact (List.replicate 41 0xFF) (Vector.replicate 40 nul)).2
    (by decide)
  rw [value, digits, point] at short
  push_cast at short
  exact ⟨short.1, short.2.1, long.1⟩

end Point

/-! ## Products without overflow

The loops again, over words that must not overflow. -/

/-- `accum[index] = value` for a value of 32 bits; an error for any other. -/
def storeUnwrapped (accum : List ℕ) (index value : ℕ) : Checked (List ℕ) :=
  if index < accum.length ∧ value < 2 ^ 32 then .ok (accum.set index value)
  else .error .outOfBounds

def accumulateUnwrapped (a b : List UInt8) (i j : ℕ) (accum : List ℕ) :
    Checked (List ℕ) := do
  let fullLen := a.length + b.length
  let left ← readByte a (a.length - 1 - i)
  let right ← readByte b (b.length - 1 - j)
  let index ← sizeSub (fullLen - 1) (i + j)
  let sum ← readWord accum index
  storeUnwrapped accum index (sum + left * right)

def accumulateRowUnwrapped (a b : List UInt8) (i : ℕ) :
    (count : ℕ) → List ℕ → Checked (List ℕ)
  | 0, accum => .ok accum
  | count + 1, accum => do
      let accum ← accumulateRowUnwrapped a b i count accum
      accumulateUnwrapped a b i count accum

def accumulateRowsUnwrapped (a b : List UInt8) : (count : ℕ) → List ℕ → Checked (List ℕ)
  | 0, accum => .ok accum
  | count + 1, accum => do
      let accum ← accumulateRowsUnwrapped a b count accum
      accumulateRowUnwrapped a b count b.length accum

def carryUnwrapped : (i : ℕ) → List ℕ → Checked (List ℕ)
  | 0, accum => .ok accum
  | i + 1, accum => do
      let low ← readWord accum (i + 1)
      let high ← readWord accum i
      let accum ← storeUnwrapped accum i (high + (low >>> 8))
      let accum ← storeUnwrapped accum (i + 1) (low &&& 0xff)
      carryUnwrapped i accum

section Product

variable {a b : List UInt8} {accum : List ℕ}

theorem storeUnwrapped_eq {index value : ℕ} (small : value < 2 ^ 32) :
    storeUnwrapped accum index value = storeWord accum index value := by
  rw [storeUnwrapped, storeWord, Nat.mod_eq_of_lt small]
  simp only [small, and_true]

theorem accumulateUnwrapped_eq (total : a.length + b.length ≤ maxIntegerBytes)
    {rounds value i j : ℕ} (row : i < a.length) (column : j < b.length) (few : rounds < 400)
    (before : Accumulated a b rounds value accum) :
    accumulateUnwrapped a b i j accum = accumulate a b i j accum := by
  obtain ⟨length, bounded, _⟩ := before
  have index : a.length + b.length - 1 - (i + j) < accum.length := by omega
  have product := byte_product_le a[a.length - 1 - i] b[b.length - 1 - j]
  have old := bounded accum[a.length + b.length - 1 - (i + j)] (List.getElem_mem index)
  rw [accumulateUnwrapped, accumulate,
    readByte_eq (show a.length - 1 - i < a.length by omega), ok_bind, ok_bind,
    readByte_eq (show b.length - 1 - j < b.length by omega), ok_bind, ok_bind,
    sizeSub, if_pos (by omega), ok_bind, ok_bind, readWord_eq index, ok_bind, ok_bind,
    storeUnwrapped_eq (by omega)]

theorem accumulateRowUnwrapped_eq (total : a.length + b.length ≤ maxIntegerBytes)
    {rounds value i : ℕ} (row : i < a.length) (before : Accumulated a b rounds value accum) :
    ∀ {count : ℕ}, count ≤ b.length → rounds + count ≤ 400 →
      accumulateRowUnwrapped a b i count accum = accumulateRow a b i count accum := by
  intro count
  induction count with
  | zero => exact fun _ _ => rfl
  | succ count induction =>
      intro within few
      obtain ⟨middle, done, reached⟩ := accumulateRow_eq total row before
        (show count ≤ b.length by omega) (by omega)
      rw [accumulateRowUnwrapped, accumulateRow, induction (by omega) (by omega), done,
        ok_bind, ok_bind, accumulateUnwrapped_eq total row within (by omega) reached]

theorem accumulateRowsUnwrapped_eq (total : a.length + b.length ≤ maxIntegerBytes)
    (before : Accumulated a b 0 0 accum) :
    ∀ {count : ℕ}, count ≤ a.length →
      accumulateRowsUnwrapped a b count accum = accumulateRows a b count accum := by
  intro count
  induction count with
  | zero => exact fun _ => rfl
  | succ count induction =>
      intro within
      obtain ⟨middle, done, reached⟩ := accumulateRows_eq total before
        (show count ≤ a.length by omega)
      rw [accumulateRowsUnwrapped, accumulateRows, induction (by omega), done, ok_bind,
        ok_bind, accumulateRowUnwrapped_eq total within reached le_rfl
          (rounds_le total within)]

theorem carryUnwrapped_eq {fullLen value : ℕ} (fits : fullLen ≤ maxIntegerBytes) :
    ∀ {i : ℕ} {accum : List ℕ}, i < fullLen → Carrying fullLen value i accum →
      carryUnwrapped i accum = carry i accum := by
  intro i
  induction i with
  | zero => exact fun _ _ => rfl
  | succ i induction =>
      intro accum within before
      have size := before.length
      have inside : i < accum.length := by omega
      have inside' : i + 1 < accum.length := by omega
      have low := before.current_le inside'
      have high := before.open_le i inside (Nat.lt_succ_self i)
      have shift : accum[i + 1] >>> 8 = accum[i + 1] / 256 := Nat.shiftRight_eq_div_pow _ 8
      have mask : accum[i + 1] &&& 0xff = accum[i + 1] % 256 :=
        Nat.and_two_pow_sub_one_eq_mod _ 8
      rw [carry_succ before inside inside', carryUnwrapped, readWord_eq inside', ok_bind,
        readWord_eq inside, ok_bind, shift, mask, storeUnwrapped_eq (by omega),
        storeWord_eq inside (by omega), ok_bind, storeUnwrapped_eq (by omega),
        storeWord_eq (by rw [List.length_set]; exact inside') (by omega), ok_bind,
        induction (by omega) (before.step within fits inside inside')]

/-- The fee is multiplied exactly, and no word overflows on the way. -/
theorem product_exact (total : a.length + b.length ≤ maxIntegerBytes) {product : Product}
    (room : product.outLen ≤ product.out.length) :
    (∃ accepted result, multiplyUint8Arrays a b product = .ok (accepted, result) ∧
      Multiplied a b product accepted result) ∧
    (0 < a.length + b.length → ∃ sums digits,
      accumulateRowsUnwrapped a b a.length (List.replicate maxIntegerBytes 0) = .ok sums ∧
      carryUnwrapped (a.length + b.length - 1) sums = .ok digits ∧
      accumulateRows a b a.length (List.replicate maxIntegerBytes 0) = .ok sums ∧
      carry (a.length + b.length - 1) sums = .ok digits ∧
      ∃ leading < 256, digits.head? = some leading) := by
  refine ⟨multiplyUint8Arrays_multiplied total room, ?_⟩
  intro nonempty
  obtain ⟨sums, digits, _, doneSums, accumulated, doneCarry, carried, _, _, _⟩ :=
    significantBytes_product total nonempty
  have size := carried.length
  have inside : 0 < digits.length := by
    rw [size]
    norm_num [maxIntegerBytes]
  refine ⟨sums, digits, ?_, ?_, doneSums, doneCarry, digits[0],
    carried.column_lt total (product_lt a b) inside nonempty, ?_⟩
  · rw [accumulateRowsUnwrapped_eq total accumulated_zero le_rfl, doneSums]
  · rw [carryUnwrapped_eq total (by omega)
      (accumulated.carrying (length_mul_length_le total)), doneCarry]
  · rw [List.head?_eq_getElem?, List.getElem?_eq_getElem inside]

theorem product_exact_square :
    multiplyUint8Arrays [255] [255] { out := [0, 0], outLen := 2 } =
        .ok (true, { out := [254, 1], outLen := 2 }) ∧
      ∃ accepted result,
        multiplyUint8Arrays [255] [255] { out := [0, 0], outLen := 2 } =
          .ok (accepted, result) ∧
        Multiplied [255] [255] { out := [0, 0], outLen := 2 } accepted result :=
  ⟨rfl, (product_exact (by decide) (by decide)).1⟩

end Product

end LedgerQrl.Display
