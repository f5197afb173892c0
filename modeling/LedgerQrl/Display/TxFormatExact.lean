import LedgerQrl.Display.TxFormat
import LedgerQrl.Foundation.Decimal
import LedgerQrl.Foundation.Decision
import Mathlib.Algebra.Order.Ring.Canonical

namespace LedgerQrl.Display

open Foundation Transaction

/-! # Numbers are shown exactly -/

/-! ## Base 10 -/

/-- The inner loop divides by ten. -/
theorem divideByTen_spec : ∀ (bytes : List UInt8) {remainder : ℕ}, remainder < 10 →
    (divideByTen remainder bytes).1.length = bytes.length ∧
    bigEndian (divideByTen remainder bytes).1 =
      (remainder * 256 ^ bytes.length + bigEndian bytes) / 10 ∧
    (divideByTen remainder bytes).2.1 =
      (remainder * 256 ^ bytes.length + bigEndian bytes) % 10 ∧
    ((divideByTen remainder bytes).2.2 = true ↔
      bigEndian (divideByTen remainder bytes).1 = 0) := by
  intro bytes
  induction bytes with
  | nil =>
      intro remainder small
      refine ⟨rfl, ?_, ?_, ?_⟩
      · simp [divideByTen, Nat.div_eq_of_lt small]
      · simp [divideByTen, Nat.mod_eq_of_lt small]
      · simp [divideByTen]
  | cons byte rest induction =>
      intro remainder small
      have range : byte.toNat < 2 ^ 8 := byte.toNat_lt
      have val : (remainder <<< 8) ||| byte.toNat = remainder * 256 + byte.toNat := by
        rw [← Nat.shiftLeft_add_eq_or_of_lt range, Nat.shiftLeft_eq]
      have next : (remainder * 256 + byte.toNat) % 10 < 10 := Nat.mod_lt _ (by norm_num)
      obtain ⟨lengths, quotient, last, zero⟩ := induction next
      have head : (UInt8.ofNat ((remainder * 256 + byte.toNat) / 10)).toNat =
          (remainder * 256 + byte.toNat) / 10 := by
        rw [UInt8.toNat_ofNat', Nat.mod_eq_of_lt (by omega)]
      have total : remainder * 256 ^ (byte :: rest).length + bigEndian (byte :: rest) =
          10 * ((remainder * 256 + byte.toNat) / 10 * 256 ^ rest.length) +
            ((remainder * 256 + byte.toNat) % 10 * 256 ^ rest.length + bigEndian rest) := by
        have divided := Nat.div_add_mod (remainder * 256 + byte.toNat) 10
        rw [bigEndian_cons, List.length_cons, pow_succ]
        calc remainder * (256 ^ rest.length * 256) +
              (byte.toNat * 256 ^ rest.length + bigEndian rest)
            = (remainder * 256 + byte.toNat) * 256 ^ rest.length + bigEndian rest := by ring
          _ = (10 * ((remainder * 256 + byte.toNat) / 10) +
                (remainder * 256 + byte.toNat) % 10) * 256 ^ rest.length +
                  bigEndian rest := by rw [divided]
          _ = _ := by ring
      have value : bigEndian (divideByTen remainder (byte :: rest)).1 =
          (remainder * 256 + byte.toNat) / 10 * 256 ^ rest.length +
            ((remainder * 256 + byte.toNat) % 10 * 256 ^ rest.length + bigEndian rest) /
              10 := by
        rw [divideByTen, val, bigEndian_cons, lengths, head, quotient]
      refine ⟨?_, ?_, ?_, ?_⟩
      · rw [divideByTen, val, List.length_cons, lengths, List.length_cons]
      · rw [value, total, Nat.mul_add_div (by norm_num)]
      · rw [total, Nat.mul_add_mod, ← last, divideByTen, val]
      · have first : UInt8.ofNat ((remainder * 256 + byte.toNat) / 10) = 0 ↔
            (remainder * 256 + byte.toNat) / 10 = 0 := by
          rw [← UInt8.toNat_inj, head]
          rfl
        have flag : (divideByTen remainder (byte :: rest)).2.2 =
            ((UInt8.ofNat ((remainder * 256 + byte.toNat) / 10) == 0) &&
              (divideByTen ((remainder * 256 + byte.toNat) % 10) rest).2.2) := by
          rw [divideByTen, val]
        have positive : 0 < 256 ^ rest.length := by positivity
        rw [flag, value, Bool.and_eq_true, beq_iff_eq, first, zero, quotient,
          Nat.add_eq_zero_iff, Nat.mul_eq_zero]
        omega

theorem charOfDigit {digit : ℕ} (small : digit < 10) :
    Char.ofNat ('0'.toNat + digit) = Nat.digitChar digit := by
  interval_cases digit <;> rfl

/-- The outer loop writes the digits of a number that fits. -/
theorem decimalLoop_eq : ∀ {index : ℕ} {temp : List UInt8} (result : List Char),
    0 < index → bigEndian temp < 10 ^ index →
      decimalLoop index temp result = some (decimalText (bigEndian temp) ++ result) := by
  intro index
  induction index with
  | zero => exact fun _ absurdity _ => absurd absurdity (Nat.lt_irrefl 0)
  | succ index induction =>
      intro temp result _ bound
      obtain ⟨_, quotient, last, zero⟩ := divideByTen_spec temp (show 0 < 10 by norm_num)
      rw [Nat.zero_mul, Nat.zero_add] at quotient last
      have small : bigEndian temp % 10 < 10 := Nat.mod_lt _ (by norm_num)
      rw [decimalLoop]
      simp only [last, charOfDigit small]
      by_cases done : bigEndian temp / 10 = 0
      · have finished : (divideByTen 0 temp).2.2 = true := zero.mpr (by rw [quotient, done])
        rw [if_pos finished, decimalText_step, if_pos done, List.nil_append,
          List.singleton_append]
      · have running : ¬ (divideByTen 0 temp).2.2 = true := by
          rw [zero, quotient]
          exact done
        have later : bigEndian (divideByTen 0 temp).1 < 10 ^ index := by
          rw [quotient]
          rw [pow_succ] at bound
          omega
        have positive : 0 < index := by
          by_contra none
          obtain rfl : index = 0 := by omega
          rw [pow_zero, quotient] at later
          omega
        rw [if_neg running, induction _ positive later, quotient,
          decimalText_step (bigEndian temp), if_neg done, List.append_assoc,
          List.singleton_append]

section Memory

variable {size : ℕ} {buffer : Buffer size} {text : List Char}

theorem storeText_take (begins : buffer.Begins text) {pos : ℕ} (within : pos ≤ text.length)
    {more : List Char} (room : pos + more.length ≤ size) :
    ∃ stored, storeText buffer pos more = .ok stored ∧
      stored.Begins (text.take pos ++ more) := by
  obtain ⟨stored, done, result⟩ := begins.store within room
  exact ⟨stored, by rw [storeText, done], result⟩

theorem storeText_append (begins : buffer.Begins text) {pos : ℕ} (reached : pos = text.length)
    {more : List Char} (room : pos + more.length ≤ size) :
    ∃ stored, storeText buffer pos more = .ok stored ∧ stored.Begins (text ++ more) := by
  obtain ⟨stored, done, result⟩ := storeText_take begins reached.le room
  rw [reached, List.take_length] at result
  exact ⟨stored, done, result⟩

theorem storeText_zero (buffer : Buffer size) {more : List Char} (room : more.length ≤ size) :
    ∃ stored, storeText buffer 0 more = .ok stored ∧ stored.Begins more :=
  storeText_append Buffer.begins_nil rfl (by rwa [List.length_nil, Nat.zero_add])

theorem readChar_eq (begins : buffer.Begins text) {pos : ℕ} (inside : pos < text.length) :
    readChar buffer pos = .ok text[pos] := by
  rw [readChar, begins.getElem inside]

theorem readText_eq (begins : buffer.Begins text) {start count : ℕ}
    (inside : start + count ≤ text.length) :
    readText buffer start count = .ok ((text.drop start).take count) := by
  have fits := begins.length_le
  obtain ⟨rest, whole⟩ := begins
  rw [readText, if_pos (by omega), ← whole, List.drop_append_of_le_length (by omega),
    List.take_append_of_le_length (by rw [List.length_drop]; omega)]

end Memory

theorem nul_ne_digitChar {digit : ℕ} (small : digit < 10) : nul ≠ Nat.digitChar digit := by
  interval_cases digit <;> decide

theorem nul_not_mem {text : List Char} (digits : Digits text) : nul ∉ text := by
  intro member
  obtain ⟨digit, small, equal⟩ := digits nul member
  exact nul_ne_digitChar small equal

theorem nul_not_mem_fixedText (decimals number : ℕ) : nul ∉ fixedText decimals number := by
  intro member
  rcases fixedText_digits decimals number nul member with point | ⟨digit, small, equal⟩
  · exact absurd point (by decide)
  · exact nul_ne_digitChar small equal

section Decimal

variable {size : ℕ}

theorem length_decimalText_bigEndian_le {bytes : List UInt8}
    (few : bytes.length ≤ maxIntegerBytes) :
    (decimalText (bigEndian bytes)).length ≤ maxDecimalDigits := by
  have bound := bigEndian_lt bytes
  have power : 256 ^ bytes.length ≤ 256 ^ 40 := Nat.pow_le_pow_right (by norm_num) few
  exact length_decimalText_le (by norm_num [maxDecimalDigits])
    (bound.trans (power.trans_lt (by norm_num [maxDecimalDigits])))

theorem uint8ArrayToDecimal_eq {bytes : List UInt8} (few : bytes.length ≤ maxIntegerBytes)
    (out : Buffer size) (room : (decimalText (bigEndian bytes)).length + 1 ≤ size) :
    ∃ stored, uint8ArrayToDecimal bytes out = .ok (true, stored) ∧
      stored.Begins (decimalText (bigEndian bytes) ++ [nul]) := by
  have bound : bigEndian bytes < 10 ^ maxDecimalDigits := by
    have power : 256 ^ bytes.length ≤ 256 ^ 40 := Nat.pow_le_pow_right (by norm_num) few
    exact (bigEndian_lt bytes).trans (power.trans_lt (by norm_num [maxDecimalDigits]))
  have digits := decimalLoop_eq [nul] (by norm_num [maxDecimalDigits]) bound
  have length : (decimalText (bigEndian bytes) ++ [nul]).length ≤ size := by
    rw [List.length_append, List.length_singleton]
    exact room
  obtain ⟨stored, done, begins⟩ := storeText_zero out length
  refine ⟨stored, ?_, begins⟩
  rw [uint8ArrayToDecimal, if_neg (by omega)]
  simp only [digits]
  rw [if_neg (by omega), done, ok_bind]

end Decimal

/-! ## The point -/

section Point

variable {length size : ℕ}

theorem leading_eq (len decimals : ℕ) :
    (if len < decimals then decimals - len else 0) = decimals - len := by
  split
  · rfl
  · omega

theorem length_placePoint (decimals : ℕ) (digits : List Char) :
    (placePoint decimals digits).length =
      (if digits.length > decimals then digits.length - decimals else 1) + 1 +
        (decimals - digits.length) +
          (if digits.length > decimals then decimals else digits.length) := by
  by_cases short : digits.length ≤ decimals
  · rw [placePoint, if_pos short, if_neg (Nat.not_lt.mpr short),
      if_neg (Nat.not_lt.mpr short)]
    simp only [List.length_append, List.length_cons, List.length_nil, List.length_replicate]
  · rw [placePoint, if_neg short, if_pos (Nat.not_le.mp short),
      if_pos (Nat.not_le.mp short)]
    simp only [List.length_append, List.length_cons, List.length_take, List.length_drop]
    omega

theorem placeDigits_eq {raw : Buffer length} {digits : List Char}
    (begins : raw.Begins (digits ++ [nul])) (decimals : ℕ) (out : Buffer size)
    (room : (placePoint decimals digits).length + 1 ≤ size) :
    ∃ stored, placeDigits raw digits.length decimals (decimals - digits.length) out =
          .ok (stored, (placePoint decimals digits).length) ∧
      stored.Begins (placePoint decimals digits) := by
  have counted := length_placePoint decimals digits
  have taken : ∀ {start count : ℕ}, start + count ≤ digits.length →
      readText raw start count = .ok ((digits.drop start).take count) := by
    intro start count inside
    have whole := begins.take digits.length
    rw [List.take_left] at whole
    exact readText_eq whole inside
  by_cases short : digits.length ≤ decimals
  · rw [if_neg (Nat.not_lt.mpr short), if_neg (Nat.not_lt.mpr short)] at counted
    have text : placePoint decimals digits =
        ['0'] ++ ['.'] ++ List.replicate (decimals - digits.length) '0' ++ digits := by
      rw [placePoint, if_pos short]
      rfl
    obtain ⟨out1, done1, begins1⟩ :=
      storeText_zero out (show ['0'].length ≤ size by rw [List.length_singleton]; omega)
    obtain ⟨out2, done2, begins2⟩ := storeText_append begins1
      (show 1 = ['0'].length from rfl)
      (show 1 + ['.'].length ≤ size by rw [List.length_singleton]; omega)
    have zeros : 2 + (List.replicate (decimals - digits.length) '0').length ≤ size := by
      rw [List.length_replicate]
      omega
    obtain ⟨out3, done3, begins3⟩ := storeText_append begins2
      (show 2 = (['0'] ++ ['.']).length from rfl) zeros
    have position : 2 + (decimals - digits.length) =
        (['0'] ++ ['.'] ++ List.replicate (decimals - digits.length) '0').length := by
      simp only [List.length_append, List.length_cons, List.length_nil,
        List.length_replicate]
    obtain ⟨out4, done4, begins4⟩ := storeText_append begins3 position
      (show 2 + (decimals - digits.length) + digits.length ≤ size by omega)
    have read := taken (show 0 + digits.length ≤ digits.length by omega)
    rw [List.drop_zero, List.take_length] at read
    refine ⟨out4, ?_, by rw [text]; exact begins4⟩
    rw [placeDigits, if_pos short, done1, ok_bind, done2, ok_bind, done3, ok_bind, read,
      ok_bind, done4, ok_bind, counted]
  · rw [if_pos (Nat.not_le.mp short), if_pos (Nat.not_le.mp short)] at counted
    have text : placePoint decimals digits =
        digits.take (digits.length - decimals) ++ ['.'] ++
          digits.drop (digits.length - decimals) := by
      rw [placePoint, if_neg short, List.append_assoc, List.singleton_append]
    have wholeLength : (digits.take (digits.length - decimals)).length =
        digits.length - decimals := List.length_take_of_le (Nat.sub_le _ _)
    have fractionLength : (digits.drop (digits.length - decimals)).length = decimals := by
      rw [List.length_drop]
      omega
    obtain ⟨out1, done1, begins1⟩ := storeText_zero out
      (show (digits.take (digits.length - decimals)).length ≤ size by omega)
    obtain ⟨out2, done2, begins2⟩ := storeText_append begins1 wholeLength.symm
      (show digits.length - decimals + ['.'].length ≤ size by
        rw [List.length_singleton]; omega)
    have position : digits.length - decimals + 1 =
        (digits.take (digits.length - decimals) ++ ['.']).length := by
      rw [List.length_append, wholeLength, List.length_singleton]
    obtain ⟨out3, done3, begins3⟩ := storeText_append begins2 position
      (show digits.length - decimals + 1 +
        (digits.drop (digits.length - decimals)).length ≤ size by omega)
    have readWhole := taken (show 0 + (digits.length - decimals) ≤ digits.length by omega)
    have readFraction := taken (show digits.length - decimals + decimals ≤ digits.length by
      omega)
    rw [List.drop_zero] at readWhole
    rw [List.take_of_length_le fractionLength.le] at readFraction
    refine ⟨out3, ?_, by rw [text]; exact begins3⟩
    rw [placeDigits, if_neg short]
    simp only [readWhole, ok_bind, done1, done2, readFraction, done3, counted]
    congr 2
    omega

theorem dropZeros_eq : ∀ (text : List Char) {out : Buffer size},
    out.Begins (text ++ [nul]) →
      ∃ stored, dropZeros out text.length =
          .ok (stored, (text.rdropWhile (· = '0')).length) ∧
        stored.Begins (text.rdropWhile (· = '0') ++ [nul]) := by
  intro text
  induction text using List.reverseRecOn with
  | nil =>
      intro out begins
      exact ⟨out, by rw [List.rdropWhile_nil]; rfl, begins⟩
  | append_singleton text last induction =>
      intro out begins
      have fits := begins.length_le
      rw [List.length_append, List.length_append, List.length_singleton,
        List.length_singleton] at fits
      have read : readChar out text.length = .ok last := by
        rw [readChar_eq begins (by simp)]
        simp
      rw [List.length_append, List.length_singleton, dropZeros, read, ok_bind]
      by_cases zero : last = '0'
      · obtain ⟨out1, done1, begins1⟩ := storeText_take begins
          (show text.length ≤ (text ++ [last] ++ [nul]).length by simp)
          (show text.length + [nul].length ≤ size by rw [List.length_singleton]; omega)
        rw [List.append_assoc, List.take_left] at begins1
        obtain ⟨stored, done, result⟩ := induction begins1
        have dropped : (text ++ [last]).rdropWhile (· = '0') =
            text.rdropWhile (· = '0') := by
          rw [zero, rdropWhile_concat_zero]
        refine ⟨stored, ?_, by rw [dropped]; exact result⟩
        rw [if_pos zero, done1, ok_bind, done, dropped]
      · have kept := rdropWhile_concat_of_ne text zero
        refine ⟨out, ?_, by rw [kept]; exact begins⟩
        rw [if_neg zero, kept, List.length_append, List.length_singleton]

theorem dropPoint_eq (text : List Char) {out : Buffer size}
    (begins : out.Begins (text ++ [nul])) :
    ∃ stored, dropPoint out text.length = .ok stored ∧
      stored.Begins (trimPoint text ++ [nul]) := by
  cases text using List.reverseRecOn with
  | nil => exact ⟨out, rfl, begins⟩
  | append_singleton text last =>
      have fits := begins.length_le
      rw [List.length_append, List.length_append, List.length_singleton,
        List.length_singleton] at fits
      have read : readChar out text.length = .ok last := by
        rw [readChar_eq begins (by simp)]
        simp
      rw [List.length_append, List.length_singleton, dropPoint, read, ok_bind, trimPoint,
        List.getLast?_concat]
      by_cases point : last = '.'
      · obtain ⟨stored, done, result⟩ := storeText_take begins
          (show text.length ≤ (text ++ [last] ++ [nul]).length by simp)
          (show text.length + [nul].length ≤ size by rw [List.length_singleton]; omega)
        rw [List.append_assoc, List.take_left] at result
        rw [if_pos point, if_pos (congrArg some point), List.dropLast_concat]
        exact ⟨stored, done, result⟩
      · rw [if_neg point, if_neg (by simpa using point)]
        exact ⟨out, rfl, begins⟩

theorem formatWithDecimals_eq {raw : Buffer length} {digits : List Char}
    (begins : raw.Begins (digits ++ [nul])) (plain : nul ∉ digits) {decimals : ℕ}
    (positive : 0 < decimals) (out : Buffer size)
    (room : (placePoint decimals digits).length + 1 ≤ size) :
    ∃ stored, formatWithDecimals raw decimals out = .ok (true, stored) ∧
      stored.Begins (trimDecimals (placePoint decimals digits) ++ [nul]) := by
  have counted := length_placePoint decimals digits
  have len : strlen raw = .ok digits.length := by
    rw [strlen, begins.string_eq plain]
  obtain ⟨out1, done1, begins1⟩ := placeDigits_eq begins decimals out room
  obtain ⟨out2, done2, begins2⟩ := storeText_append begins1 rfl
    (show (placePoint decimals digits).length + [nul].length ≤ size by
      rwa [List.length_singleton])
  obtain ⟨out3, done3, begins3⟩ := dropZeros_eq _ begins2
  obtain ⟨out4, done4, begins4⟩ := dropPoint_eq _ begins3
  refine ⟨out4, ?_, begins4⟩
  rw [formatWithDecimals, if_neg (by omega), len, ok_bind, if_neg (by omega)]
  simp only [leading_eq]
  rw [← counted, if_neg (by omega), done1, ok_bind, done2, ok_bind, done3, ok_bind, done4,
    ok_bind]

/-- The text of an amount in units of `10 ^ 18`. -/
theorem formatQrlAmount_eq {amount : List UInt8} (few : amount.length ≤ maxIntegerBytes)
    (out : Buffer size)
    (room : (placePoint 18 (decimalText (bigEndian amount))).length + 1 ≤ size) :
    ∃ stored, formatQrlAmount amount out = .ok (true, stored) ∧
      stored.Begins (fixedText 18 (bigEndian amount) ++ [nul]) := by
  have digits := length_decimalText_bigEndian_le few
  obtain ⟨decimal, converted, begins⟩ := uint8ArrayToDecimal_eq few
    (Vector.replicate (maxDecimalDigits + 1) nul) (by omega)
  obtain ⟨stored, done, result⟩ := formatWithDecimals_eq begins
    (nul_not_mem (digits_decimalText _)) (show 0 < 18 by norm_num) out room
  refine ⟨stored, ?_, result⟩
  rw [formatQrlAmount, converted, ok_bind]
  exact done

end Point

/-! ## Products -/

section Product

variable {a b : List UInt8} {accum : List ℕ}

def columns (fullLen : ℕ) (accum : List ℕ) : ℕ := positional 256 (accum.take fullLen)

def Bounded (bound : ℕ) (accum : List ℕ) : Prop := ∀ column ∈ accum, column ≤ bound

theorem readWord_eq {index : ℕ} (inside : index < accum.length) :
    readWord accum index = .ok accum[index] := by
  rw [readWord, List.getElem?_eq_getElem inside]

theorem readByte_eq {bytes : List UInt8} {index : ℕ} (inside : index < bytes.length) :
    readByte bytes index = .ok bytes[index].toNat := by
  rw [readByte, List.getElem?_eq_getElem inside]

theorem storeWord_eq {index value : ℕ} (inside : index < accum.length)
    (small : value < 2 ^ 32) : storeWord accum index value = .ok (accum.set index value) := by
  rw [storeWord, if_pos inside, Nat.mod_eq_of_lt small]

theorem columns_set {fullLen index : ℕ} (inside : index < fullLen)
    (fits : fullLen ≤ accum.length) (value : ℕ) :
    columns fullLen (accum.set index value) +
        accum[index] * 256 ^ (fullLen - 1 - index) =
      columns fullLen accum + value * 256 ^ (fullLen - 1 - index) := by
  have length : (accum.take fullLen).length = fullLen := List.length_take_of_le fits
  have step := positional_set 256 value
    (show index < (accum.take fullLen).length by omega)
  simp only [length, List.getElem_take] at step
  rw [columns, columns, List.take_set, step]

/-- The rounds of the inner loop that are done count their columns. -/
def Accumulated (a b : List UInt8) (rounds value : ℕ) (accum : List ℕ) : Prop :=
  accum.length = maxIntegerBytes ∧ Bounded (rounds * 65025) accum ∧
    columns (a.length + b.length) accum = value

theorem byte_product_le (left right : UInt8) : left.toNat * right.toNat ≤ 65025 := by
  have leftRange := left.toNat_lt
  have rightRange := right.toNat_lt
  calc left.toNat * right.toNat ≤ 255 * 255 := Nat.mul_le_mul (by omega) (by omega)
    _ = 65025 := rfl

theorem accumulate_eq (total : a.length + b.length ≤ maxIntegerBytes) {rounds value i j : ℕ}
    (row : i < a.length) (column : j < b.length) (few : rounds < 400)
    (before : Accumulated a b rounds value accum) :
    ∃ after, accumulate a b i j accum = .ok after ∧
      Accumulated a b (rounds + 1)
        (value + a[a.length - 1 - i].toNat * b[b.length - 1 - j].toNat * 256 ^ (i + j))
        after := by
  obtain ⟨length, bounded, counted⟩ := before
  have index : a.length + b.length - 1 - (i + j) < accum.length := by omega
  have product := byte_product_le a[a.length - 1 - i] b[b.length - 1 - j]
  have old := bounded accum[a.length + b.length - 1 - (i + j)] (List.getElem_mem index)
  have room : a.length + b.length - 1 - (i + j) < a.length + b.length := by omega
  have small : accum[a.length + b.length - 1 - (i + j)] +
      a[a.length - 1 - i].toNat * b[b.length - 1 - j].toNat < 2 ^ 32 := by omega
  have step := columns_set room (show a.length + b.length ≤ accum.length by omega)
    (accum[a.length + b.length - 1 - (i + j)] +
      a[a.length - 1 - i].toNat * b[b.length - 1 - j].toNat)
  have weight : a.length + b.length - 1 - (a.length + b.length - 1 - (i + j)) = i + j := by
    omega
  rw [weight, Nat.add_mul, ← Nat.add_assoc, Nat.add_right_comm] at step
  refine ⟨accum.set (a.length + b.length - 1 - (i + j))
    (accum[a.length + b.length - 1 - (i + j)] +
      a[a.length - 1 - i].toNat * b[b.length - 1 - j].toNat), ?_, ?_⟩
  · rw [accumulate, readByte_eq (show a.length - 1 - i < a.length by omega), ok_bind,
      readByte_eq (show b.length - 1 - j < b.length by omega), ok_bind,
      sizeSub, if_pos (by omega), ok_bind, readWord_eq index, ok_bind,
      storeWord_eq index small]
  · refine ⟨by rw [List.length_set, length], ?_, ?_⟩
    · intro column member
      rcases List.mem_or_eq_of_mem_set member with kept | rfl
      · exact (bounded column kept).trans (Nat.mul_le_mul_right _ (Nat.le_succ _))
      · rw [Nat.add_mul, Nat.one_mul]
        exact Nat.add_le_add old product
    · rw [← counted]
      exact Nat.add_right_cancel step

theorem bigEndian_drop_succ {bytes : List UInt8} {count : ℕ} (inside : count < bytes.length) :
    bigEndian (bytes.drop (bytes.length - (count + 1))) =
      bytes[bytes.length - 1 - count].toNat * 256 ^ count +
        bigEndian (bytes.drop (bytes.length - count)) := by
  have first : bytes.length - (count + 1) = bytes.length - 1 - count := by omega
  have next : bytes.length - 1 - count + 1 = bytes.length - count := by omega
  have size : (bytes.drop (bytes.length - count)).length = count := by
    rw [List.length_drop]
    omega
  rw [first, List.drop_eq_getElem_cons (show bytes.length - 1 - count < bytes.length by omega),
    bigEndian_cons, next, size]

theorem accumulateRow_eq (total : a.length + b.length ≤ maxIntegerBytes) {rounds value i : ℕ}
    (row : i < a.length) (before : Accumulated a b rounds value accum) :
    ∀ {count : ℕ}, count ≤ b.length → rounds + count ≤ 400 →
      ∃ after, accumulateRow a b i count accum = .ok after ∧
        Accumulated a b (rounds + count)
          (value + a[a.length - 1 - i].toNat * 256 ^ i *
            bigEndian (b.drop (b.length - count))) after := by
  intro count
  induction count with
  | zero =>
      intro _ _
      refine ⟨accum, rfl, ?_⟩
      rwa [Nat.sub_zero, List.drop_length, bigEndian_nil, Nat.mul_zero, Nat.add_zero,
        Nat.add_zero]
  | succ count induction =>
      intro within few
      obtain ⟨middle, done, reached⟩ := induction (by omega) (by omega)
      obtain ⟨after, step, result⟩ := accumulate_eq total row
        (show count < b.length by omega) (by omega) reached
      refine ⟨after, by rw [accumulateRow, done, ok_bind, step], ?_⟩
      have sum : value + a[a.length - 1 - i].toNat * 256 ^ i *
            bigEndian (b.drop (b.length - (count + 1))) =
          value + a[a.length - 1 - i].toNat * 256 ^ i *
              bigEndian (b.drop (b.length - count)) +
            a[a.length - 1 - i].toNat * b[b.length - 1 - count].toNat * 256 ^ (i + count) := by
        rw [bigEndian_drop_succ within, pow_add]
        ring
      rw [sum, ← Nat.add_assoc]
      exact result

theorem length_mul_length_le (total : a.length + b.length ≤ maxIntegerBytes) :
    a.length * b.length ≤ 400 := by
  have square : 4 * a.length * b.length ≤ 1600 :=
    (four_mul_le_sq_add a.length b.length).trans (Nat.pow_le_pow_left total 2)
  rw [Nat.mul_assoc] at square
  omega

theorem rounds_le (total : a.length + b.length ≤ maxIntegerBytes) {count : ℕ}
    (within : count < a.length) : count * b.length + b.length ≤ 400 := by
  calc count * b.length + b.length = (count + 1) * b.length := (Nat.succ_mul _ _).symm
    _ ≤ a.length * b.length := Nat.mul_le_mul_right _ within
    _ ≤ 400 := length_mul_length_le total

theorem product_lt (a b : List UInt8) :
    bigEndian a * bigEndian b < 256 ^ (a.length + b.length) := by
  rw [pow_add]
  exact Nat.mul_lt_mul'' (bigEndian_lt a) (bigEndian_lt b)

theorem accumulateRows_eq (total : a.length + b.length ≤ maxIntegerBytes)
    (before : Accumulated a b 0 0 accum) :
    ∀ {count : ℕ}, count ≤ a.length →
      ∃ after, accumulateRows a b count accum = .ok after ∧
        Accumulated a b (count * b.length)
          (bigEndian (a.drop (a.length - count)) * bigEndian b) after := by
  intro count
  induction count with
  | zero =>
      intro _
      refine ⟨accum, rfl, ?_⟩
      rwa [Nat.sub_zero, List.drop_length, bigEndian_nil, Nat.zero_mul, Nat.zero_mul]
  | succ count induction =>
      intro within
      obtain ⟨middle, done, reached⟩ := induction (by omega)
      obtain ⟨after, step, result⟩ := accumulateRow_eq total within reached le_rfl
        (rounds_le total within)
      refine ⟨after, by rw [accumulateRows, done, ok_bind, step], ?_⟩
      have sum : bigEndian (a.drop (a.length - (count + 1))) * bigEndian b =
          bigEndian (a.drop (a.length - count)) * bigEndian b +
            a[a.length - 1 - count].toNat * 256 ^ count * bigEndian b := by
        rw [bigEndian_drop_succ within]
        ring
      rw [Nat.sub_self, List.drop_zero] at result
      rw [sum, Nat.succ_mul]
      exact result

/-- The columns while the carries of those behind `i` are done. -/
structure Carrying (fullLen value i : ℕ) (accum : List ℕ) : Prop where
  length : accum.length = maxIntegerBytes
  counted : columns fullLen accum = value
  open_le : ∀ k (inside : k < accum.length), k < i → accum[k] ≤ 26010000
  current_le : ∀ inside : i < accum.length, accum[i] ≤ 26141072
  carried : ∀ k (inside : k < accum.length), i < k → k < fullLen → accum[k] < 256

theorem columns_carry {fullLen i : ℕ} (inside : i + 1 < fullLen)
    (fits : fullLen ≤ accum.length) :
    columns fullLen ((accum.set i (accum[i] + accum[i + 1] / 256)).set (i + 1)
      (accum[i + 1] % 256)) = columns fullLen accum := by
  have high := columns_set (show i < fullLen by omega) fits (accum[i] + accum[i + 1] / 256)
  have fits' : fullLen ≤ (accum.set i (accum[i] + accum[i + 1] / 256)).length := by
    rwa [List.length_set]
  have low := columns_set inside fits' (accum[i + 1] % 256)
  have kept : (accum.set i (accum[i] + accum[i + 1] / 256))[i + 1] = accum[i + 1] :=
    List.getElem_set_ne (by omega) _
  have weight : fullLen - 1 - i = fullLen - 1 - (i + 1) + 1 := by omega
  have divided := Nat.div_add_mod accum[i + 1] 256
  rw [kept] at low
  rw [weight, pow_succ] at high
  generalize 256 ^ (fullLen - 1 - (i + 1)) = w at high low
  have whole : accum[i + 1] * w =
      accum[i + 1] / 256 * (w * 256) + accum[i + 1] % 256 * w := by
    calc accum[i + 1] * w = (256 * (accum[i + 1] / 256) + accum[i + 1] % 256) * w := by
          rw [divided]
      _ = _ := by ring
  rw [Nat.add_mul] at high
  omega

theorem Carrying.step {fullLen value i : ℕ} (before : Carrying fullLen value (i + 1) accum)
    (within : i + 1 < fullLen) (fits : fullLen ≤ maxIntegerBytes)
    (inside : i < accum.length) (inside' : i + 1 < accum.length) :
    Carrying fullLen value i
      ((accum.set i (accum[i] + accum[i + 1] / 256)).set (i + 1) (accum[i + 1] % 256)) := by
  have size := before.length
  have low := before.current_le inside'
  have high := before.open_le i inside (Nat.lt_succ_self i)
  refine ⟨by rw [List.length_set, List.length_set, size], ?_, ?_, ?_, ?_⟩
  · rw [columns_carry within (by omega), before.counted]
  · intro k bound below
    rw [List.getElem_set_ne (by omega), List.getElem_set_ne (by omega)]
    exact before.open_le k (by omega) (by omega)
  · intro bound
    rw [List.getElem_set_ne (by omega), List.getElem_set_self]
    omega
  · intro k bound above below
    by_cases first : k = i + 1
    · subst first
      rw [List.getElem_set_self]
      exact Nat.mod_lt _ (by norm_num)
    · rw [List.getElem_set_ne (by omega), List.getElem_set_ne (by omega)]
      exact before.carried k (by omega) (by omega) below

theorem carry_succ {fullLen value i : ℕ} (before : Carrying fullLen value (i + 1) accum)
    (inside : i < accum.length) (inside' : i + 1 < accum.length) :
    carry (i + 1) accum = carry i
      ((accum.set i (accum[i] + accum[i + 1] / 256)).set (i + 1) (accum[i + 1] % 256)) := by
  have low := before.current_le inside'
  have high := before.open_le i inside (Nat.lt_succ_self i)
  have shift : accum[i + 1] >>> 8 = accum[i + 1] / 256 := Nat.shiftRight_eq_div_pow _ 8
  have mask : accum[i + 1] &&& 0xff = accum[i + 1] % 256 := Nat.and_two_pow_sub_one_eq_mod _ 8
  rw [carry, readWord_eq inside', ok_bind, readWord_eq inside, ok_bind, shift, mask,
    storeWord_eq inside (by omega), ok_bind,
    storeWord_eq (by rw [List.length_set]; exact inside') (by omega), ok_bind]

theorem carry_eq {fullLen value : ℕ} (fits : fullLen ≤ maxIntegerBytes) :
    ∀ {i : ℕ} {accum : List ℕ}, i < fullLen → Carrying fullLen value i accum →
      ∃ after, carry i accum = .ok after ∧ Carrying fullLen value 0 after := by
  intro i
  induction i with
  | zero => exact fun _ before => ⟨_, rfl, before⟩
  | succ i induction =>
      intro accum within before
      have size := before.length
      have inside : i < accum.length := by omega
      have inside' : i + 1 < accum.length := by omega
      rw [carry_succ before inside inside']
      exact induction (by omega) (before.step within fits inside inside')

theorem firstSignificant_eq : ∀ {left first : ℕ}, first + left < accum.length →
    ∃ found, firstSignificant accum left first = .ok found ∧ first ≤ found ∧
      found ≤ first + left ∧
      (∀ k (inside : k < accum.length), first ≤ k → k < found → accum[k] = 0) ∧
      ∀ inside : found < accum.length, found < first + left → accum[found] ≠ 0 := by
  intro left
  induction left with
  | zero => exact fun _ => ⟨_, rfl, le_rfl, le_rfl, by omega, by omega⟩
  | succ left induction =>
      intro first bound
      have inside : first < accum.length := by omega
      rw [firstSignificant, readWord_eq inside, ok_bind]
      by_cases zero : accum[first] = 0
      · obtain ⟨found, done, above, below, zeros, nonzero⟩ :=
          induction (show first + 1 + left < accum.length by omega)
        refine ⟨found, by rw [if_pos zero, done], by omega, by omega, ?_, ?_⟩
        · intro k bound' from' before
          by_cases start : k = first
          · subst start
            exact zero
          · exact zeros k bound' (by omega) before
        · intro bound' before
          exact nonzero bound' (by omega)
      · refine ⟨first, by rw [if_neg zero], le_rfl, by omega, by omega, ?_⟩
        exact fun _ _ => zero

theorem storeSignificant_eq {first : ℕ} {out : List UInt8} :
    ∀ {count : ℕ}, first + count ≤ accum.length → count ≤ out.length →
      ∃ stored, storeSignificant accum first out count = .ok stored ∧
        stored.length = out.length ∧
        stored.take count = ((accum.drop first).take count).map UInt8.ofNat := by
  intro count
  induction count with
  | zero => exact fun _ _ => ⟨out, rfl, rfl, rfl⟩
  | succ count induction =>
      intro within room
      obtain ⟨stored, done, length, taken⟩ := induction (by omega) (by omega)
      have inside : first + count < accum.length := by omega
      refine ⟨stored.set count (UInt8.ofNat accum[first + count]), ?_, ?_, ?_⟩
      · rw [storeSignificant, done, ok_bind, readWord_eq inside, ok_bind, if_pos (by omega)]
      · rw [List.length_set, length]
      · have next : count < (accum.drop first).length := by
          rw [List.length_drop]
          omega
        rw [List.take_succ_eq_append_getElem (by rw [List.length_set]; omega),
          List.getElem_set_self, List.take_set_of_le le_rfl, taken,
          List.take_succ_eq_append_getElem next, List.map_append, List.map_singleton,
          List.getElem_drop]

theorem accumulated_zero : Accumulated a b 0 0 (List.replicate maxIntegerBytes 0) := by
  refine ⟨List.length_replicate, ?_, ?_⟩
  · intro column member
    rw [List.eq_of_mem_replicate member]
  · rw [columns, List.take_replicate, ← List.append_nil (List.replicate _ 0),
      positional_replicate_zero, positional_nil]

theorem Accumulated.carrying {rounds value : ℕ}
    (done : Accumulated a b rounds value accum) (few : rounds ≤ 400) :
    Carrying (a.length + b.length) value (a.length + b.length - 1) accum := by
  obtain ⟨length, bounded, counted⟩ := done
  have small : ∀ k (inside : k < accum.length), accum[k] ≤ 26010000 := fun k inside =>
    (bounded accum[k] (List.getElem_mem inside)).trans (Nat.mul_le_mul_right 65025 few)
  exact
    { length := length
      counted := counted
      open_le := fun k inside _ => small k inside
      current_le := fun inside => (small _ inside).trans (by norm_num)
      carried := fun k _ above below => by omega }

/-- After the carries all columns are bytes. -/
theorem Carrying.column_lt {fullLen value : ℕ} (carried : Carrying fullLen value 0 accum)
    (fits : fullLen ≤ maxIntegerBytes) (bound : value < 256 ^ fullLen) {k : ℕ}
    (inside : k < accum.length) (counts : k < fullLen) : accum[k] < 256 := by
  cases k with
  | succ k => exact carried.carried _ inside (Nat.succ_pos k) counts
  | zero =>
      have size := carried.length
      have top := columns_set counts (show fullLen ≤ accum.length by omega) 0
      have weight : fullLen = fullLen - 1 - 0 + 1 := by omega
      rw [Nat.zero_mul, Nat.add_zero, carried.counted] at top
      have below : accum[0] * 256 ^ (fullLen - 1 - 0) < 256 * 256 ^ (fullLen - 1 - 0) := by
        rw [← pow_succ', ← weight]
        omega
      exact Nat.lt_of_mul_lt_mul_right below

/-- The shortest big-endian form, one byte for zero. -/
def shortestForm (number : ℕ) : List UInt8 :=
  if number = 0 then [0] else minimalBytes number

theorem shortestForm_bigEndian {bytes : List UInt8} (nonempty : bytes ≠ [])
    (leading : bytes.head? = some 0 → bytes = [0]) : shortestForm (bigEndian bytes) = bytes := by
  by_cases zero : bytes.head? = some 0
  · rw [leading zero]
    rfl
  · have minimal := minimalBytes_bigEndian zero
    rw [shortestForm, if_neg, minimal]
    intro none
    rw [none, minimalBytes_zero] at minimal
    exact nonempty minimal.symm

theorem length_shortestForm_le {number count : ℕ} (positive : 0 < count)
    (bound : number < 256 ^ count) : (shortestForm number).length ≤ count := by
  rw [shortestForm]
  split
  · exact positive
  · exact length_minimalBytes_le.mpr bound

def significantBytes (fullLen first : ℕ) (digits : List ℕ) : List UInt8 :=
  ((digits.drop first).take (fullLen - first)).map UInt8.ofNat

theorem bigEndian_significantBytes {fullLen value first : ℕ}
    (carried : Carrying fullLen value 0 accum) (fits : fullLen ≤ maxIntegerBytes)
    (bound : value < 256 ^ fullLen) (within : first ≤ fullLen)
    (zeros : ∀ k (inside : k < accum.length), k < first → accum[k] = 0) :
    bigEndian (significantBytes fullLen first accum) = value := by
  have size := carried.length
  have bytes : ((accum.drop first).take (fullLen - first)).map (UInt8.toNat ∘ UInt8.ofNat) =
      (accum.drop first).take (fullLen - first) := by
    conv_rhs => rw [← List.map_id ((accum.drop first).take _)]
    apply List.map_congr_left
    intro digit member
    obtain ⟨k, inside, rfl⟩ := List.getElem_of_mem member
    rw [List.length_take, List.length_drop] at inside
    rw [List.getElem_take, List.getElem_drop, Function.comp_apply, UInt8.toNat_ofNat',
      Nat.mod_eq_of_lt (carried.column_lt fits bound _ (by omega))]
    rfl
  have leading : accum.take first = List.replicate first 0 := by
    apply List.eq_replicate_iff.mpr
    refine ⟨List.length_take_of_le (by omega), ?_⟩
    intro digit member
    obtain ⟨k, inside, rfl⟩ := List.getElem_of_mem member
    rw [List.length_take] at inside
    rw [List.getElem_take]
    exact zeros k (by omega) (by omega)
  have parts : accum.take fullLen =
      List.replicate first 0 ++ (accum.drop first).take (fullLen - first) := by
    rw [← leading, ← List.take_add]
    congr 1
    omega
  rw [significantBytes, bigEndian, List.map_map, bytes, ← positional_replicate_zero first,
    ← parts]
  exact carried.counted

theorem significantBytes_product (total : a.length + b.length ≤ maxIntegerBytes)
    (nonempty : 0 < a.length + b.length) :
    ∃ sums digits first,
      accumulateRows a b a.length (List.replicate maxIntegerBytes 0) = .ok sums ∧
      Accumulated a b (a.length * b.length) (bigEndian a * bigEndian b) sums ∧
      carry (a.length + b.length - 1) sums = .ok digits ∧
      Carrying (a.length + b.length) (bigEndian a * bigEndian b) 0 digits ∧
      firstSignificant digits (a.length + b.length - 1) 0 = .ok first ∧
      first < a.length + b.length ∧
      significantBytes (a.length + b.length) first digits =
        shortestForm (bigEndian a * bigEndian b) := by
  obtain ⟨sums, doneSums, accumulated⟩ := accumulateRows_eq total accumulated_zero le_rfl
  rw [Nat.sub_self, List.drop_zero] at accumulated
  obtain ⟨digits, doneCarry, carried⟩ := carry_eq total
    (show a.length + b.length - 1 < a.length + b.length by omega)
    (accumulated.carrying (length_mul_length_le total))
  have size := carried.length
  obtain ⟨first, doneFirst, _, within, zeros, nonzero⟩ := firstSignificant_eq
    (show 0 + (a.length + b.length - 1) < digits.length by omega)
  have value := bigEndian_significantBytes carried total (product_lt a b)
    (show first ≤ a.length + b.length by omega)
    (fun k inside before => zeros k inside (Nat.zero_le k) before)
  refine ⟨sums, digits, first, doneSums, accumulated, doneCarry, carried, doneFirst, by omega, ?_⟩
  have inside : first < digits.length := by omega
  obtain ⟨count, more⟩ : ∃ count, a.length + b.length - first = count + 1 :=
    ⟨a.length + b.length - first - 1, by omega⟩
  have shape : significantBytes (a.length + b.length) first digits =
      UInt8.ofNat digits[first] :: ((digits.drop (first + 1)).take count).map UInt8.ofNat := by
    rw [significantBytes, more, List.drop_eq_getElem_cons inside, List.take_succ_cons,
      List.map_cons]
  have leading : (significantBytes (a.length + b.length) first digits).head? = some 0 →
      significantBytes (a.length + b.length) first digits = [0] := by
    intro zero
    rw [shape, List.head?_cons, Option.some.injEq] at zero
    have none : digits[first] = 0 := by
      have byte := congrArg UInt8.toNat zero
      rwa [UInt8.toNat_ofNat', Nat.mod_eq_of_lt
        (carried.column_lt total (product_lt a b) inside (by omega))] at byte
    have last : count = 0 := by
      by_contra another
      exact nonzero inside (by omega) none
    rw [shape, last, List.take_zero, List.map_nil, zero]
  have same := shortestForm_bigEndian (by rw [shape]; exact List.cons_ne_nil _ _) leading
  rw [value] at same
  exact same.symm

/-- The result of a multiplication: it succeeds exactly when the shortest form of the
product fits, and changes nothing otherwise. -/
structure Multiplied (a b : List UInt8) (product : Product) (accepted : Bool)
    (result : Product) : Prop where
  accepted_iff : accepted = true ↔
    (shortestForm (bigEndian a * bigEndian b)).length ≤ product.outLen
  exact : accepted = true →
    result.out.take result.outLen = shortestForm (bigEndian a * bigEndian b)
  refused : accepted = false → result = product

theorem multiplied_refused {product : Product}
    (small : product.outLen < (shortestForm (bigEndian a * bigEndian b)).length) :
    Multiplied a b product false product :=
  { accepted_iff := iff_of_false Bool.false_ne_true (Nat.not_le.mpr small)
    exact := fun impossible => absurd impossible Bool.false_ne_true
    refused := fun _ => rfl }

theorem multiplied_accepted {product result : Product}
    (room : (shortestForm (bigEndian a * bigEndian b)).length ≤ product.outLen)
    (bytes : result.out.take result.outLen = shortestForm (bigEndian a * bigEndian b)) :
    Multiplied a b product true result :=
  { accepted_iff := iff_of_true rfl room
    exact := fun _ => bytes
    refused := fun impossible => absurd impossible.symm Bool.false_ne_true }

theorem multiplyUint8Arrays_multiplied (total : a.length + b.length ≤ maxIntegerBytes)
    {product : Product} (room : product.outLen ≤ product.out.length) :
    ∃ accepted result, multiplyUint8Arrays a b product = .ok (accepted, result) ∧
      Multiplied a b product accepted result := by
  by_cases empty : a.length + b.length = 0
  · have noA : a = [] := List.length_eq_zero_iff.mp (by omega)
    have noB : b = [] := List.length_eq_zero_iff.mp (by omega)
    subst noA noB
    have one : shortestForm (bigEndian [] * bigEndian []) = [0] := rfl
    rw [multiplyUint8Arrays, if_neg (by omega)]
    simp only
    rw [if_pos empty]
    by_cases small : product.outLen < 1
    · rw [if_pos small]
      exact ⟨_, _, rfl, multiplied_refused (by rwa [one])⟩
    · rw [if_neg small, if_pos (by omega)]
      refine ⟨_, _, rfl, multiplied_accepted (by rw [one]; exact Nat.le_of_not_lt small) ?_⟩
      cases outEq : product.out with
      | nil =>
          rw [outEq, List.length_nil] at room
          omega
      | cons first rest => rw [one, List.set_cons_zero, List.take_succ_cons, List.take_zero]
  · obtain ⟨sums, digits, first, doneSums, _, doneCarry, carried, doneFirst, within, bytes⟩ :=
      significantBytes_product total (Nat.pos_of_ne_zero empty)
    have size := carried.length
    have count : (shortestForm (bigEndian a * bigEndian b)).length =
        a.length + b.length - first := by
      rw [← bytes, significantBytes, List.length_map]
      exact List.length_take_of_le (by rw [List.length_drop]; omega)
    rw [multiplyUint8Arrays, if_neg (by omega)]
    simp only
    rw [if_neg empty, doneSums, ok_bind, doneCarry, ok_bind, doneFirst, ok_bind]
    by_cases small : a.length + b.length - first > product.outLen
    · rw [if_pos small]
      exact ⟨_, _, rfl, multiplied_refused (by rwa [count])⟩
    · obtain ⟨stored, doneStore, _, taken⟩ := storeSignificant_eq
        (show first + (a.length + b.length - first) ≤ digits.length by omega)
        (show a.length + b.length - first ≤ product.out.length by omega)
      rw [if_neg small, doneStore, ok_bind]
      exact ⟨_, _, rfl, multiplied_accepted (by rw [count]; exact Nat.le_of_not_lt small)
        (taken.trans bytes)⟩

/-- The product is exact. -/
theorem multiplyUint8Arrays_eq (total : a.length + b.length ≤ maxIntegerBytes)
    {product : Product} (present : 0 < product.outLen)
    (capacity : a.length + b.length ≤ product.outLen)
    (room : product.outLen ≤ product.out.length) :
    ∃ result, multiplyUint8Arrays a b product = .ok (true, result) ∧
      (result.out.take result.outLen).length ≤ maxIntegerBytes ∧
      bigEndian (result.out.take result.outLen) = bigEndian a * bigEndian b := by
  have larger : ∀ {count : ℕ}, a.length + b.length ≤ count →
      bigEndian a * bigEndian b < 256 ^ count := fun bound =>
    (product_lt a b).trans_le (Nat.pow_le_pow_right (by norm_num) bound)
  obtain ⟨accepted, result, done, multiplied⟩ := multiplyUint8Arrays_multiplied total room
  obtain rfl : accepted = true :=
    multiplied.accepted_iff.mpr (length_shortestForm_le present (larger capacity))
  refine ⟨result, done, ?_, ?_⟩
  · rw [multiplied.exact rfl]
    exact length_shortestForm_le (by norm_num [maxIntegerBytes]) (larger total)
  · rw [multiplied.exact rfl, shortestForm]
    split
    · rename_i zero
      rw [zero]
      rfl
    · exact bigEndian_minimalBytes _

end Product

end LedgerQrl.Display
