import LedgerQrl.Display.TxFormatExact
import LedgerQrl.Mldsa87.Sampling

namespace LedgerQrl.Display

open Foundation Transaction Mldsa87

/-! # Checksummed addresses

`format_checksummed_address` of `address_format.c`, over any SHAKE256. -/

def addressSize : ℕ := 64

/-- `hexc[nibble]`. -/
def hexDigit (nibble : ℕ) : Char :=
  ['0', '1', '2', '3', '4', '5', '6', '7', '8', '9', 'a', 'b', 'c', 'd', 'e', 'f'].getD
    nibble '0'

def hexText (bytes : List UInt8) : List Char :=
  bytes.flatMap fun byte => [hexDigit (byte.toNat >>> 4), hexDigit (byte.toNat &&& 0x0f)]

def asciiBytes (text : List Char) : List UInt8 :=
  text.map fun character => UInt8.ofNat character.toNat

/-- The second loop, over the characters below `count`. -/
def recase {size : ℕ} (mask : List UInt8) : (count : ℕ) → Buffer size →
    Checked (Buffer size)
  | 0, out => .ok out
  | i + 1, out => do
      let out ← recase mask i out
      let byte ← readByte mask (i / 2)
      let nibble := if i % 2 = 0 then byte >>> 4 else byte &&& 0x0f
      let character ← readChar out (1 + i)
      if 'a' ≤ character ∧ character ≤ 'f' ∧ nibble ≥ 8 then
        storeText out (1 + i) [Char.ofNat (character.toNat - ('a'.toNat - 'A'.toNat))]
      else .ok out

def formatChecksummedAddress {size : ℕ} (shake256 : Xof)
    (address : Vector UInt8 addressSize) (out : Buffer size) :
    Checked (Bool × Buffer size) :=
  if size < 1 + 2 * addressSize + 1 then .ok (false, out)
  else do
    let out ← storeText out 1 (hexText address.toList)
    let body ← readText out 1 (2 * addressSize)
    let mask := shakeOnce shake256 (asciiBytes body) addressSize
    let out ← recase mask (2 * addressSize) out
    let out ← storeText out 0 ['Q']
    let out ← storeText out (1 + 2 * addressSize) [nul]
    .ok (true, out)

/-! ## The text of an address -/

def recased (mask : List UInt8) (i : ℕ) (character : Char) : Char :=
  let byte := (mask.getD (i / 2) 0).toNat
  let nibble := if i % 2 = 0 then byte >>> 4 else byte &&& 0x0f
  if 'a' ≤ character ∧ character ≤ 'f' ∧ nibble ≥ 8 then
    Char.ofNat (character.toNat - ('a'.toNat - 'A'.toNat))
  else character

/-- An address with the casing of its checksum. -/
def checksummed (shake256 : Xof) (address : Vector UInt8 addressSize) : List Char :=
  'Q' :: (hexText address.toList).mapIdx
    (recased (shakeOnce shake256 (asciiBytes (hexText address.toList)) addressSize))

section Text

@[simp] theorem length_hexText (bytes : List UInt8) :
    (hexText bytes).length = 2 * bytes.length := by
  induction bytes with
  | nil => rfl
  | cons byte rest induction =>
      rw [hexText, List.flatMap_cons, List.length_append, List.length_cons] at *
      rw [induction]
      simp only [List.length_cons, List.length_nil]
      omega

theorem hexDigit_inj {left right : ℕ} (leftSmall : left < 16) (rightSmall : right < 16)
    (equal : hexDigit left = hexDigit right) : left = right := by
  revert equal
  interval_cases left <;> interval_cases right <;> decide

theorem toLower_hexDigit {nibble : ℕ} (small : nibble < 16) :
    (hexDigit nibble).toLower = hexDigit nibble := by
  interval_cases nibble <;> decide

theorem toLower_upper {nibble : ℕ} (small : nibble < 16) (letter : 'a' ≤ hexDigit nibble) :
    (Char.ofNat ((hexDigit nibble).toNat - ('a'.toNat - 'A'.toNat))).toLower =
      hexDigit nibble := by
  revert letter
  interval_cases nibble <;> decide

def HexDigits (text : List Char) : Prop := ∀ character ∈ text, ∃ nibble < 16,
  character = hexDigit nibble

theorem high_lt (byte : UInt8) : byte.toNat >>> 4 < 16 := by
  have range := byte.toNat_lt
  rw [Nat.shiftRight_eq_div_pow]
  omega

theorem low_lt (byte : UInt8) : byte.toNat &&& 0x0f < 16 :=
  Nat.and_lt_two_pow _ (show 0x0f < 2 ^ 4 by norm_num)

theorem hexDigits_hexText (bytes : List UInt8) : HexDigits (hexText bytes) := by
  intro character member
  obtain ⟨byte, _, digit⟩ := List.mem_flatMap.mp member
  rcases List.mem_cons.mp digit with rfl | last
  · exact ⟨_, high_lt byte, rfl⟩
  · rw [List.mem_singleton] at last
    exact ⟨_, low_lt byte, last⟩

theorem toLower_recased (mask : List UInt8) (i : ℕ) {nibble : ℕ} (small : nibble < 16) :
    (recased mask i (hexDigit nibble)).toLower = hexDigit nibble := by
  simp only [recased]
  generalize (if i % 2 = 0 then (mask.getD (i / 2) 0).toNat >>> 4
    else (mask.getD (i / 2) 0).toNat &&& 0x0f) = level
  split
  · rename_i upper
    exact toLower_upper small upper.1
  · exact toLower_hexDigit small

theorem byte_ext {left right : UInt8} (high : left.toNat >>> 4 = right.toNat >>> 4)
    (low : left.toNat &&& 0x0f = right.toNat &&& 0x0f) : left = right := by
  apply UInt8.toNat_inj.mp
  rw [Nat.shiftRight_eq_div_pow, Nat.shiftRight_eq_div_pow] at high
  have leftLow : left.toNat &&& 0x0f = left.toNat % 16 := Nat.and_two_pow_sub_one_eq_mod _ 4
  have rightLow : right.toNat &&& 0x0f = right.toNat % 16 :=
    Nat.and_two_pow_sub_one_eq_mod _ 4
  rw [leftLow, rightLow] at low
  omega

theorem hexText_inj : ∀ {left right : List UInt8},
    hexText left = hexText right → left = right := by
  intro left
  induction left with
  | nil =>
      intro right equal
      have lengths := congrArg List.length equal
      rw [length_hexText, length_hexText] at lengths
      exact (List.length_eq_zero_iff.mp (by simpa using lengths.symm)).symm
  | cons byte rest induction =>
      intro right equal
      cases right with
      | nil => exact absurd equal (by simp [hexText])
      | cons byte' rest' =>
          rw [hexText, hexText, List.flatMap_cons, List.flatMap_cons, List.cons_append,
            List.cons_append, List.cons_append, List.cons_append, List.nil_append,
            List.nil_append] at equal
          obtain ⟨first, others⟩ := List.cons.inj equal
          obtain ⟨second, later⟩ := List.cons.inj others
          rw [byte_ext (hexDigit_inj (high_lt byte) (high_lt byte') first)
            (hexDigit_inj (low_lt byte) (low_lt byte') second), induction later]

/-- Without its casing the text is the digits of the address. -/
theorem map_toLower_checksummed (shake256 : Xof) (address : Vector UInt8 addressSize) :
    (checksummed shake256 address).tail.map Char.toLower = hexText address.toList := by
  rw [checksummed, List.tail_cons]
  apply List.ext_getElem
  · rw [List.length_map, List.length_mapIdx]
  · intro index inside inside'
    obtain ⟨nibble, small, digit⟩ :=
      hexDigits_hexText address.toList _ (List.getElem_mem inside')
    rw [List.getElem_map, List.getElem_mapIdx, digit, toLower_recased _ _ small]

theorem checksummed_inj {shake256 : Xof} {left right : Vector UInt8 addressSize}
    (equal : checksummed shake256 left = checksummed shake256 right) : left = right := by
  have digits : hexText left.toList = hexText right.toList := by
    rw [← map_toLower_checksummed shake256 left, equal, map_toLower_checksummed]
  exact Vector.toList_inj.mp (hexText_inj digits)

theorem length_checksummed (shake256 : Xof) (address : Vector UInt8 addressSize) :
    (checksummed shake256 address).length = 1 + 2 * addressSize := by
  rw [checksummed, List.length_cons, List.length_mapIdx, length_hexText, Vector.length_toList,
    Nat.add_comm]

theorem nul_not_mem_checksummed (shake256 : Xof) (address : Vector UInt8 addressSize) :
    nul ∉ checksummed shake256 address := by
  intro member
  rcases List.mem_cons.mp member with first | inside
  · exact absurd first (by decide)
  · have lower : nul.toLower ∈ hexText address.toList := by
      rw [← map_toLower_checksummed shake256 address]
      exact List.mem_map_of_mem inside
    obtain ⟨nibble, small, digit⟩ := hexDigits_hexText address.toList _ lower
    revert digit
    interval_cases nibble <;> decide

end Text

/-! ## The loops -/

section Loop

variable {size : ℕ}

theorem storeText_set {buffer : Buffer size} {text : List Char} (begins : buffer.Begins text)
    {pos : ℕ} (inside : pos < text.length) (character : Char) :
    ∃ stored, storeText buffer pos [character] = .ok stored ∧
      stored.Begins (text.set pos character) := by
  obtain ⟨stored, done, result⟩ := begins.store_set inside character
  exact ⟨stored, by rw [storeText, done], result⟩

def recasedBelow (mask : List UInt8) (count : ℕ) (body : List Char) : List Char :=
  body.mapIdx fun i character => if i < count then recased mask i character else character

/-- A character is recased from itself only. -/
theorem recase_eq {mask : List UInt8} {first : Char} {body : List Char} {out : Buffer size}
    (begins : out.Begins (first :: body)) (covered : body.length ≤ 2 * mask.length) :
    ∀ {count : ℕ}, count ≤ body.length →
      ∃ stored, recase mask count out = .ok stored ∧
        stored.Begins (first :: recasedBelow mask count body) := by
  intro count
  induction count with
  | zero =>
      intro _
      have same : recasedBelow mask 0 body = body := by
        apply List.ext_getElem
        · rw [recasedBelow, List.length_mapIdx]
        · intro index inside inside'
          simp [recasedBelow]
      exact ⟨out, rfl, by rw [same]; exact begins⟩
  | succ i induction =>
      intro within
      obtain ⟨middle, done, reached⟩ := induction (by omega)
      have inside : 1 + i < (first :: recasedBelow mask i body).length := by
        rw [List.length_cons, recasedBelow, List.length_mapIdx]
        omega
      have current : (first :: recasedBelow mask i body)[1 + i] = body[i] := by
        simp [Nat.add_comm 1 i, recasedBelow]
      have read := readChar_eq reached inside
      rw [current] at read
      have maskInside : i / 2 < mask.length := by omega
      have byte : mask.getD (i / 2) 0 = mask[i / 2] := by
        rw [List.getD_eq_getElem?_getD, List.getElem?_eq_getElem maskInside, Option.getD_some]
      have next : first :: recasedBelow mask (i + 1) body =
          (first :: recasedBelow mask i body).set (1 + i) (recased mask i body[i]) := by
        rw [Nat.add_comm 1 i, List.set_cons_succ]
        congr 1
        apply List.ext_getElem
        · rw [List.length_set, recasedBelow, recasedBelow, List.length_mapIdx,
            List.length_mapIdx]
        · intro index bound bound'
          simp only [List.getElem_set, recasedBelow, List.getElem_mapIdx]
          by_cases same : i = index
          · subst same
            rw [if_pos rfl, if_pos (Nat.lt_succ_self i)]
          · rw [if_neg same]
            by_cases before : index < i
            · rw [if_pos before, if_pos (by omega)]
            · rw [if_neg before, if_neg (by omega)]
      have step : recase mask (i + 1) out =
          if 'a' ≤ body[i] ∧ body[i] ≤ 'f' ∧ (if i % 2 = 0 then mask[i / 2].toNat >>> 4
              else mask[i / 2].toNat &&& 0x0f) ≥ 8 then
            storeText middle (1 + i) [Char.ofNat (body[i].toNat - ('a'.toNat - 'A'.toNat))]
          else .ok middle := by
        rw [recase, done, ok_bind, readByte_eq maskInside, ok_bind]
        simp only [read, ok_bind]
      rw [step, next]
      simp only [recased, byte]
      generalize (if i % 2 = 0 then mask[i / 2].toNat >>> 4
        else mask[i / 2].toNat &&& 0x0f) = level
      split
      · exact storeText_set reached inside _
      · refine ⟨middle, rfl, ?_⟩
        rw [← current, List.set_getElem_self]
        exact reached

theorem formatChecksummedAddress_eq (shake256 : Xof) (address : Vector UInt8 addressSize)
    (out : Buffer size) (room : 1 + 2 * addressSize + 1 ≤ size) :
    ∃ stored, formatChecksummedAddress shake256 address out = .ok (true, stored) ∧
      stored.Begins (checksummed shake256 address ++ [nul]) := by
  have digits : (hexText address.toList).length = 2 * addressSize := by
    rw [length_hexText, Vector.length_toList]
  obtain ⟨first, start⟩ : ∃ first, out.Begins [first] := by
    cases whole : out.toList with
    | nil =>
        have length := congrArg List.length whole
        rw [Vector.length_toList, List.length_nil] at length
        omega
    | cons first rest => exact ⟨first, rest, whole.symm⟩
  obtain ⟨out1, done1, begins1⟩ := storeText_append start (show 1 = [first].length from rfl)
    (show 1 + (hexText address.toList).length ≤ size by omega)
  have body : readText out1 1 (2 * addressSize) = .ok (hexText address.toList) := by
    rw [readText_eq begins1 (by rw [List.length_append, digits, List.length_singleton])]
    rw [← digits, List.singleton_append, List.drop_one, List.tail_cons, List.take_length]
  rw [List.singleton_append] at begins1
  obtain ⟨out2, done2, begins2⟩ := recase_eq begins1
    (show (hexText address.toList).length ≤ 2 * (shakeOnce shake256
      (asciiBytes (hexText address.toList)) addressSize).length by
        rw [length_shakeOnce, digits])
    digits.ge
  obtain ⟨out3, done3, begins3⟩ := storeText_set begins2 (Nat.succ_pos _) 'Q'
  have text : (first :: recasedBelow (shakeOnce shake256
      (asciiBytes (hexText address.toList)) addressSize) (2 * addressSize)
        (hexText address.toList)).set 0 'Q' = checksummed shake256 address := by
    rw [List.set_cons_zero, checksummed]
    refine congrArg (List.cons 'Q') (List.ext_getElem ?_ ?_)
    · rw [recasedBelow, List.length_mapIdx, List.length_mapIdx]
    · intro index inside inside'
      rw [List.length_mapIdx, digits] at inside'
      simp only [recasedBelow, List.getElem_mapIdx, if_pos inside']
  rw [text] at begins3
  obtain ⟨out4, done4, begins4⟩ := storeText_append begins3
    (length_checksummed shake256 address).symm
    (show 1 + 2 * addressSize + [nul].length ≤ size by rwa [List.length_singleton])
  refine ⟨out4, ?_, begins4⟩
  rw [formatChecksummedAddress, if_neg (by omega), done1, ok_bind, body, ok_bind]
  simp only [done2, ok_bind, done3, done4]

end Loop

end LedgerQrl.Display
