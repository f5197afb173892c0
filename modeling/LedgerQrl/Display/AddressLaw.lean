import LedgerQrl.Display.AddressFormat

namespace LedgerQrl.Display

open Foundation Transaction Mldsa87

/-! # What a checksummed address promises -/

def lowerHex (bytes : List UInt8) : List Char :=
  bytes.flatMap fun byte => [Nat.digitChar (byte.toNat / 16), Nat.digitChar (byte.toNat % 16)]

/-- Nibble `i` of a byte string, the high nibble of a byte first. -/
def nibbleAt (bytes : List UInt8) (i : ℕ) : ℕ :=
  if i % 2 = 0 then (bytes.getD (i / 2) 0).toNat / 16 else (bytes.getD (i / 2) 0).toNat % 16

/-- The bytes that decide the casing of a body: 64 bytes of SHAKE256 of its lower case. -/
def casingMask (shake256 : Xof) (body : List Char) : List UInt8 :=
  shakeOnce shake256 (asciiBytes (body.map Char.toLower)) 64

def rederived (shake256 : Xof) (body : List Char) : List Char :=
  (body.map Char.toLower).mapIdx fun i character =>
    if character.isAlpha ∧ 8 ≤ nibbleAt (casingMask shake256 body) i then character.toUpper
    else character

/-- A `Q` and the hexadecimal digits of an address, cased by the SHAKE256 of the digits. -/
structure Checksummed (shake256 : Xof) (address : Vector UInt8 addressSize)
    (text : List Char) : Prop where
  length : text.length = 129
  plain : nul ∉ text
  marker : text.head? = some 'Q'
  digits : text.tail.map Char.toLower = lowerHex address.toList
  digit : ∀ (i : ℕ) (character : Char), text.tail[i]? = some character →
    (lowerHex address.toList)[i]? = some character.toLower ∧
      (character.toLower.isDigit → character = character.toLower)
  casing : ∀ (i : ℕ) (character : Char), text.tail[i]? = some character → character.isAlpha →
    (character.isUpper ↔ 8 ≤ nibbleAt (casingMask shake256 text.tail) i)
  stable : rederived shake256 text.tail = text.tail

section Digits

theorem hexDigit_eq {nibble : ℕ} (small : nibble < 16) :
    hexDigit nibble = Nat.digitChar nibble := by
  interval_cases nibble <;> rfl

theorem hexText_eq_lowerHex (bytes : List UInt8) : hexText bytes = lowerHex bytes := by
  unfold hexText lowerHex
  congr 1
  funext byte
  have high := high_lt byte
  have low := low_lt byte
  rw [hexDigit_eq high, hexDigit_eq low, Nat.shiftRight_eq_div_pow]
  have remainder : byte.toNat &&& 0x0f = byte.toNat % 16 :=
    Nat.and_two_pow_sub_one_eq_mod _ 4
  rw [remainder]

theorem nibbleAt_eq (mask : List UInt8) (i : ℕ) :
    (if i % 2 = 0 then (mask.getD (i / 2) 0).toNat >>> 4
      else (mask.getD (i / 2) 0).toNat &&& 0x0f) = nibbleAt mask i := by
  have low : (mask.getD (i / 2) 0).toNat &&& 0x0f = (mask.getD (i / 2) 0).toNat % 16 :=
    Nat.and_two_pow_sub_one_eq_mod _ 4
  rw [nibbleAt, Nat.shiftRight_eq_div_pow, low]

theorem recased_hexDigit (mask : List UInt8) (i : ℕ) {nibble : ℕ} (small : nibble < 16) :
    recased mask i (hexDigit nibble) =
      if (hexDigit nibble).isAlpha ∧ 8 ≤ nibbleAt mask i then (hexDigit nibble).toUpper
      else hexDigit nibble := by
  simp only [recased, nibbleAt_eq]
  generalize nibbleAt mask i = level
  have letter : ('a' ≤ hexDigit nibble ∧ hexDigit nibble ≤ 'f') ↔
      (hexDigit nibble).isAlpha = true := by
    interval_cases nibble <;> decide
  have upper : (hexDigit nibble).isAlpha = true →
      Char.ofNat ((hexDigit nibble).toNat - ('a'.toNat - 'A'.toNat)) =
        (hexDigit nibble).toUpper := by
    interval_cases nibble <;> decide
  by_cases raised : (hexDigit nibble).isAlpha = true ∧ 8 ≤ level
  · have range := letter.mpr raised.1
    rw [if_pos ⟨range.1, range.2, raised.2⟩, if_pos raised, upper raised.1]
  · rw [if_neg fun found => raised ⟨letter.mp ⟨found.1, found.2.1⟩, found.2.2⟩, if_neg raised]

theorem recased_shape (mask : List UInt8) (i : ℕ) {nibble : ℕ} (small : nibble < 16) :
    ((hexDigit nibble).isDigit → recased mask i (hexDigit nibble) = hexDigit nibble) ∧
      ((recased mask i (hexDigit nibble)).isAlpha →
        ((recased mask i (hexDigit nibble)).isUpper ↔ 8 ≤ nibbleAt mask i)) := by
  rw [recased_hexDigit mask i small]
  generalize nibbleAt mask i = level
  by_cases high : 8 ≤ level
  · simp only [high, and_true, iff_true]
    interval_cases nibble <;> decide
  · simp only [high, and_false, if_false, iff_false]
    interval_cases nibble <;> decide

end Digits

section Law

variable (shake256 : Xof) (address : Vector UInt8 addressSize)

theorem casingMask_checksummed : casingMask shake256 (checksummed shake256 address).tail =
    shakeOnce shake256 (asciiBytes (hexText address.toList)) addressSize := by
  rw [casingMask, map_toLower_checksummed]
  rfl

theorem checksummed_getElem? {i : ℕ} {character : Char}
    (found : (checksummed shake256 address).tail[i]? = some character) :
    ∃ nibble < 16, (hexText address.toList)[i]? = some (hexDigit nibble) ∧
      character = recased (casingMask shake256 (checksummed shake256 address).tail) i
        (hexDigit nibble) := by
  rw [casingMask_checksummed]
  rw [checksummed, List.tail_cons, List.getElem?_mapIdx] at found
  obtain ⟨digit, source, same⟩ := Option.map_eq_some_iff.mp found
  obtain ⟨nibble, small, shape⟩ :=
    hexDigits_hexText address.toList digit (List.mem_of_getElem? source)
  exact ⟨nibble, small, by rw [source, shape], by rw [← same, shape]⟩

theorem rederived_checksummed : rederived shake256 (checksummed shake256 address).tail =
    (checksummed shake256 address).tail := by
  rw [rederived, map_toLower_checksummed, casingMask_checksummed, checksummed, List.tail_cons]
  apply List.ext_getElem
  · rw [List.length_mapIdx, List.length_mapIdx]
  · intro i inside _
    rw [List.length_mapIdx] at inside
    obtain ⟨nibble, small, digit⟩ :=
      hexDigits_hexText address.toList _ (List.getElem_mem inside)
    rw [List.getElem_mapIdx, List.getElem_mapIdx, digit, recased_hexDigit _ _ small]

theorem checksummed_spec : Checksummed shake256 address (checksummed shake256 address) where
  length := length_checksummed shake256 address
  plain := nul_not_mem_checksummed shake256 address
  marker := rfl
  digits := by rw [map_toLower_checksummed, hexText_eq_lowerHex]
  digit := by
    intro i character found
    obtain ⟨nibble, small, source, same⟩ := checksummed_getElem? shake256 address found
    have lower : character.toLower = hexDigit nibble := by
      rw [same, toLower_recased _ _ small]
    rw [lower, ← hexText_eq_lowerHex]
    exact ⟨source, fun digit => same.trans ((recased_shape _ i small).1 digit)⟩
  casing := by
    intro i character found letter
    obtain ⟨nibble, small, _, same⟩ := checksummed_getElem? shake256 address found
    rw [same] at letter ⊢
    exact (recased_shape _ i small).2 letter
  stable := rederived_checksummed shake256 address

variable {shake256 address}

theorem Checksummed.address_eq {shake : Xof} {other : Vector UInt8 addressSize}
    {text text' : List Char} (left : Checksummed shake256 address text)
    (right : Checksummed shake other text')
    (equal : text.map Char.toLower = text'.map Char.toLower) : address = other := by
  have bodies : lowerHex address.toList = lowerHex other.toList := by
    rw [← left.digits, ← right.digits, List.map_tail, List.map_tail, equal]
  rw [← hexText_eq_lowerHex, ← hexText_eq_lowerHex] at bodies
  exact Vector.toList_inj.mp (hexText_inj bodies)

end Law

/-- A buffer with room receives the checksummed address, and a smaller one nothing; two
addresses never give texts that are equal up to case. -/
theorem formatChecksummedAddress_faithful (shake256 : Xof) {size : ℕ}
    (address : Vector UInt8 addressSize) (out : Buffer size) :
    (130 ≤ size → ∃ text stored,
      formatChecksummedAddress shake256 address out = .ok (true, stored) ∧
        stored.string = some text ∧ Checksummed shake256 address text ∧
        ∀ (size' : ℕ) (other : Vector UInt8 addressSize) (out' stored' : Buffer size')
          (text' : List Char),
          formatChecksummedAddress shake256 other out' = .ok (true, stored') →
            stored'.string = some text' →
              text.map Char.toLower = text'.map Char.toLower → address = other) ∧
      (size < 130 → formatChecksummedAddress shake256 address out = .ok (false, out)) := by
  have refused : ∀ {size' : ℕ} (other : Vector UInt8 addressSize) (out' : Buffer size'),
      size' < 130 → formatChecksummedAddress shake256 other out' = .ok (false, out') := by
    intro size' other out' small
    have few : size' < 1 + 2 * addressSize + 1 := small
    rw [formatChecksummedAddress, if_pos few]
  have written : ∀ {size' : ℕ} (other : Vector UInt8 addressSize) (out' : Buffer size'),
      130 ≤ size' → ∃ stored,
        formatChecksummedAddress shake256 other out' = .ok (true, stored) ∧
          stored.string = some (checksummed shake256 other) := by
    intro size' other out' room
    obtain ⟨stored, done, begins⟩ := formatChecksummedAddress_eq shake256 other out' room
    exact ⟨stored, done, begins.string_eq (nul_not_mem_checksummed shake256 other)⟩
  constructor
  · intro room
    obtain ⟨stored, done, holds⟩ := written address out room
    refine ⟨_, stored, done, holds, checksummed_spec shake256 address, ?_⟩
    intro size' other out' stored' text' done' holds' equal
    -- An accepted buffer had room, so its text is the one of the other address.
    rcases Nat.lt_or_ge size' 130 with small | room'
    · rw [refused other out' small] at done'
      cases done'
    · obtain ⟨final, finished, spelled⟩ := written other out' room'
      rw [finished] at done'
      cases done'
      rw [spelled] at holds'
      cases holds'
      exact (checksummed_spec shake256 address).address_eq
        (checksummed_spec shake256 other) equal
  · exact refused address out

/-- Each case is met: a buffer of 130 characters is filled, one of 129 is left alone. -/
theorem formatChecksummedAddress_faithful_sizes :
    (∃ text stored, formatChecksummedAddress (fun _ _ => 0xff) (Vector.replicate 64 0xab)
        (Vector.replicate 130 nul) = .ok (true, stored) ∧ stored.string = some text ∧
          Checksummed (fun _ _ => 0xff) (Vector.replicate 64 0xab) text) ∧
      formatChecksummedAddress (fun _ _ => 0xff) (Vector.replicate 64 0xab)
          (Vector.replicate 129 nul) =
        .ok (false, Vector.replicate 129 nul) := by
  obtain ⟨text, stored, done, holds, shape, _⟩ :=
    (formatChecksummedAddress_faithful (fun _ _ => 0xff) (Vector.replicate 64 0xab)
      (Vector.replicate 130 nul)).1 le_rfl
  exact ⟨⟨text, stored, done, holds, shape⟩,
    (formatChecksummedAddress_faithful (fun _ _ => 0xff) (Vector.replicate 64 0xab)
      (Vector.replicate 129 nul)).2 (Nat.lt_succ_self 129)⟩

end LedgerQrl.Display
