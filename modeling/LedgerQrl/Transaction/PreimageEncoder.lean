import LedgerQrl.Transaction.Acceptance

namespace LedgerQrl.Transaction

open Foundation Rlp

/-! # The host's encoder

`qrltx.mjs`. Strings are lists of characters, and a number stored in a
`Uint8Array` is taken modulo 256. -/

/-! ## Text -/

def isSpace (character : Char) : Bool :=
  character.toNat ∈ [9, 10, 11, 12, 13, 0x20, 0xA0, 0x1680, 0x2028, 0x2029, 0x202F, 0x205F,
      0x3000, 0xFEFF] ||
    0x2000 ≤ character.toNat && character.toNat ≤ 0x200A

/-- What `.` does not match. -/
def isLineTerminator (character : Char) : Bool :=
  character.toNat ∈ [10, 13, 0x2028, 0x2029]

/-- A character outside the basic plane is two units of a string. No unit of it is a
digit or white space, as the replacement character is not. -/
def codeUnits (text : List Char) : List Char :=
  text.flatMap fun character =>
    if character.toNat < 0x10000 then [character] else [Char.ofNat 0xFFFD, Char.ofNat 0xFFFD]

def hexValue (character : Char) : Option ℕ :=
  if '0' ≤ character ∧ character ≤ '9' then some (character.toNat - '0'.toNat)
  else if 'a' ≤ character ∧ character ≤ 'f' then some (character.toNat - 'a'.toNat + 10)
  else if 'A' ≤ character ∧ character ≤ 'F' then some (character.toNat - 'A'.toNat + 10)
  else none

def leadingDigits : List Char → List ℕ
  | [] => []
  | character :: rest =>
      match hexValue character with
      | some digit => digit :: leadingDigits rest
      | none => []

/-- `text.startsWith('0x') || text.startsWith('0X')`. -/
def isMarked (text : List Char) : Bool :=
  text.take 2 == ['0', 'x'] || text.take 2 == ['0', 'X']

def withoutMarker (text : List Char) : List Char :=
  if isMarked text then text.drop 2 else text

/-- `parseInt(text, 16)` behind the sign; nothing for `NaN`. -/
def parseUnsigned (text : List Char) : Option ℤ :=
  let digits := leadingDigits (withoutMarker text)
  if digits = [] then none else some (Int.ofNat (positional 16 digits))

/-- `parseInt(text, 16)`. -/
def parseInt (text : List Char) : Option ℤ :=
  match text.dropWhile isSpace with
  | '-' :: rest => (parseUnsigned rest).map Neg.neg
  | '+' :: rest => parseUnsigned rest
  | text => parseUnsigned text

/-! ## Numbers -/

/-- `v.toString(16)` of a number without a sign. -/
def toHexString (v : ℕ) : List Char :=
  if v = 0 then ['0'] else (numeral 16 v).map Nat.digitChar

/-- What `BigInt(v)` is called with: numbers and their text in base 16. -/
class HexString (Number : Type) where
  hexString : Number → List Char

open HexString (hexString)

instance : HexString ℕ where
  hexString := toHexString

instance : HexString ℤ where
  hexString v := if v < 0 then '-' :: toHexString v.natAbs else toHexString v.natAbs

def padEven (hex : List Char) : List Char :=
  if hex.length % 2 = 0 then hex else '0' :: hex

/-- `hex.match(/../g)`, or `[]`. -/
def matchPairs : List Char → List (List Char)
  | high :: low :: rest =>
      if isLineTerminator high then matchPairs (low :: rest)
      else if isLineTerminator low then matchPairs rest
      else [high, low] :: matchPairs rest
  | _ => []

/-- A number in a `Uint8Array`; nothing stands for `NaN`. -/
def storedByte : Option ℤ → UInt8
  | some v => UInt8.ofNat (v % 256).toNat
  | none => 0

/-- `parseInt` of each match. -/
def parsePairs (hex : List Char) : List UInt8 :=
  (matchPairs hex).map fun b => storedByte (parseInt b)

def toBytes (hex : List Char) : List UInt8 :=
  parsePairs (padEven (codeUnits (withoutMarker hex)))

section Encoder

variable {Number : Type} [Zero Number] [DecidableEq Number] [HexString Number]

def intToBytes (v : Number) : List UInt8 :=
  if v = 0 then [] else toBytes (padEven (hexString v))

/-! ## Items -/

def rlpBytes (b : List UInt8) : List UInt8 :=
  if b.length = 1 ∧ b.getD 0 0 < 0x80 then b
  else if b.length ≤ 55 then UInt8.ofNat (0x80 + b.length) :: b
  else
    let ln := intToBytes b.length
    UInt8.ofNat (0xb7 + ln.length) :: (ln ++ b)

def rlpList (items : List (List UInt8)) : List UInt8 :=
  let payload := items.flatten
  if payload.length ≤ 55 then UInt8.ofNat (0xc0 + payload.length) :: payload
  else
    let ln := intToBytes payload.length
    UInt8.ofNat (0xf7 + ln.length) :: (ln ++ payload)

/-- The argument of `encodeUnsignedPreimage`. -/
structure ParametersOf (Number : Type) where
  chainId : Number
  nonce : Number
  tip : Number
  feeCap : Number
  gas : Number
  toAddress : List UInt8
  value : Number
  data : Option (List UInt8)

/-- Parameters without signs. -/
abbrev Parameters := ParametersOf ℕ

def encodeUnsignedPreimage (parameters : ParametersOf Number) : List UInt8 :=
  let fields :=
    [rlpBytes (intToBytes parameters.chainId),
      rlpBytes (intToBytes parameters.nonce),
      rlpBytes (intToBytes parameters.tip),
      rlpBytes (intToBytes parameters.feeCap),
      rlpBytes (intToBytes parameters.gas),
      rlpBytes parameters.toAddress,
      rlpBytes (intToBytes parameters.value),
      rlpBytes (parameters.data.getD []),
      rlpList [],
      rlpBytes [1, 0, 0],
      rlpBytes []]
  0x02 :: rlpList fields

end Encoder

/-! ## Numbers are shortest -/

theorem digitChar_ne {digit : ℕ} (small : digit < 16) :
    Nat.digitChar digit ≠ 'x' ∧ Nat.digitChar digit ≠ 'X' := by
  interval_cases digit <;> exact ⟨by decide, by decide⟩

theorem isLineTerminator_digitChar {digit : ℕ} (small : digit < 16) :
    isLineTerminator (Nat.digitChar digit) = false := by
  interval_cases digit <;> decide

theorem parseInt_digitChar {high low : ℕ} (highSmall : high < 16) (lowSmall : low < 16) :
    parseInt [Nat.digitChar high, Nat.digitChar low] =
      some (Int.ofNat (positional 16 [high, low])) := by
  have every : ∀ high < 16, ∀ low < 16,
      parseInt [Nat.digitChar high, Nat.digitChar low] =
        some (Int.ofNat (positional 16 [high, low])) := by
    decide +kernel
  exact every high highSmall low lowSmall

@[simp] theorem parsePairs_nil : parsePairs [] = [] := rfl

theorem storedByte_ofNat (v : ℕ) : storedByte (some (Int.ofNat v)) = UInt8.ofNat v := by
  have rest : (Int.ofNat v % 256).toNat = v % 256 := by
    rw [Int.ofNat_eq_natCast]
    omega
  rw [storedByte, rest]
  exact UInt8.ofNat_mod_size

theorem parsePairs_digitChar {high low : ℕ} (highSmall : high < 16) (lowSmall : low < 16)
    (rest : List Char) :
    parsePairs (Nat.digitChar high :: Nat.digitChar low :: rest) =
      UInt8.ofNat (positional 16 [high, low]) :: parsePairs rest := by
  rw [parsePairs, matchPairs, isLineTerminator_digitChar highSmall,
    isLineTerminator_digitChar lowSmall, if_neg Bool.false_ne_true, if_neg Bool.false_ne_true,
    List.map_cons, parseInt_digitChar highSmall lowSmall, storedByte_ofNat, parsePairs]

theorem codeUnits_digits {digits : List ℕ} (small : ∀ digit ∈ digits, digit < 16) :
    codeUnits (digits.map Nat.digitChar) = digits.map Nat.digitChar := by
  have unit : ∀ digit < 16, (Nat.digitChar digit).toNat < 0x10000 := by decide
  induction digits with
  | nil => rfl
  | cons digit rest induction =>
      have here := unit digit (small digit List.mem_cons_self)
      have later := induction fun other member => small other (List.mem_cons_of_mem _ member)
      rw [List.map_cons, codeUnits, List.flatMap_cons, if_pos here, ← codeUnits, later,
        List.singleton_append]

theorem length_parsePairs : ∀ {digits : List ℕ}, digits.length % 2 = 0 →
    (∀ digit ∈ digits, digit < 16) →
      2 * (parsePairs (digits.map Nat.digitChar)).length = digits.length
  | [], _, _ => rfl
  | [_], odd, _ => absurd odd (by simp)
  | high :: low :: rest, even, small => by
      have evenRest : rest.length % 2 = 0 := by
        rw [List.length_cons, List.length_cons] at even
        omega
      have induction := length_parsePairs evenRest fun digit member =>
        small digit (List.mem_cons_of_mem _ (List.mem_cons_of_mem _ member))
      rw [List.map_cons, List.map_cons, parsePairs_digitChar (small high (by simp))
        (small low (by simp)), List.length_cons, List.length_cons, List.length_cons]
      omega

theorem bigEndian_parsePairs : ∀ {digits : List ℕ}, digits.length % 2 = 0 →
    (∀ digit ∈ digits, digit < 16) →
      bigEndian (parsePairs (digits.map Nat.digitChar)) = positional 16 digits
  | [], _, _ => by simp
  | [_], odd, _ => absurd odd (by simp)
  | high :: low :: rest, even, small => by
      have evenRest : rest.length % 2 = 0 := by
        rw [List.length_cons, List.length_cons] at even
        omega
      have smallRest : ∀ digit ∈ rest, digit < 16 := fun digit member =>
        small digit (List.mem_cons_of_mem _ (List.mem_cons_of_mem _ member))
      have pair : positional 16 [high, low] < 256 :=
        positional_lt (by norm_num) fun digit member =>
          small digit ((List.sublist_append_left [high, low] rest).subset member)
      have induction := bigEndian_parsePairs evenRest smallRest
      have count := length_parsePairs evenRest smallRest
      have byte : (UInt8.ofNat (positional 16 [high, low])).toNat =
          positional 16 [high, low] := by
        rw [UInt8.toNat_ofNat', Nat.mod_eq_of_lt pair]
      have head := bigEndian_concat [] (UInt8.ofNat (positional 16 [high, low]))
      rw [bigEndian_nil, Nat.zero_mul, Nat.zero_add, List.nil_append, byte] at head
      have split : positional 16 (high :: low :: rest) =
          positional 16 [high, low] * 16 ^ rest.length + positional 16 rest :=
        positional_append [high, low] rest
      rw [List.map_cons, List.map_cons, parsePairs_digitChar (small high (by simp))
        (small low (by simp)), ← List.singleton_append, bigEndian_append, head, induction]
      calc positional 16 [high, low] * 256 ^ (parsePairs (rest.map Nat.digitChar)).length +
            positional 16 rest
          = positional 16 [high, low] * 16 ^ rest.length + positional 16 rest := by
            rw [← count, pow_mul, show 16 ^ 2 = 256 from rfl]
        _ = positional 16 (high :: low :: rest) := split.symm

def padDigits (digits : List ℕ) : List ℕ :=
  if digits.length % 2 = 0 then digits else 0 :: digits

theorem padEven_map (digits : List ℕ) :
    padEven (digits.map Nat.digitChar) = (padDigits digits).map Nat.digitChar := by
  rw [padEven, padDigits, List.length_map]
  split
  · rfl
  · rfl

theorem even_padDigits (digits : List ℕ) : (padDigits digits).length % 2 = 0 := by
  rw [padDigits]
  split
  · assumption
  · rw [List.length_cons]
    omega

theorem positional_padDigits (digits : List ℕ) :
    positional 16 (padDigits digits) = positional 16 digits := by
  rw [padDigits]
  split
  · rfl
  · rw [positional_cons, Nat.zero_mul, Nat.zero_add]

theorem padDigits_lt {digits : List ℕ} (small : ∀ digit ∈ digits, digit < 16) :
    ∀ digit ∈ padDigits digits, digit < 16 := by
  rw [padDigits]
  split
  · exact small
  · simpa using small

theorem toBytes_map {digits : List ℕ} (small : ∀ digit ∈ digits, digit < 16) :
    toBytes (digits.map Nat.digitChar) = parsePairs (padEven (digits.map Nat.digitChar)) := by
  have plain : ¬ isMarked (digits.map Nat.digitChar) = true := by
    intro marked
    rw [isMarked, Bool.or_eq_true, beq_iff_eq, beq_iff_eq] at marked
    have member : 'x' ∈ digits.map Nat.digitChar ∨ 'X' ∈ digits.map Nat.digitChar := by
      rcases marked with lower | upper
      · exact .inl (List.mem_of_mem_take (by rw [lower]; decide))
      · exact .inr (List.mem_of_mem_take (by rw [upper]; decide))
    rcases member with lower | upper
    · obtain ⟨digit, inside, equal⟩ := List.mem_map.mp lower
      exact (digitChar_ne (small digit inside)).1 equal
    · obtain ⟨digit, inside, equal⟩ := List.mem_map.mp upper
      exact (digitChar_ne (small digit inside)).2 equal
  rw [toBytes, withoutMarker, if_neg plain, codeUnits_digits small]

theorem parsePairs_head {digits : List ℕ} (small : ∀ digit ∈ digits, digit < 16)
    (leading : digits.head? ≠ some 0) :
    (parsePairs ((padDigits digits).map Nat.digitChar)).head? ≠ some 0 := by
  have pair : ∀ {high low : ℕ} {rest : List ℕ}, high < 16 → low < 16 → 0 < high ∨ 0 < low →
      (parsePairs ((high :: low :: rest).map Nat.digitChar)).head? ≠ some 0 := by
    intro high low rest highSmall lowSmall positive zero
    rw [List.map_cons, List.map_cons, parsePairs_digitChar highSmall lowSmall,
      List.head?_cons, Option.some.injEq] at zero
    have value := congrArg UInt8.toNat zero
    rw [UInt8.toNat_ofNat', positional_cons, positional_cons, positional_nil] at value
    simp only [List.length_cons, List.length_nil, UInt8.toNat_zero] at value
    omega
  match digits, small, leading with
  | [], _, _ => simp [padDigits]
  | [low], small, leading =>
      have lowSmall := small low (by simp)
      have positive : 0 < low := by
        rw [List.head?_cons, ne_eq, Option.some.injEq] at leading
        omega
      exact pair (by norm_num : 0 < 16) lowSmall (.inr positive)
  | first :: second :: rest, small, leading =>
      have firstSmall := small first (by simp)
      have secondSmall := small second (by simp)
      have positive : 0 < first := by
        rw [List.head?_cons, ne_eq, Option.some.injEq] at leading
        omega
      rw [padDigits]
      split
      · exact pair firstSmall secondSmall (.inl positive)
      · exact pair (by norm_num) firstSmall (.inr positive)

/-- The encoder's numbers are the shortest big-endian ones. -/
theorem intToBytes_eq (v : ℕ) : intToBytes v = minimalBytes v := by
  by_cases zero : v = 0
  · rw [intToBytes, if_pos zero, zero, minimalBytes_zero]
  · have small := numeral_lt (by norm_num : 1 < 16) v
    have padded := padDigits_lt small
    have again : padEven ((padDigits (numeral 16 v)).map Nat.digitChar) =
        (padDigits (numeral 16 v)).map Nat.digitChar := by
      rw [padEven, List.length_map, if_pos (even_padDigits _)]
    have value : bigEndian (parsePairs ((padDigits (numeral 16 v)).map Nat.digitChar)) = v := by
      rw [bigEndian_parsePairs (even_padDigits _) padded, positional_padDigits,
        positional_numeral]
    have text : hexString v = (numeral 16 v).map Nat.digitChar := if_neg zero
    rw [intToBytes, if_neg zero, text, padEven_map, toBytes_map padded, again,
      ← minimalBytes_bigEndian (parsePairs_head small (numeral_head v)), value]

/-! ## Items are canonical -/

theorem rlpBytes_eq (b : List UInt8) : rlpBytes b = encode .string b := by
  have single : (b.length = 1 ∧ b.getD 0 0 < 0x80) ↔ Kind.string.Single b := by
    rw [Kind.Single]
    constructor
    · rintro ⟨one, below⟩
      obtain ⟨byte, rfl⟩ := List.length_eq_one_iff.mp one
      exact ⟨rfl, byte, rfl, UInt8.lt_iff_toNat_lt.mp below⟩
    · rintro ⟨_, byte, rfl, below⟩
      exact ⟨rfl, UInt8.lt_iff_toNat_lt.mpr below⟩
  rw [rlpBytes, encode, canonicalHeader, intToBytes_eq]
  by_cases one : Kind.string.Single b
  · rw [if_pos (single.mpr one), if_pos one, List.nil_append]
  · rw [if_neg (fun short => one (single.mp short)), if_neg one]
    split
    · rfl
    · rfl

theorem rlpList_eq (items : List (List UInt8)) : rlpList items = encode .list items.flatten := by
  have plain : ¬ Kind.list.Single items.flatten := fun single => absurd single.1 (by simp)
  rw [rlpList, encode, canonicalHeader, if_neg plain, intToBytes_eq]
  split
  · rfl
  · rfl

def Parameters.preimage (parameters : Parameters) : Preimage where
  chainId := minimalBytes parameters.chainId
  nonce := minimalBytes parameters.nonce
  gasTipCap := minimalBytes parameters.tip
  gasFeeCap := minimalBytes parameters.feeCap
  gas := minimalBytes parameters.gas
  toAddress := parameters.toAddress
  value := minimalBytes parameters.value
  data := parameters.data.getD []
  accessList := []

theorem encodeUnsignedPreimage_eq (parameters : Parameters) :
    encodeUnsignedPreimage parameters = parameters.preimage.bytes := by
  simp only [encodeUnsignedPreimage, rlpList_eq, rlpBytes_eq, intToBytes_eq]
  rfl

def ParametersOf.signed (parameters : Parameters) : ParametersOf ℤ where
  chainId := parameters.chainId
  nonce := parameters.nonce
  tip := parameters.tip
  feeCap := parameters.feeCap
  gas := parameters.gas
  toAddress := parameters.toAddress
  value := parameters.value
  data := parameters.data

theorem intToBytes_natCast (v : ℕ) : intToBytes (v : ℤ) = intToBytes v := by
  have text : hexString (v : ℤ) = hexString v := if_neg (Int.not_lt.mpr (Int.natCast_nonneg v))
  rw [intToBytes, intToBytes, text]
  simp only [Int.natCast_eq_zero]

theorem encodeUnsignedPreimage_signed (parameters : Parameters) :
    encodeUnsignedPreimage parameters.signed = encodeUnsignedPreimage parameters := by
  simp only [encodeUnsignedPreimage, ParametersOf.signed, intToBytes_natCast]

/-! ## Decoding what was encoded -/

/-- The ranges of the parameters. -/
structure Parameters.InRange (parameters : Parameters) : Prop where
  chainId : parameters.chainId < 2 ^ 256
  nonce : parameters.nonce < 2 ^ 64
  tip : parameters.tip < 2 ^ 256
  feeCap : parameters.feeCap < 2 ^ 256
  gas : parameters.gas < 2 ^ 64
  toAddress : parameters.toAddress.length = 0 ∨ parameters.toAddress.length = 64
  value : parameters.value < 2 ^ 256

theorem integer_minimalBytes {limit number : ℕ} (bound : number < 256 ^ limit) :
    Integer limit (minimalBytes number) where
  length := length_minimalBytes_le.mpr bound
  leading := minimalBytes_head number

theorem Parameters.InRange.valid {parameters : Parameters} (ranges : parameters.InRange) :
    parameters.preimage.Valid where
  chainId := integer_minimalBytes (by have := ranges.chainId; omega)
  nonce := integer_minimalBytes (by have := ranges.nonce; omega)
  gasTipCap := integer_minimalBytes (by have := ranges.tip; omega)
  gasFeeCap := integer_minimalBytes (by have := ranges.feeCap; omega)
  gas := integer_minimalBytes (by have := ranges.gas; omega)
  toAddress := by
    rcases ranges.toAddress with empty | full
    · exact .inr (List.length_eq_zero_iff.mp empty)
    · exact .inl full
  value := integer_minimalBytes (by have := ranges.value; omega)

structure Parameters.Decoded (parameters : Parameters) (tx : ZondTx) : Prop where
  chainId : tx.chainId.bytes = minimalBytes parameters.chainId
  nonce : tx.nonce.bytes = minimalBytes parameters.nonce
  gasTipCap : tx.gasTipCap.bytes = minimalBytes parameters.tip
  gasFeeCap : tx.gasFeeCap.bytes = minimalBytes parameters.feeCap
  gas : tx.gas.bytes = minimalBytes parameters.gas
  toAddress : parameters.toAddress.length = 64 →
    tx.toAddress.toList = parameters.toAddress
  value : tx.value.bytes = minimalBytes parameters.value
  hasData : tx.hasData = true ↔ parameters.data.getD [] ≠ []
  hasAccessList : tx.hasAccessList = false
  descriptor : tx.descriptor.bytes = [1, 0, 0]

theorem addressOf_toList {payload : List UInt8} (full : payload.length = addressLength) :
    (addressOf payload).toList = payload := by
  apply List.ext_getElem
  · rw [Vector.length_toList, full]
  · intro index inside inside'
    simp [addressOf, List.getElem?_eq_getElem inside']

/-- What is encoded is decoded to its fields. -/
theorem Parameters.InRange.decodes {parameters : Parameters} (ranges : parameters.InRange)
    {width : ℕ} (wide : 32 ≤ width)
    (bound : (encodeUnsignedPreimage parameters).length < 2147483648) (prior : ZondTx) :
    ∃ tx, decodeLedgerTx width (encodeUnsignedPreimage parameters) prior = .ok tx ∧
      parameters.preimage.Holds tx := by
  rw [encodeUnsignedPreimage_eq] at bound ⊢
  exact decodeLedgerTx_preimage wide ranges.valid bound prior

/-- Both widths decode every encoded preimage to its parameters. -/
theorem decodeLedgerTx_encodeUnsignedPreimage {width : ℕ} (words : width = 32 ∨ width = 64)
    (parameters : Parameters) (ranges : parameters.InRange)
    (bound : (encodeUnsignedPreimage parameters).length < 2 ^ 31) (prior : ZondTx) :
    ∃ tx, decodeLedgerTx width (encodeUnsignedPreimage parameters) prior = .ok tx ∧
      parameters.Decoded tx := by
  obtain ⟨tx, decoded, holds⟩ :=
    ranges.decodes (show 32 ≤ width by omega) (by omega) prior
  refine ⟨tx, decoded, ?_⟩
  exact
    { chainId := holds.chainId
      nonce := holds.nonce
      gasTipCap := holds.gasTipCap
      gasFeeCap := holds.gasFeeCap
      gas := holds.gas
      toAddress := by
        intro full
        rw [holds.toAddress]
        exact addressOf_toList full
      value := holds.value
      hasData := holds.hasData
      hasAccessList := by
        rw [← Bool.not_eq_true, holds.hasAccessList]
        exact fun nonempty => nonempty rfl
      descriptor := holds.descriptor }

def transfer : Parameters where
  chainId := 3151908
  nonce := 0
  tip := 1000000000
  feeCap := 2000000000
  gas := 21000
  toAddress := List.replicate 64 0x11
  value := 1000000000000000000
  data := none

theorem transfer_inRange : transfer.InRange :=
  ⟨by decide, by decide, by decide, by decide, by decide, by decide, by decide⟩

theorem decodeLedgerTx_transfer :
    ∃ tx, decodeLedgerTx 32 (encodeUnsignedPreimage transfer) .zero = .ok tx ∧
      transfer.Decoded tx :=
  decodeLedgerTx_encodeUnsignedPreimage (.inl rfl) transfer transfer_inRange
    (by decide +kernel) .zero

end LedgerQrl.Transaction
