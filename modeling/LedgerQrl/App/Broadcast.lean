import LedgerQrl.App.EndToEnd
import LedgerQrl.Transaction.Envelope

namespace LedgerQrl.App

open Foundation Mldsa87 Display Transaction

/-! # From the parameters of a transfer to its broadcast

`mkpreimage.mjs` writes the parameters and the preimage, the device signs the preimage,
and `broadcast.mjs` makes the envelope from the parameters and from what the device has
returned. The wallet library is a parameter. -/

/-! ## Text -/

/-- `v.toString()` of a number without a sign. -/
def decimalString (v : ℕ) : List Char :=
  if v = 0 then ['0'] else (numeral 10 v).map Nat.digitChar

/-- `CHAIN_ID.toString()`. -/
def toDecimalString (v : ℤ) : List Char :=
  if v < 0 then '-' :: decimalString v.natAbs else decimalString v.natAbs

def digitsBelow (base : ℕ) : List Char → Option (List ℕ)
  | [] => some []
  | character :: rest =>
      match hexValue character, digitsBelow base rest with
      | some digit, some digits => if digit < base then some (digit :: digits) else none
      | _, _ => none

def literal (base : ℕ) (text : List Char) : Option ℤ :=
  if text = [] then none
  else (digitsBelow base text).map fun digits => Int.ofNat (positional base digits)

def markedBase : List Char → Option ℕ
  | ['0', 'x'] => some 16
  | ['0', 'X'] => some 16
  | ['0', 'o'] => some 8
  | ['0', 'O'] => some 8
  | ['0', 'b'] => some 2
  | ['0', 'B'] => some 2
  | _ => none

def signedLiteral : List Char → Option ℤ
  | '-' :: rest => (literal 10 rest).map Neg.neg
  | '+' :: rest => literal 10 rest
  | text => literal 10 text

def trim (text : List Char) : List Char :=
  ((text.dropWhile isSpace).reverse.dropWhile isSpace).reverse

/-- `BigInt(text)`; nothing for a `SyntaxError`. Blank text is zero, and a text with a
mark of its base has no sign. -/
def bigInt (text : List Char) : Option ℤ :=
  let text := trim text
  if text = [] then some 0
  else
    match markedBase (text.take 2) with
    | some base => literal base (text.drop 2)
    | none => signedLiteral text

/-- `Array.from(bytes, (b) => b.toString(16).padStart(2, '0')).join('')`, and
`bytes.hex()`. -/
def toHexText (bytes : List UInt8) : List Char :=
  bytes.flatMap fun b => padEven (toHexString b.toNat)

/-- `Py_ISSPACE`. -/
def isAsciiSpace (character : Char) : Bool := character.toNat ∈ [9, 10, 11, 12, 13, 32]

/-- `bytes.fromhex`, which skips blanks between the bytes. -/
def fromHexText : List Char → Option (List UInt8)
  | [] => some []
  | high :: rest =>
      if isAsciiSpace high then fromHexText rest
      else
        match rest with
        | [] => none
        | low :: rest =>
            match hexValue high, hexValue low, fromHexText rest with
            | some high, some low, some bytes =>
                some (UInt8.ofNat (positional 16 [high, low]) :: bytes)
            | _, _, _ => none

/-! ## The scripts -/

/-- `device_params.json`. -/
structure DeviceParams where
  chainId : List Char
  nonce : List Char
  tip : List Char
  feeCap : List Char
  gas : List Char
  toAddress : List Char
  value : List Char
deriving DecidableEq

/-- `device_out.json`. -/
structure DeviceOut where
  address : List Char
  publicKey : List Char
  signature : List Char
deriving DecidableEq

/-- Why the way to the network ends. -/
inductive Obstacle where
  /-- The usage line of `mkpreimage.mjs`. -/
  | usage
  | syntaxError
  | valueError
  | device (failure : Failure)
  /-- `device signature failed independent verification`. -/
  | unverified
deriving DecidableEq

/-- `BigInt(text)` that throws. -/
def readBigInt (text : List Char) : Except Obstacle ℤ :=
  match bigInt text with
  | some v => .ok v
  | none => .error .syntaxError

/-- The parameters of a transfer as `broadcast.mjs` reads them. -/
def DeviceParams.parameters (p : DeviceParams) : Except Obstacle (ParametersOf ℤ) := do
  let chainId ← readBigInt p.chainId
  let nonce ← readBigInt p.nonce
  let tip ← readBigInt p.tip
  let feeCap ← readBigInt p.feeCap
  let gas ← readBigInt p.gas
  let toAddress := toBytes p.toAddress
  let value ← readBigInt p.value
  pure
    { chainId := chainId
      nonce := nonce
      tip := tip
      feeCap := feeCap
      gas := gas
      toAddress := toAddress
      value := value
      data := some [] }

/-- `mkpreimage.mjs`: the two files. An empty value counts as a missing one. -/
def mkpreimage (chainId : ℤ) (nonceArg toArg valueArg : List Char) :
    Except Obstacle (DeviceParams × List Char) :=
  if valueArg = [] then .error .usage
  else do
    let paramsJson : DeviceParams :=
      { chainId := toDecimalString chainId
        nonce := nonceArg
        tip := "1000000000".toList
        feeCap := "10000000000".toList
        gas := "500000".toList
        toAddress := withoutMarker toArg
        value := valueArg }
    let nonce ← readBigInt nonceArg
    let tip ← readBigInt paramsJson.tip
    let feeCap ← readBigInt paramsJson.feeCap
    let gas ← readBigInt paramsJson.gas
    let toAddress := toBytes paramsJson.toAddress
    let value ← readBigInt valueArg
    let params : ParametersOf ℤ :=
      { chainId := chainId
        nonce := nonce
        tip := tip
        feeCap := feeCap
        gas := gas
        toAddress := toAddress
        value := value
        data := some [] }
    let pre := encodeUnsignedPreimage params
    pure (paramsJson, toHexText pre)

/-- The functions of the libraries that `broadcast.mjs` calls. -/
structure Wallet where
  keccak256 : List UInt8 → List UInt8
  /-- `MLDSA87.verify(sig, h, pk, desc)`, with the descriptor of ML-DSA-87. -/
  verify : (sig h pk : List UInt8) → Bool

/-- `broadcast.mjs` up to the call of `qrl_sendRawTransaction`: what it sends. -/
def broadcast (wallet : Wallet) (p : DeviceParams) (d : DeviceOut) :
    Except Obstacle (List Char) :=
  match p.parameters with
  | .error obstacle => .error obstacle
  | .ok params =>
      let pre := encodeUnsignedPreimage params
      let h := wallet.keccak256 pre
      let sig := toBytes d.signature
      let pk := toBytes d.publicKey
      if wallet.verify sig h pk then
        .ok ('0' :: 'x' :: toHexText (encodeSignedTx params sig pk))
      else .error .unverified

/-- The whole way, with a device in some state. -/
def sendTransfer (platform : Platform) (around : ℕ → Around) (wallet : Wallet)
    (chainId : ℤ) (nonceArg toArg valueArg : List Char) (packed : Payload maxApduLen)
    (host : Host) : Except Obstacle (List Char) :=
  match mkpreimage chainId nonceArg toArg valueArg with
  | .error obstacle => .error obstacle
  | .ok (paramsJson, hex) =>
      match fromHexText hex with
      | none => .error .valueError
      | some preimage =>
          match outcomeOf ((e2eDeviceSign platform around packed preimage).run host) with
          | .error failure => .error (.device failure)
          | .ok dump =>
              broadcast wallet paramsJson
                { address := toHexText dump.address
                  publicKey := toHexText dump.publicKey
                  signature := toHexText dump.signature }

/-! ## Text is read back -/

theorem hexValue_digitChar {digit : ℕ} (small : digit < 16) :
    hexValue (Nat.digitChar digit) = some digit := by
  have every : ∀ digit < 16, hexValue (Nat.digitChar digit) = some digit := by decide
  exact every digit small

theorem digitsBelow_map {digits : List ℕ} (small : ∀ digit ∈ digits, digit < 10) :
    digitsBelow 10 (digits.map Nat.digitChar) = some digits := by
  induction digits with
  | nil => rfl
  | cons digit rest induction =>
      have here := small digit List.mem_cons_self
      have later := induction fun other member => small other (List.mem_cons_of_mem digit member)
      rw [List.map_cons, digitsBelow, hexValue_digitChar (by omega), later]
      exact if_pos here

theorem literal_map {digits : List ℕ} (present : digits ≠ [])
    (small : ∀ digit ∈ digits, digit < 10) :
    literal 10 (digits.map Nat.digitChar) = some (Int.ofNat (positional 10 digits)) := by
  have nonempty : digits.map Nat.digitChar ≠ [] := fun empty =>
    present (List.map_eq_nil_iff.mp empty)
  rw [literal, if_neg nonempty, digitsBelow_map small, Option.map_some]

theorem trim_eq {text : List Char} (solid : ∀ character ∈ text, isSpace character = false) :
    trim text = text := by
  have kept : ∀ text : List Char, (∀ character ∈ text, isSpace character = false) →
      text.dropWhile isSpace = text := by
    intro text solid
    cases text with
    | nil => rfl
    | cons first rest =>
        exact List.dropWhile_cons_of_neg (by rw [solid first List.mem_cons_self]; decide)
  rw [trim, kept text solid, kept _ fun character member =>
    solid character (List.mem_reverse.mp member), List.reverse_reverse]

theorem digits_decimalString (v : ℕ) : ∃ digits : List ℕ, digits ≠ [] ∧
    (∀ digit ∈ digits, digit < 10) ∧ positional 10 digits = v ∧
      decimalString v = digits.map Nat.digitChar := by
  rw [decimalString]
  split
  · rename_i zero
    have value : positional 10 [0] = v := by
      rw [zero, positional_cons, positional_nil, Nat.zero_mul]
    exact ⟨[0], List.cons_ne_nil _ _, by simp, value, rfl⟩
  · rename_i nonzero
    have value : positional 10 (numeral 10 v) = v := positional_numeral v
    refine ⟨numeral 10 v, fun empty => ?_, numeral_lt (by norm_num) v, value, rfl⟩
    rw [empty, positional_nil] at value
    exact nonzero value.symm

theorem bigInt_toDecimalString (v : ℤ) : bigInt (toDecimalString v) = some v := by
  obtain ⟨digits, present, small, value, text⟩ := digits_decimalString v.natAbs
  have solid : ∀ character ∈ digits.map Nat.digitChar, isSpace character = false := by
    intro character member
    obtain ⟨digit, inside, rfl⟩ := List.mem_map.mp member
    have every : ∀ digit < 10, isSpace (Nat.digitChar digit) = false := by decide
    exact every digit (small digit inside)
  have read := literal_map present small
  obtain ⟨first, rest, rfl⟩ := List.exists_cons_of_ne_nil present
  have firstSmall := small first List.mem_cons_self
  by_cases negative : v < 0
  · have unmarked : markedBase ('-' :: ((first :: rest).map Nat.digitChar).take 1) = none := rfl
    have solidSign : ∀ character ∈ '-' :: (first :: rest).map Nat.digitChar,
        isSpace character = false := by
      intro character member
      rcases List.mem_cons.mp member with rfl | digit
      · decide
      · exact solid character digit
    rw [toDecimalString, if_pos negative, text, bigInt, trim_eq solidSign,
      if_neg (List.cons_ne_nil _ _), List.take_succ_cons, unmarked, signedLiteral, read, value,
      Option.map_some, Int.ofNat_eq_natCast]
    exact congrArg some (by omega)
  · have unmarked : markedBase (((first :: rest).map Nat.digitChar).take 2) = none := by
      have single : ∀ first < 10, markedBase [Nat.digitChar first] = none := by decide
      have pair : ∀ first < 10, ∀ second < 10,
          markedBase [Nat.digitChar first, Nat.digitChar second] = none := by decide
      cases rest with
      | nil => exact single first firstSmall
      | cons second rest =>
          exact pair first firstSmall second (small second (by simp))
    have unsigned : signedLiteral ((first :: rest).map Nat.digitChar) =
        literal 10 ((first :: rest).map Nat.digitChar) := by
      rw [List.map_cons]
      interval_cases first <;> rfl
    rw [toDecimalString, if_neg negative, text, bigInt, trim_eq solid,
      if_neg (by simp), unmarked, unsigned, read, value, Int.ofNat_eq_natCast]
    exact congrArg some (by omega)

def nibbles (bytes : List UInt8) : List ℕ :=
  bytes.flatMap fun b => [b.toNat / 16, b.toNat % 16]

theorem nibbles_lt (bytes : List UInt8) : ∀ digit ∈ nibbles bytes, digit < 16 := by
  intro digit member
  obtain ⟨b, _, nibble⟩ := List.mem_flatMap.mp member
  have bound := b.toNat_lt
  rw [List.mem_cons, List.mem_singleton] at nibble
  omega

theorem length_nibbles (bytes : List UInt8) : (nibbles bytes).length = 2 * bytes.length := by
  induction bytes with
  | nil => rfl
  | cons b rest induction =>
      rw [nibbles, List.flatMap_cons, List.length_append, ← nibbles, induction,
        List.length_cons, List.length_cons, List.length_nil, List.length_cons]
      omega

theorem padEven_byte (b : UInt8) :
    padEven (toHexString b.toNat) = [b.toNat / 16, b.toNat % 16].map Nat.digitChar := by
  have bound := b.toNat_lt
  generalize b.toNat = v at bound
  have digits : ∀ digits : List ℕ, (∀ digit ∈ digits, digit < 16) →
      digits.head? ≠ some 0 → positional 16 digits = v → numeral 16 v = digits := by
    intro digits small leading value
    rw [← value]
    exact numeral_positional (by norm_num) small leading
  rw [toHexString]
  by_cases zero : v = 0
  · rw [if_pos zero, zero]
    rfl
  · rw [if_neg zero]
    by_cases small : v < 16
    · have single : numeral 16 v = [v] := by
        apply digits
        · simpa using small
        · simpa using zero
        · rw [positional_cons, positional_nil, List.length_nil, pow_zero, Nat.mul_one,
            Nat.add_zero]
      rw [single, padEven, if_neg (by simp), Nat.div_eq_of_lt small, Nat.mod_eq_of_lt small]
      rfl
    · have pair : numeral 16 v = [v / 16, v % 16] := by
        apply digits
        · intro digit member
          rw [List.mem_cons, List.mem_singleton] at member
          omega
        · rw [List.head?_cons, ne_eq, Option.some.injEq]
          omega
        · rw [positional_cons, positional_cons, positional_nil, List.length_singleton,
            List.length_nil]
          omega
      rw [pair, padEven, if_pos (by simp)]

theorem toHexText_eq (bytes : List UInt8) :
    toHexText bytes = (nibbles bytes).map Nat.digitChar := by
  rw [toHexText, nibbles, List.map_flatMap]
  exact List.flatMap_congr fun b _ => padEven_byte b

theorem byte_nibbles (b : UInt8) :
    UInt8.ofNat (positional 16 [b.toNat / 16, b.toNat % 16]) = b := by
  have value : positional 16 [b.toNat / 16, b.toNat % 16] = b.toNat := by
    rw [positional_cons, positional_cons, positional_nil, List.length_singleton,
      List.length_nil]
    omega
  rw [value, UInt8.ofNat_toNat]

theorem parsePairs_nibbles (bytes : List UInt8) :
    parsePairs ((nibbles bytes).map Nat.digitChar) = bytes := by
  induction bytes with
  | nil => rfl
  | cons b rest induction =>
      have bound := b.toNat_lt
      have split : nibbles (b :: rest) = b.toNat / 16 :: b.toNat % 16 :: nibbles rest := rfl
      rw [split, List.map_cons, List.map_cons, parsePairs_digitChar (by omega) (by omega),
        induction, byte_nibbles]

theorem toBytes_toHexText (bytes : List UInt8) : toBytes (toHexText bytes) = bytes := by
  have even : ((nibbles bytes).map Nat.digitChar).length % 2 = 0 := by
    rw [List.length_map, length_nibbles]
    omega
  rw [toHexText_eq, toBytes_map (nibbles_lt bytes), padEven, if_pos even,
    parsePairs_nibbles]

theorem fromHexText_toHexText (bytes : List UInt8) :
    fromHexText (toHexText bytes) = some bytes := by
  have solid : ∀ digit < 16, isAsciiSpace (Nat.digitChar digit) = false := by decide
  rw [toHexText_eq]
  induction bytes with
  | nil => rfl
  | cons b rest induction =>
      have bound := b.toNat_lt
      have split : nibbles (b :: rest) = b.toNat / 16 :: b.toNat % 16 :: nibbles rest := rfl
      rw [split, List.map_cons, List.map_cons, fromHexText, if_neg (by
        rw [solid _ (by omega)]; decide)]
      rw [hexValue_digitChar (by omega), hexValue_digitChar (by omega), induction]
      dsimp only
      rw [byte_nibbles]

/-! ## The whole way -/

def transferOf (chainId nonce value : ℤ) (toArg : List Char) : ParametersOf ℤ where
  chainId := chainId
  nonce := nonce
  tip := 1000000000
  feeCap := 10000000000
  gas := 500000
  toAddress := toBytes (withoutMarker toArg)
  value := value
  data := some []

def unsignedTransfer (chainId nonce value : ℕ) (toArg : List Char) : Parameters where
  chainId := chainId
  nonce := nonce
  tip := 1000000000
  feeCap := 10000000000
  gas := 500000
  toAddress := toBytes (withoutMarker toArg)
  value := value
  data := some []

section Transfer

variable (chainId : ℤ) (nonceArg toArg valueArg : List Char)

/-- What `device_params.json` holds. -/
def paramsJsonOf : DeviceParams where
  chainId := toDecimalString chainId
  nonce := nonceArg
  tip := "1000000000".toList
  feeCap := "10000000000".toList
  gas := "500000".toList
  toAddress := withoutMarker toArg
  value := valueArg

theorem readBigInt_constants : readBigInt "1000000000".toList = .ok 1000000000 ∧
    readBigInt "10000000000".toList = .ok 10000000000 ∧
      readBigInt "500000".toList = .ok 500000 :=
  ⟨by decide +kernel, by decide +kernel, by decide +kernel⟩

theorem readBigInt_toDecimalString (v : ℤ) : readBigInt (toDecimalString v) = .ok v := by
  rw [readBigInt, bigInt_toDecimalString]

variable {nonceArg valueArg} {nonce value : ℤ}

theorem readBigInt_some {text : List Char} {v : ℤ} (read : bigInt text = some v) :
    readBigInt text = .ok v := by
  rw [readBigInt, read]

theorem readBigInt_none {text : List Char} (unread : bigInt text = none) :
    readBigInt text = .error .syntaxError := by
  rw [readBigInt, unread]

theorem mkpreimage_eq (given : valueArg ≠ []) (nonceRead : bigInt nonceArg = some nonce)
    (valueRead : bigInt valueArg = some value) :
    mkpreimage chainId nonceArg toArg valueArg =
      .ok (paramsJsonOf chainId nonceArg toArg valueArg,
        toHexText (encodeUnsignedPreimage (transferOf chainId nonce value toArg))) := by
  obtain ⟨tip, feeCap, gas⟩ := readBigInt_constants
  simp only [mkpreimage, if_neg given, readBigInt_some nonceRead, readBigInt_some valueRead,
    tip, feeCap, gas]
  rfl

theorem parameters_eq (nonceRead : bigInt nonceArg = some nonce)
    (valueRead : bigInt valueArg = some value) :
    (paramsJsonOf chainId nonceArg toArg valueArg).parameters =
      .ok (transferOf chainId nonce value toArg) := by
  obtain ⟨tip, feeCap, gas⟩ := readBigInt_constants
  simp only [DeviceParams.parameters, paramsJsonOf, readBigInt_toDecimalString,
    readBigInt_some nonceRead, readBigInt_some valueRead, tip, feeCap, gas]
  rfl

theorem mkpreimage_unread (given : valueArg ≠ [])
    (unread : bigInt nonceArg = none ∨ bigInt valueArg = none) :
    mkpreimage chainId nonceArg toArg valueArg = .error .syntaxError := by
  obtain ⟨tip, feeCap, gas⟩ := readBigInt_constants
  rw [mkpreimage, if_neg given]
  rcases unread with nonce | value
  · rw [readBigInt_none nonce]
    rfl
  · rw [readBigInt_none value]
    cases nonceRead : bigInt nonceArg with
    | none =>
        rw [readBigInt_none nonceRead]
        rfl
    | some nonce =>
        simp only [readBigInt_some nonceRead, tip, feeCap, gas]
        rfl

end Transfer

/-! ## Transfers without data -/

theorem length_plainPreimage {preimage : Preimage} (valid : preimage.Valid)
    (data : preimage.data = []) (accessList : preimage.accessList = []) :
    preimage.bytes.length ≤ maxTransactionLen := by
  have integer : ∀ {limit : ℕ} {bytes : List UInt8}, Integer limit bytes → limit ≤ 55 →
      (Rlp.encode .string bytes).length ≤ 1 + limit := by
    intro limit bytes holds short
    exact (Rlp.length_encode_short (holds.length.trans short)).trans
      (Nat.add_le_add_left holds.length 1)
  have chainId := integer valid.chainId (by norm_num)
  have nonce := integer valid.nonce (by norm_num)
  have gasTipCap := integer valid.gasTipCap (by norm_num)
  have gasFeeCap := integer valid.gasFeeCap (by norm_num)
  have gas := integer valid.gas (by norm_num)
  have value := integer valid.value (by norm_num)
  have toAddress : (Rlp.encode .string preimage.toAddress).length ≤ 66 := by
    have few : preimage.toAddress.length ≤ 64 := by
      rcases valid.toAddress with full | empty
      · exact full.le
      · rw [empty]
        exact Nat.zero_le _
    have bound : preimage.toAddress.length < 256 ^ 1 := by omega
    have encoded : (Rlp.encode .string preimage.toAddress).length ≤
        1 + 1 + preimage.toAddress.length := Rlp.length_encode_le bound
    omega
  have fields : preimage.fields.flatten.length ≤ 223 := by
    have constants : (Rlp.encode .string []).length = 1 ∧ (Rlp.encode .list []).length = 1 ∧
        (Rlp.encode .string [1, 0, 0]).length = 4 := ⟨rfl, rfl, rfl⟩
    rw [Preimage.fields, data, accessList]
    simp only [List.flatten_cons, List.flatten_nil, List.length_append, List.length_nil]
    omega
  have bound : preimage.fields.flatten.length < 256 ^ 1 := by omega
  have whole : (Rlp.encode .list preimage.fields.flatten).length ≤
      1 + 1 + preimage.fields.flatten.length := Rlp.length_encode_le bound
  rw [Preimage.bytes, List.length_cons, maxTransactionLen]
  omega

/-- What a transfer comes to that the device decodes and permits: only the path, the seed,
the user and the signing itself can stand in its way. -/
noncomputable def transferOutcome (platform : Platform) (first last : Around)
    (packed preimage : List UInt8) : Except Failure Dump :=
  if (readRequest platform .confirmAddress packed).2 = false then
    .error (.rapdu .wrongDataLength)
  else
    match first.serving.addressSeed (readRequest platform .confirmAddress packed).1.path,
        last.serving.addressSeed (readRequest platform .confirmAddress packed).1.path with
    | .error error, _ => (internalOutcome error).bind fun _ => .error .assertionError
    | .ok _, .error _ => .error (.rapdu .displayAddressFail)
    | .ok rawSeed, .ok _ =>
        ((answeredSignature platform last (readRequest platform .confirmAddress packed).1.path
          (keccak256 platform.permutation preimage)).mapError .rapdu).map fun sig =>
            { address := (addressOf platform rawSeed).toList
              publicKey := (keyOf platform rawSeed).toList
              signature := sig }

section Plain

variable {parameters : Parameters} (ranges : parameters.InRange)
  (plain : parameters.data.getD [] = [])

include ranges plain

theorem length_plainTransfer :
    (encodeUnsignedPreimage parameters).length ≤ maxTransactionLen := by
  rw [encodeUnsignedPreimage_eq]
  exact length_plainPreimage ranges.valid plain rfl

theorem decodes_plainTransfer {width : ℕ} (wide : 32 ≤ width) :
    ∃ tx, decodeLedgerTx width (encodeUnsignedPreimage parameters) .zero = .ok tx ∧
      (tx.hasData || tx.hasAccessList) = false := by
  obtain ⟨tx, decoded, holds⟩ := ranges.decodes wide
    ((length_plainTransfer ranges plain).trans_lt (by decide)) .zero
  refine ⟨tx, decoded, ?_⟩
  have data : tx.hasData = false := by
    rw [← Bool.not_eq_true, holds.hasData]
    exact not_not_intro plain
  have accessList : tx.hasAccessList = false := by
    rw [← Bool.not_eq_true, holds.hasAccessList]
    exact not_not_intro rfl
  rw [data, accessList]
  rfl

end Plain

/-! ## What is sent -/

section Sending

variable (platform : Platform) (around : ℕ → Around) (wallet : Wallet)

noncomputable def sentOutcome (blindSigning : Bool) (first last : Around)
    (packed : List UInt8) (params : ParametersOf ℤ) : Except Obstacle (List Char) :=
  match e2eOutcome platform blindSigning first last packed (encodeUnsignedPreimage params) with
  | .error failure => .error (.device failure)
  | .ok dump =>
      if wallet.verify dump.signature (wallet.keccak256 (encodeUnsignedPreimage params))
          dump.publicKey then
        .ok ('0' :: 'x' :: toHexText (encodeSignedTx params dump.signature dump.publicKey))
      else .error .unverified

/-- A missing value and arguments that `BigInt` does not read stop the scripts before
anything is signed. Otherwise the device signs the preimage that `broadcast.mjs` hashes
again, the wallet verifies the signature and the key that the device has returned, and what
is sent is the envelope of the same parameters. The user has then approved the transfer, and
when a path always derives the same seed, the signature is valid for the digest of the
device. Without negative numbers the preimage is that of parameters without signs. -/
theorem sendTransfer_outcome (chainId : ℤ) (nonceArg toArg valueArg : List Char)
    (packed : Payload maxApduLen) (host : Host) :
    (valueArg = [] →
      sendTransfer platform around wallet chainId nonceArg toArg valueArg packed host =
        .error .usage) ∧
      (valueArg ≠ [] → bigInt nonceArg = none ∨ bigInt valueArg = none →
        sendTransfer platform around wallet chainId nonceArg toArg valueArg packed host =
          .error .syntaxError) ∧
      (∀ nonce value, valueArg ≠ [] → bigInt nonceArg = some nonce →
        bigInt valueArg = some value →
        ∃ last, sendTransfer platform around wallet chainId nonceArg toArg valueArg packed
            host =
              sentOutcome platform wallet (host.world.nvm.enableBlindSigning ≠ 0)
                (around host.exchanges) (around last) packed.val
                (transferOf chainId nonce value toArg) ∧
          ∀ raw, sendTransfer platform around wallet chainId nonceArg toArg valueArg packed
              host = .ok raw →
            ∃ dump : Dump,
              raw = '0' :: 'x' :: toHexText (encodeSignedTx
                (transferOf chainId nonce value toArg) dump.signature dump.publicKey) ∧
              wallet.verify dump.signature (wallet.keccak256 (encodeUnsignedPreimage
                (transferOf chainId nonce value toArg))) dump.publicKey = true ∧
              (around last).confirm = true ∧
              ∀ rawSeedOf, (around host.exchanges).serving.Derives rawSeedOf →
                (around last).answering.Derives rawSeedOf →
                  Spec.Verifies platform.shake dump.publicKey dump.signature
                    (keccak256 platform.permutation (encodeUnsignedPreimage
                      (transferOf chainId nonce value toArg))).toList) ∧
      ∀ chainId nonce value : ℕ,
        encodeUnsignedPreimage (transferOf chainId nonce value toArg) =
          encodeUnsignedPreimage (unsignedTransfer chainId nonce value toArg) := by
  refine ⟨fun missing => ?_, fun given unread => ?_, ?_, fun chainId nonce value =>
    encodeUnsignedPreimage_signed (unsignedTransfer chainId nonce value toArg)⟩
  · rw [sendTransfer, mkpreimage, if_pos missing]
  · rw [sendTransfer, mkpreimage_unread chainId toArg given unread]
  · intro nonce value given nonceRead valueRead
    have signed := outcomeOf_e2eDeviceSign platform around packed
      (encodeUnsignedPreimage (transferOf chainId nonce value toArg)) host
    refine ⟨host.exchanges + 12 + (splitMessage (encodeUnsignedPreimage
      (transferOf chainId nonce value toArg)) maxApduLen).length, ?_⟩
    generalize host.exchanges + 12 + (splitMessage (encodeUnsignedPreimage
      (transferOf chainId nonce value toArg)) maxApduLen).length = last at signed ⊢
    have sent : sendTransfer platform around wallet chainId nonceArg toArg valueArg packed
        host = sentOutcome platform wallet (host.world.nvm.enableBlindSigning ≠ 0)
          (around host.exchanges) (around last) packed.val
          (transferOf chainId nonce value toArg) := by
      rw [sendTransfer, mkpreimage_eq chainId toArg given nonceRead valueRead, sentOutcome]
      dsimp only
      rw [fromHexText_toHexText]
      dsimp only
      rw [signed]
      cases e2eOutcome platform (host.world.nvm.enableBlindSigning ≠ 0)
          (around host.exchanges) (around last) packed.val
          (encodeUnsignedPreimage (transferOf chainId nonce value toArg)) with
      | error failure => rfl
      | ok dump =>
          dsimp only
          rw [broadcast, parameters_eq chainId toArg nonceRead valueRead]
          dsimp only
          rw [toBytes_toHexText, toBytes_toHexText]
    refine ⟨sent, fun raw returned => ?_⟩
    rw [sent, sentOutcome] at returned
    cases dumped : e2eOutcome platform (host.world.nvm.enableBlindSigning ≠ 0)
        (around host.exchanges) (around last) packed.val
        (encodeUnsignedPreimage (transferOf chainId nonce value toArg)) with
    | error failure =>
        rw [dumped] at returned
        cases returned
    | ok dump =>
        rw [dumped] at returned
        dsimp only at returned
        split at returned
        · rename_i verified
          cases returned
          obtain ⟨_, confirmed, holds⟩ := e2eOutcome_ok dumped
          exact ⟨dump, rfl, verified, confirmed,
            fun rawSeedOf serves answers => (holds rawSeedOf serves answers).1⟩
        · cases returned

/-- A wallet that takes every signature. -/
def trusting : Wallet where
  keccak256 := id
  verify _ _ _ := true

/-- The nonce is read in base 16, and the transfer is signed and sent. -/
theorem sendTransfer_outcome_marked :
    ∃ (raw : List Char) (dump : Dump),
      sendTransfer simplePlatform (fun _ => approving) trusting 1337 ['0', 'x', '1', '0']
          (List.replicate 128 '1') ['5'] (.slice (pathBytes 0) 0 _)
          { world := World.started, exchanges := 0 } = .ok raw ∧
        raw = '0' :: 'x' :: toHexText (encodeSignedTx
          (transferOf 1337 16 5 (List.replicate 128 '1')) dump.signature dump.publicKey) ∧
        Spec.Verifies constantShake dump.publicKey dump.signature
          (keccak256 simplePlatform.permutation (encodeUnsignedPreimage
            (transferOf 1337 16 5 (List.replicate 128 '1')))).toList := by
  have outcome := sendTransfer_outcome simplePlatform (fun _ => approving) trusting 1337
    ['0', 'x', '1', '0'] (List.replicate 128 '1') ['5'] (.slice (pathBytes 0) 0 _)
    { world := World.started, exchanges := 0 }
  obtain ⟨last, sent, holds⟩ := outcome.2.2.1 16 5 (List.cons_ne_nil _ _) (by decide) (by decide)
  have ranges : (unsignedTransfer 1337 16 5 (List.replicate 128 '1')).InRange :=
    ⟨by decide, by decide, by decide, by decide, by decide, .inr (by decide +kernel),
      by decide⟩
  have signed : encodeUnsignedPreimage (transferOf 1337 16 5 (List.replicate 128 '1')) =
      encodeUnsignedPreimage (unsignedTransfer 1337 16 5 (List.replicate 128 '1')) :=
    outcome.2.2.2 1337 16 5
  obtain ⟨tx, decoded, unblinded⟩ := decodes_plainTransfer ranges rfl (Nat.le_refl 32)
  obtain ⟨dump, dumped⟩ := e2eOutcome_simple (World.started.nvm.enableBlindSigning ≠ 0) decoded
    unblinded (List.cons_ne_nil _ _) (length_plainTransfer ranges rfl)
  rw [← signed] at dumped
  have reached : sentOutcome simplePlatform trusting
      (World.started.nvm.enableBlindSigning ≠ 0) approving approving (pathBytes 0)
      (transferOf 1337 16 5 (List.replicate 128 '1')) =
        .ok ('0' :: 'x' :: toHexText (encodeSignedTx
          (transferOf 1337 16 5 (List.replicate 128 '1')) dump.signature dump.publicKey)) := by
    rw [sentOutcome, dumped]
    exact if_pos rfl
  obtain ⟨returned, envelope, _, _, verifies⟩ := holds _ (sent.trans reached)
  exact ⟨_, returned, sent.trans reached, envelope, verifies _ derivingEnvironment_derives
    derivingEnvironment_derives⟩

end Sending

/-! ## No transfer is refused -/

/-- The device signs every transfer whose parameters are in range, whatever the setting of
blind signing. -/
theorem e2eDeviceSign_transfer (platform : Platform) (around : ℕ → Around)
    (words : platform.sizeWidth = 32 ∨ platform.sizeWidth = 64) (parameters : Parameters)
    (ranges : parameters.InRange) (plain : parameters.data.getD [] = [])
    (packed : Payload maxApduLen) (host : Host) :
    outcomeOf ((e2eDeviceSign platform around packed
        (encodeUnsignedPreimage parameters)).run host) =
      transferOutcome platform (around host.exchanges) (around (host.exchanges + 12 +
        (splitMessage (encodeUnsignedPreimage parameters) maxApduLen).length)) packed.val
        (encodeUnsignedPreimage parameters) := by
  have length := length_plainTransfer ranges plain
  have wide : 32 ≤ platform.sizeWidth := by omega
  obtain ⟨tx, decoded, unblinded⟩ := decodes_plainTransfer ranges plain wide
  have nonempty : encodeUnsignedPreimage parameters ≠ [] := List.cons_ne_nil _ _
  rw [outcomeOf_e2eDeviceSign]
  generalize around (host.exchanges + 12 +
    (splitMessage (encodeUnsignedPreimage parameters) maxApduLen).length) = last
  rw [e2eOutcome, transferOutcome]
  split
  · rfl
  · rename_i accepted
    have transaction : ¬ (readRequest platform .confirmTransaction packed.val).2 = false := by
      rw [readRequest_accepts packed.val .confirmTransaction .confirmAddress]
      exact accepted
    have samePath : (readRequest platform .confirmTransaction packed.val).1.path =
        (readRequest platform .confirmAddress packed.val).1.path := readRequest_path _ _ _
    rw [signTxOutcome, if_neg transaction, if_neg nonempty, if_neg (Nat.not_lt.mpr length),
      reviewedSignature_plain decoded unblinded, samePath]
    cases (around host.exchanges).serving.addressSeed
        (readRequest platform .confirmAddress packed.val).1.path with
    | error error => rfl
    | ok rawSeed =>
        cases last.serving.addressSeed
            (readRequest platform .confirmAddress packed.val).1.path with
        | error error => rfl
        | ok again => rfl

theorem e2eDeviceSign_transfer_simple :
    outcomeOf ((e2eDeviceSign simplePlatform (fun _ => approving) (.slice (pathBytes 0) 0 _)
        (encodeUnsignedPreimage transfer)).run { world := World.started, exchanges := 0 }) =
      transferOutcome simplePlatform approving approving
        (Payload.slice (pathBytes 0) 0 maxApduLen).val (encodeUnsignedPreimage transfer) :=
  e2eDeviceSign_transfer simplePlatform (fun _ => approving) (.inl rfl) transfer
    transfer_inRange rfl _ _

end LedgerQrl.App
