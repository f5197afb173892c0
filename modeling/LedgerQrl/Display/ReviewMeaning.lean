import LedgerQrl.Display.Review
import LedgerQrl.Transaction.PreimageEncoder

namespace LedgerQrl.Display

open Foundation Transaction Mldsa87 App

/-! # What a review tells

Every accepted transaction is shown, and its lines denote its numbers. Two
transactions that look alike are equal, except that no line tells an empty
recipient from the address of zeros. -/

/-! ## One transaction -/

section Exact

def reviewLines (settings : ReviewSettings) (mHash : Vector UInt8 32)
    (fromAddress amount toAddress chainId gasLimit tip maxFees nonce : List Char) :
    List Pair :=
  [⟨"From", fromAddress⟩, ⟨"Amount", ['Q', 'R', 'L', ' '] ++ amount⟩, ⟨"To", toAddress⟩,
    ⟨"Chain ID", chainId⟩, ⟨"Gas limit", gasLimit⟩,
    ⟨"Priority fee / gas", ['Q', 'R', 'L', ' '] ++ tip⟩,
    ⟨"Max fees", ['Q', 'R', 'L', ' '] ++ maxFees⟩] ++
    (if settings.displayNonce then [⟨"Nonce", nonce⟩] else []) ++
    (if settings.displayTxHash then [⟨"Transaction hash", hexText mHash.toList⟩] else [])

/-- An accepted transaction is shown, and the lines are the numbers of its items. -/
theorem formatReview_denotes {width : ℕ} (octets : 8 ≤ width) {rlp : List UInt8}
    (bound : rlp.length < 2147483648) {prior tx : ZondTx}
    (decoded : decodeLedgerTx width rlp prior = .ok tx) (shake256 : Xof)
    (settings : ReviewSettings) (address : Vector UInt8 addressSize)
    (mHash : Vector UInt8 32) (buffers : ReviewBuffers) :
    ∃ (layout : Layout) (amount tip maxFees : List Char),
      layout.bytes = rlp ∧ layout.Accepted width ∧
      formatReview shake256 settings address mHash.toList tx buffers =
        .ok (.ok (reviewLines settings mHash (checksummed shake256 address) amount
          (checksummed shake256 tx.toAddress)
          (decimalText (bigEndian layout.chainId.payload))
          (decimalText (bigEndian layout.gas.payload)) tip maxFees
          (decimalText (bigEndian layout.nonce.payload)))) ∧
      decimalValue amount * 10 ^ 18 = bigEndian layout.value.payload ∧
      decimalValue tip * 10 ^ 18 = bigEndian layout.gasTipCap.payload ∧
      decimalValue maxFees * 10 ^ 18 =
        bigEndian layout.gasFeeCap.payload * bigEndian layout.gas.payload := by
  obtain ⟨layout, bytes, accepted, stores⟩ := layout_of_decodeLedgerTx octets bound decoded
  have holds := stores.holds accepted
  refine ⟨layout, fixedText 18 (bigEndian tx.value.bytes),
    fixedText 18 (bigEndian tx.gasTipCap.bytes),
    fixedText 18 (bigEndian tx.gasFeeCap.bytes * bigEndian tx.gas.bytes),
    bytes, accepted, ?_, ?_, ?_, ?_⟩
  · rw [formatReview_eq shake256 settings address (Vector.length_toList) tx buffers,
      reviewPairs, holds.chainId, holds.gas, holds.nonce]
    rfl
  · rw [decimalValue_fixedText, holds.value]
    field_simp
    rfl
  · rw [decimalValue_fixedText, holds.gasTipCap]
    field_simp
    rfl
  · rw [decimalValue_fixedText, holds.gasFeeCap, holds.gas]
    push_cast
    field_simp
    rfl

/-- The review of a transfer with zeroed buffers and any checksum. -/
theorem formatReview_denotes_transfer :
    ∃ tx, ∃ (layout : Layout) (amount tip maxFees : List Char),
      layout.bytes = encodeUnsignedPreimage transfer ∧ layout.Accepted 32 ∧
      formatReview (fun _ _ => 0) ⟨true, true⟩ (Vector.replicate 64 0)
          (Vector.replicate 32 (0 : UInt8)).toList tx
          ⟨cleared _, cleared _, cleared _, cleared _, cleared _⟩ =
        .ok (.ok (reviewLines ⟨true, true⟩ (Vector.replicate 32 0)
          (checksummed (fun _ _ => 0) (Vector.replicate 64 0)) amount
          (checksummed (fun _ _ => 0) tx.toAddress)
          (decimalText (bigEndian layout.chainId.payload))
          (decimalText (bigEndian layout.gas.payload)) tip maxFees
          (decimalText (bigEndian layout.nonce.payload)))) ∧
      decimalValue amount * 10 ^ 18 = bigEndian layout.value.payload ∧
      decimalValue tip * 10 ^ 18 = bigEndian layout.gasTipCap.payload ∧
      decimalValue maxFees * 10 ^ 18 =
        bigEndian layout.gasFeeCap.payload * bigEndian layout.gas.payload := by
  have short : (encodeUnsignedPreimage transfer).length < 2147483648 := by decide +kernel
  obtain ⟨tx, decoded, _⟩ := transfer_inRange.decodes (show 32 ≤ 32 by norm_num) short .zero
  exact ⟨tx, formatReview_denotes (by norm_num) short decoded _ _ _ _ _⟩

end Exact

/-! ## Two transactions -/

section Determined

/-- The items of the two preimages are equal, except that `gas_fee_cap` counts only
when there is gas. -/
structure SameItems (left right : Parameters) : Prop where
  chainId : intToBytes left.chainId = intToBytes right.chainId
  nonce : intToBytes left.nonce = intToBytes right.nonce
  gas : intToBytes left.gas = intToBytes right.gas
  tip : intToBytes left.tip = intToBytes right.tip
  value : intToBytes left.value = intToBytes right.value
  toAddress : left.toAddress = right.toAddress
  feeCap : left.gas ≠ 0 → intToBytes left.feeCap = intToBytes right.feeCap

structure SameNumbers (left right : Parameters) : Prop where
  chainId : left.chainId = right.chainId
  nonce : left.nonce = right.nonce
  gas : left.gas = right.gas
  tip : left.tip = right.tip
  value : left.value = right.value
  maxFees : left.feeCap * left.gas = right.feeCap * right.gas

/-- One recipient is empty and the other is the address of zeros. -/
def EmptyOrZeros (left right : List UInt8) : Prop :=
  left = [] ∧ right = List.replicate addressLength 0 ∨
    left = List.replicate addressLength 0 ∧ right = []

theorem addressOf_nil : Transaction.addressOf [] = Vector.replicate addressLength 0 := by
  apply Vector.ext
  intro index inside
  simp [Transaction.addressOf]

theorem eq_replicate_of_addressOf {full : List UInt8} (length : full.length = addressLength)
    (zeros : Transaction.addressOf full = Vector.replicate addressLength 0) :
    full = List.replicate addressLength 0 := by
  rw [← addressOf_toList length, zeros, Vector.toList_replicate]

/-- Which recipients are decoded alike. -/
theorem addressOf_eq_iff {left right : List UInt8}
    (leftLength : left.length = 0 ∨ left.length = addressLength)
    (rightLength : right.length = 0 ∨ right.length = addressLength) :
    Transaction.addressOf left = Transaction.addressOf right ↔
      left = right ∨ EmptyOrZeros left right := by
  constructor
  · intro equal
    rcases leftLength with leftEmpty | leftFull
    · have leftNil := List.length_eq_zero_iff.mp leftEmpty
      rcases rightLength with rightEmpty | rightFull
      · exact .inl (leftNil.trans (List.length_eq_zero_iff.mp rightEmpty).symm)
      · rw [leftNil, addressOf_nil] at equal
        exact .inr (.inl ⟨leftNil, eq_replicate_of_addressOf rightFull equal.symm⟩)
    · rcases rightLength with rightEmpty | rightFull
      · have rightNil := List.length_eq_zero_iff.mp rightEmpty
        rw [rightNil, addressOf_nil] at equal
        exact .inr (.inr ⟨eq_replicate_of_addressOf leftFull equal, rightNil⟩)
      · rw [← addressOf_toList leftFull, equal, addressOf_toList rightFull]
        exact .inl rfl
  · have zeros : Transaction.addressOf (List.replicate addressLength 0) =
        Transaction.addressOf [] := by
      have full : (List.replicate addressLength (0 : UInt8)).length = addressLength :=
        List.length_replicate
      apply Vector.toList_inj.mp
      rw [addressOf_toList full, addressOf_nil, Vector.toList_replicate]
    rintro (same | ⟨leftNil, rightZeros⟩ | ⟨leftZeros, rightNil⟩)
    · rw [same]
    · rw [leftNil, rightZeros, zeros]
    · rw [leftZeros, rightNil, zeros]

theorem take_reviewPairs {parameters : Parameters} {tx : ZondTx}
    (holds : parameters.preimage.Holds tx) (shake256 : Xof) (hash : Bool)
    (address : Vector UInt8 addressSize) (mHash : List UInt8) :
    (reviewPairs shake256 ⟨true, hash⟩ address mHash tx).take 8 =
      [⟨"From", checksummed shake256 address⟩,
        ⟨"Amount", ['Q', 'R', 'L', ' '] ++ fixedText 18 parameters.value⟩,
        ⟨"To", checksummed shake256 (Transaction.addressOf parameters.toAddress)⟩,
        ⟨"Chain ID", decimalText parameters.chainId⟩,
        ⟨"Gas limit", decimalText parameters.gas⟩,
        ⟨"Priority fee / gas", ['Q', 'R', 'L', ' '] ++ fixedText 18 parameters.tip⟩,
        ⟨"Max fees", ['Q', 'R', 'L', ' '] ++
          fixedText 18 (parameters.feeCap * parameters.gas)⟩,
        ⟨"Nonce", decimalText parameters.nonce⟩] := by
  rw [reviewPairs, holds.value, holds.toAddress, holds.chainId, holds.gas, holds.gasTipCap,
    holds.gasFeeCap, holds.nonce]
  simp only [Parameters.preimage, bigEndian_minimalBytes]
  rfl

/-- Two reviews look alike exactly when their numbers and their decoded addresses
are the same. -/
theorem take_reviewPairs_eq_iff {left right : Parameters} {tx tx' : ZondTx}
    (holds : left.preimage.Holds tx) (holds' : right.preimage.Holds tx')
    (shake256 : Xof) (hash hash' : Bool) (address address' : Vector UInt8 addressSize)
    (mHash mHash' : List UInt8) :
    (reviewPairs shake256 ⟨true, hash⟩ address mHash tx).take 8 =
        (reviewPairs shake256 ⟨true, hash'⟩ address' mHash' tx').take 8 ↔
      address = address' ∧ SameNumbers left right ∧
        Transaction.addressOf left.toAddress = Transaction.addressOf right.toAddress := by
  rw [take_reviewPairs holds, take_reviewPairs holds']
  simp only [List.cons.injEq, Pair.mk.injEq, true_and, and_true, List.append_cancel_left_eq]
  constructor
  · rintro ⟨fromAddress, value, toAddress, chainId, gas, tip, maxFees, nonce⟩
    exact ⟨checksummed_inj fromAddress,
      ⟨decimalText_inj chainId, decimalText_inj nonce, decimalText_inj gas, fixedText_inj tip,
        fixedText_inj value, fixedText_inj maxFees⟩, checksummed_inj toAddress⟩
  · rintro ⟨rfl, same, toAddress⟩
    rw [same.maxFees, same.value, toAddress, same.chainId, same.gas, same.tip, same.nonce]
    simp

theorem SameNumbers.sameItems {left right : Parameters} (same : SameNumbers left right)
    (toAddress : left.toAddress = right.toAddress) : SameItems left right where
  chainId := by rw [same.chainId]
  nonce := by rw [same.nonce]
  gas := by rw [same.gas]
  tip := by rw [same.tip]
  value := by rw [same.value]
  toAddress := toAddress
  feeCap := by
    intro gas
    have maxFees := same.maxFees
    rw [← same.gas] at maxFees
    rw [Nat.eq_of_mul_eq_mul_right (Nat.pos_of_ne_zero gas) maxFees]

theorem Parameters.InRange.holds {parameters : Parameters} (ranges : parameters.InRange)
    {width : ℕ} (words : width = 32 ∨ width = 64)
    (bound : (encodeUnsignedPreimage parameters).length ≤ maxTransactionLen)
    {prior tx : ZondTx}
    (decoded : decodeLedgerTx width (encodeUnsignedPreimage parameters) prior = .ok tx) :
    parameters.preimage.Holds tx := by
  have short : (encodeUnsignedPreimage parameters).length < 2147483648 :=
    bound.trans_lt (by norm_num [maxTransactionLen])
  obtain ⟨found, again, holds⟩ :=
    ranges.decodes (show 32 ≤ width by omega) short prior
  rw [decoded] at again
  rwa [Except.ok.inj again]

/-- The lines of the review determine the items exactly when the two transactions
do not differ by an empty recipient alone. -/
theorem formatReview_determines_iff {width : ℕ} (words : width = 32 ∨ width = 64)
    {left right : Parameters} (ranges : left.InRange) (ranges' : right.InRange)
    (bound : (encodeUnsignedPreimage left).length ≤ maxTransactionLen)
    (bound' : (encodeUnsignedPreimage right).length ≤ maxTransactionLen)
    {prior prior' tx tx' : ZondTx}
    (decoded : decodeLedgerTx width (encodeUnsignedPreimage left) prior = .ok tx)
    (decoded' : decodeLedgerTx width (encodeUnsignedPreimage right) prior' = .ok tx')
    (shake256 : Xof) (hash hash' : Bool) (address address' : Vector UInt8 addressSize)
    (mHash mHash' : Vector UInt8 32) (buffers buffers' : ReviewBuffers) :
    (∀ pairs pairs' : List Pair,
        formatReview shake256 ⟨true, hash⟩ address mHash.toList tx buffers =
          .ok (.ok pairs) →
        formatReview shake256 ⟨true, hash'⟩ address' mHash'.toList tx' buffers' =
          .ok (.ok pairs') →
        pairs.take 8 = pairs'.take 8 → SameItems left right) ↔
      ¬ (address = address' ∧ SameNumbers left right ∧
        EmptyOrZeros left.toAddress right.toAddress) := by
  have holds := Parameters.InRange.holds ranges words bound decoded
  have holds' := Parameters.InRange.holds ranges' words bound' decoded'
  have shownLeft := formatReview_eq shake256 ⟨true, hash⟩ address
    (show mHash.toList.length = 32 from Vector.length_toList) tx buffers
  have shownRight := formatReview_eq shake256 ⟨true, hash'⟩ address'
    (show mHash'.toList.length = 32 from Vector.length_toList) tx' buffers'
  have recipients := addressOf_eq_iff ranges.toAddress ranges'.toAddress
  have alike := take_reviewPairs_eq_iff holds holds' shake256 hash hash' address address'
    mHash.toList mHash'.toList
  constructor
  · rintro determines ⟨same, numbers, apart⟩
    have items := determines _ _ shownLeft shownRight
      (alike.mpr ⟨same, numbers, recipients.mpr (.inr apart)⟩)
    have lengths := congrArg List.length items.toAddress
    rcases apart with ⟨empty, zeros⟩ | ⟨zeros, empty⟩
    · rw [empty, zeros] at lengths
      exact absurd lengths (by norm_num [addressLength])
    · rw [empty, zeros] at lengths
      exact absurd lengths (by norm_num [addressLength])
  · intro apart pairs pairs' left right equal
    rw [shownLeft] at left
    rw [shownRight] at right
    obtain rfl := Except.ok.inj (Except.ok.inj left)
    obtain rfl := Except.ok.inj (Except.ok.inj right)
    obtain ⟨same, numbers, toAddress⟩ := alike.mp equal
    rcases recipients.mp toAddress with recipient | collision
    · exact numbers.sameItems recipient
    · exact absurd ⟨same, numbers, collision⟩ apart

def creation : Parameters := { transfer with toAddress := [] }

def toZeros : Parameters := { transfer with toAddress := List.replicate 64 0 }

theorem creation_inRange : creation.InRange :=
  ⟨by decide, by decide, by decide, by decide, by decide, by decide, by decide⟩

theorem toZeros_inRange : toZeros.InRange :=
  ⟨by decide, by decide, by decide, by decide, by decide, by decide, by decide⟩

def ReviewBuffers.cleared : ReviewBuffers :=
  ⟨Display.cleared _, Display.cleared _, Display.cleared _, Display.cleared _,
    Display.cleared _⟩

theorem formatReview_determines_iff_creation :
    ∃ tx tx' : ZondTx,
      (∀ pairs pairs' : List Pair,
        formatReview (fun _ _ => 0) ⟨true, false⟩ (Vector.replicate 64 0)
            (Vector.replicate 32 (0 : UInt8)).toList tx .cleared = .ok (.ok pairs) →
        formatReview (fun _ _ => 0) ⟨true, false⟩ (Vector.replicate 64 0)
            (Vector.replicate 32 (0 : UInt8)).toList tx' .cleared = .ok (.ok pairs') →
        pairs.take 8 = pairs'.take 8 → SameItems creation transfer) ↔
      ¬ (Vector.replicate addressSize (0 : UInt8) = Vector.replicate addressSize 0 ∧
        SameNumbers creation transfer ∧
        EmptyOrZeros creation.toAddress transfer.toAddress) := by
  have short : (encodeUnsignedPreimage creation).length ≤ maxTransactionLen := by
    decide +kernel
  have short' : (encodeUnsignedPreimage transfer).length ≤ maxTransactionLen := by
    decide +kernel
  obtain ⟨tx, decoded, _⟩ := creation_inRange.decodes (show 32 ≤ 32 by norm_num)
    (short.trans_lt (by norm_num [maxTransactionLen])) .zero
  obtain ⟨tx', decoded', _⟩ := transfer_inRange.decodes (show 32 ≤ 32 by norm_num)
    (short'.trans_lt (by norm_num [maxTransactionLen])) .zero
  exact ⟨tx, tx', formatReview_determines_iff (.inl rfl) creation_inRange transfer_inRange
    short short' decoded decoded' _ _ _ _ _ _ _ _ _⟩

/-- An empty recipient and the address of zeros look alike. -/
theorem not_formatReview_determines :
    ¬ ∀ (left right : Parameters) (tx tx' : ZondTx) (pairs pairs' : List Pair),
      left.InRange → right.InRange →
      decodeLedgerTx 32 (encodeUnsignedPreimage left) .zero = .ok tx →
      decodeLedgerTx 32 (encodeUnsignedPreimage right) .zero = .ok tx' →
      tx.hasData = false ∧ tx.hasAccessList = false →
      tx'.hasData = false ∧ tx'.hasAccessList = false →
      formatReview (fun _ _ => 0) ⟨true, false⟩ (Vector.replicate 64 0)
          (Vector.replicate 32 (0 : UInt8)).toList tx .cleared = .ok (.ok pairs) →
      formatReview (fun _ _ => 0) ⟨true, false⟩ (Vector.replicate 64 0)
          (Vector.replicate 32 (0 : UInt8)).toList tx' .cleared = .ok (.ok pairs') →
      pairs.take 8 = pairs'.take 8 → SameItems left right := by
  intro determines
  have short : (encodeUnsignedPreimage creation).length < 2147483648 := by decide +kernel
  have short' : (encodeUnsignedPreimage toZeros).length < 2147483648 := by decide +kernel
  obtain ⟨tx, decoded, holds⟩ :=
    creation_inRange.decodes (show 32 ≤ 32 by norm_num) short .zero
  obtain ⟨tx', decoded', holds'⟩ :=
    toZeros_inRange.decodes (show 32 ≤ 32 by norm_num) short' .zero
  have clear : ∀ {parameters : Parameters} {found : ZondTx},
      parameters.preimage.Holds found → parameters.data = none →
        found.hasData = false ∧ found.hasAccessList = false := by
    intro parameters found foundHolds none
    rw [← Bool.not_eq_true, ← Bool.not_eq_true, foundHolds.hasData, foundHolds.hasAccessList]
    simp [Parameters.preimage, none]
  have alike := (take_reviewPairs_eq_iff holds holds' (fun _ _ => 0) false false
    (Vector.replicate addressSize 0) (Vector.replicate addressSize 0)
    (Vector.replicate 32 (0 : UInt8)).toList (Vector.replicate 32 (0 : UInt8)).toList).mpr
      ⟨rfl, ⟨rfl, rfl, rfl, rfl, rfl, rfl⟩,
        (addressOf_eq_iff (.inl rfl) (.inr (by decide))).mpr (.inr (.inl ⟨rfl, rfl⟩))⟩
  have items := determines creation toZeros tx tx' _ _ creation_inRange toZeros_inRange
    decoded decoded' (clear holds rfl) (clear holds' rfl)
    (formatReview_eq _ _ _ Vector.length_toList tx .cleared)
    (formatReview_eq _ _ _ Vector.length_toList tx' .cleared) alike
  exact absurd items.toAddress (by decide)

end Determined

end LedgerQrl.Display
