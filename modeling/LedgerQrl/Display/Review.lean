import LedgerQrl.App.Types
import LedgerQrl.Display.AddressFormat

namespace LedgerQrl.Display

open Foundation Transaction Mldsa87 App

/-! # The review of a transaction

What `ui_display_transaction_bs_choice` formats after the address is derived. -/

/-- The static buffers that are not cleared before they are written. -/
structure ReviewBuffers where
  chainId : Buffer (maxDecimalDigits + 1)
  nonce : Buffer 21
  gasLimit : Buffer 21
  gasTipCap : Buffer (maxAmountLen + 5)
  txHash : Buffer 65

structure ReviewSettings where
  displayNonce : Bool
  displayTxHash : Bool

/-- `nbgl_contentTagValue_t`, with the string that `value` points to. -/
structure Pair where
  item : String
  value : List Char
deriving DecidableEq

section Format

variable {size length : ℕ}

def cleared (size : ℕ) : Buffer size := Vector.replicate size nul

def shown (buffer : Buffer size) : Checked (List Char) :=
  match buffer.string with
  | some text => .ok text
  | none => .error .outOfBounds

/-- `snprintf(out, sizeof(out), "QRL %s", amount)`. -/
def printQrl (amount : Buffer length) (out : Buffer size) : Checked (Buffer size) := do
  let text ← shown amount
  storeText out 0 ((['Q', 'R', 'L', ' '] ++ text).take (size - 1) ++ [nul])

def bytesToLowerHex (bytes : List UInt8) (out : Buffer size) : Checked (Buffer size) :=
  storeText out 0 (hexText bytes ++ [nul])

end Format

def formatMaxFees (tx : ZondTx) : Checked (Bool × Buffer maxAmountLen) := do
  let (multiplied, product) ← multiplyUint8Arrays tx.gasFeeCap.bytes tx.gas.bytes
    { out := List.replicate maxIntegerBytes 0, outLen := maxIntegerBytes }
  if multiplied then
    formatQrlAmount (product.out.take product.outLen) (cleared maxAmountLen)
  else .ok (false, cleared maxAmountLen)

def noncePairs (settings : ReviewSettings) (tx : ZondTx) (buffers : ReviewBuffers) :
    Checked (Except StatusWord (List Pair)) :=
  if settings.displayNonce then do
    let (formatted, nonce) ← uint8ArrayToDecimal tx.nonce.bytes buffers.nonce
    if formatted then do
      let text ← shown nonce
      .ok (.ok [⟨"Nonce", text⟩])
    else .ok (.error .displayAmountFail)
  else .ok (.ok [])

def hashPairs (settings : ReviewSettings) (mHash : List UInt8) (buffers : ReviewBuffers) :
    Checked (List Pair) :=
  if settings.displayTxHash then do
    let hash ← bytesToLowerHex mHash buffers.txHash
    let text ← shown hash
    .ok [⟨"Transaction hash", text⟩]
  else .ok []

/-- The lines of the review, or the status word of the formatting that fails. -/
def formatReview (shake256 : Xof) (settings : ReviewSettings)
    (address : Vector UInt8 addressSize) (mHash : List UInt8) (tx : ZondTx)
    (buffers : ReviewBuffers) : Checked (Except StatusWord (List Pair)) := do
  let (formatted, fromAddress) ←
    formatChecksummedAddress shake256 address (cleared (1 + addressSize * 2 + 1))
  if !formatted then .ok (.error .displayAddressFail)
  else do
    let (formatted, value) ← formatQrlAmount tx.value.bytes (cleared maxAmountLen)
    if !formatted then .ok (.error .displayAmountFail)
    else do
      let amount ← printQrl value (cleared (maxAmountLen + 5))
      let (formatted, toAddress) ← formatChecksummedAddress shake256 tx.toAddress
        (cleared (1 + addressSize * 2 + 1))
      if !formatted then .ok (.error .displayAddressFail)
      else do
        let (formatted, fees) ← formatMaxFees tx
        if !formatted then .ok (.error .displayAmountFail)
        else do
          let maxFees ← printQrl fees (cleared (maxAmountLen + 5))
          let (formattedId, chainId) ← uint8ArrayToDecimal tx.chainId.bytes buffers.chainId
          let (formattedGas, gasLimit) ← uint8ArrayToDecimal tx.gas.bytes buffers.gasLimit
          let (formattedTip, tip) ← formatQrlAmount tx.gasTipCap.bytes value
          if !formattedId || !formattedGas || !formattedTip then
            .ok (.error .displayAmountFail)
          else do
            let gasTipCap ← printQrl tip buffers.gasTipCap
            let fromAddress ← shown fromAddress
            let amount ← shown amount
            let toAddress ← shown toAddress
            let chainId ← shown chainId
            let gasLimit ← shown gasLimit
            let gasTipCap ← shown gasTipCap
            let maxFees ← shown maxFees
            let nonce ← noncePairs settings tx buffers
            match nonce with
            | .error status => .ok (.error status)
            | .ok nonce => do
                let hash ← hashPairs settings mHash buffers
                .ok (.ok
                  ([⟨"From", fromAddress⟩, ⟨"Amount", amount⟩, ⟨"To", toAddress⟩,
                    ⟨"Chain ID", chainId⟩, ⟨"Gas limit", gasLimit⟩,
                    ⟨"Priority fee / gas", gasTipCap⟩, ⟨"Max fees", maxFees⟩] ++ nonce ++
                      hash))

/-! ## What is shown -/

def reviewPairs (shake256 : Xof) (settings : ReviewSettings)
    (address : Vector UInt8 addressSize) (mHash : List UInt8) (tx : ZondTx) : List Pair :=
  [⟨"From", checksummed shake256 address⟩,
    ⟨"Amount", ['Q', 'R', 'L', ' '] ++ fixedText 18 (bigEndian tx.value.bytes)⟩,
    ⟨"To", checksummed shake256 tx.toAddress⟩,
    ⟨"Chain ID", decimalText (bigEndian tx.chainId.bytes)⟩,
    ⟨"Gas limit", decimalText (bigEndian tx.gas.bytes)⟩,
    ⟨"Priority fee / gas", ['Q', 'R', 'L', ' '] ++ fixedText 18 (bigEndian tx.gasTipCap.bytes)⟩,
    ⟨"Max fees", ['Q', 'R', 'L', ' '] ++
      fixedText 18 (bigEndian tx.gasFeeCap.bytes * bigEndian tx.gas.bytes)⟩] ++
    (if settings.displayNonce then [⟨"Nonce", decimalText (bigEndian tx.nonce.bytes)⟩]
      else []) ++
    (if settings.displayTxHash then [⟨"Transaction hash", hexText mHash⟩] else [])

section Shown

variable {size length : ℕ}

theorem Field.length_bytes {size : ℕ} (field : Field size) : field.bytes.length = field.len := by
  rw [Field.bytes, List.length_take_of_le]
  rw [Vector.length_toList]
  exact field.fits

theorem shown_eq {buffer : Buffer size} {text : List Char}
    (begins : buffer.Begins (text ++ [nul])) (plain : nul ∉ text) :
    shown buffer = .ok text := by
  rw [shown, begins.string_eq plain]

theorem printQrl_eq {amount : Buffer length} {text : List Char}
    (begins : amount.Begins (text ++ [nul])) (plain : nul ∉ text) (out : Buffer size)
    (room : 4 + text.length + 1 ≤ size) :
    ∃ stored, printQrl amount out = .ok stored ∧
      stored.Begins (['Q', 'R', 'L', ' '] ++ text ++ [nul]) := by
  have whole : (['Q', 'R', 'L', ' '] ++ text).take (size - 1) = ['Q', 'R', 'L', ' '] ++ text := by
    apply List.take_of_length_le
    rw [List.length_append]
    simp only [List.length_cons, List.length_nil]
    omega
  obtain ⟨stored, done, result⟩ := storeText_zero out
    (show (['Q', 'R', 'L', ' '] ++ text ++ [nul]).length ≤ size by
      simp only [List.length_append, List.length_cons, List.length_nil]
      omega)
  refine ⟨stored, ?_, result⟩
  rw [printQrl, shown_eq begins plain, ok_bind, whole, done]

theorem nul_not_mem_hexText (bytes : List UInt8) : nul ∉ hexText bytes := by
  intro member
  obtain ⟨nibble, small, equal⟩ := hexDigits_hexText bytes nul member
  revert equal
  interval_cases nibble <;> decide

theorem length_placePoint_le {number digits : ℕ} (positive : 18 < digits)
    (bound : number < 10 ^ digits) :
    (placePoint 18 (decimalText number)).length ≤ digits + 1 := by
  have few := length_decimalText_le (show 0 < digits by omega) bound
  rw [length_placePoint]
  split
  · omega
  · omega

theorem formatQrlAmount_shown {bytes : List UInt8} (few : bytes.length ≤ maxIntegerBytes)
    (out : Buffer maxAmountLen) :
    ∃ stored, formatQrlAmount bytes out = .ok (true, stored) ∧
      stored.Begins (fixedText 18 (bigEndian bytes) ++ [nul]) ∧
      ∀ printed : Buffer (maxAmountLen + 5), ∃ line, printQrl stored printed = .ok line ∧
        shown line = .ok (['Q', 'R', 'L', ' '] ++ fixedText 18 (bigEndian bytes)) := by
  have power : 256 ^ bytes.length ≤ 256 ^ 40 := Nat.pow_le_pow_right (by norm_num) few
  have bound : bigEndian bytes < 10 ^ 97 :=
    (bigEndian_lt bytes).trans (power.trans_lt (by norm_num))
  have size := length_placePoint_le (by norm_num) bound
  obtain ⟨stored, done, begins⟩ := formatQrlAmount_eq few out
    (show _ ≤ maxAmountLen by rw [maxAmountLen]; omega)
  refine ⟨stored, done, begins, ?_⟩
  intro printed
  have shorter := (fixedText_start 18 (bigEndian bytes)).length_le
  obtain ⟨line, print, result⟩ := printQrl_eq begins (nul_not_mem_fixedText _ _) printed
    (by rw [maxAmountLen]; omega)
  refine ⟨line, print, shown_eq result ?_⟩
  intro member
  rcases List.mem_append.mp member with label | digits
  · exact absurd label (by decide)
  · exact nul_not_mem_fixedText _ _ digits

theorem uint8ArrayToDecimal_shown {limit digits : ℕ} (field : Field limit)
    (small : limit ≤ maxIntegerBytes) (positive : 0 < digits) (power : 256 ^ limit ≤ 10 ^ digits)
    (out : Buffer (digits + 1)) :
    ∃ stored, uint8ArrayToDecimal field.bytes out = .ok (true, stored) ∧
      shown stored = .ok (decimalText (bigEndian field.bytes)) := by
  have length := Field.length_bytes field
  have fits := field.fits
  have bound : bigEndian field.bytes < 10 ^ digits :=
    (bigEndian_lt _).trans_le
      ((Nat.pow_le_pow_right (by norm_num) (by omega)).trans power)
  have few := length_decimalText_le positive bound
  obtain ⟨stored, done, begins⟩ := uint8ArrayToDecimal_eq
    (show field.bytes.length ≤ maxIntegerBytes by omega) out (by omega)
  exact ⟨stored, done, shown_eq begins (nul_not_mem (digits_decimalText _))⟩

theorem formatChecksummedAddress_shown (shake256 : Xof) (address : Vector UInt8 addressSize) :
    ∃ stored, formatChecksummedAddress shake256 address (cleared (1 + addressSize * 2 + 1)) =
        .ok (true, stored) ∧
      shown stored = .ok (checksummed shake256 address) := by
  obtain ⟨stored, done, begins⟩ := formatChecksummedAddress_eq shake256 address
    (cleared (1 + addressSize * 2 + 1)) (by norm_num [addressSize])
  exact ⟨stored, done, shown_eq begins (nul_not_mem_checksummed _ _)⟩

theorem formatMaxFees_shown (tx : ZondTx) :
    ∃ fees, formatMaxFees tx = .ok (true, fees) ∧
      ∀ printed : Buffer (maxAmountLen + 5), ∃ line, printQrl fees printed = .ok line ∧
        shown line = .ok (['Q', 'R', 'L', ' '] ++
          fixedText 18 (bigEndian tx.gasFeeCap.bytes * bigEndian tx.gas.bytes)) := by
  have feeLength := Field.length_bytes tx.gasFeeCap
  have gasLength := Field.length_bytes tx.gas
  have feeFits : tx.gasFeeCap.len ≤ 32 := tx.gasFeeCap.fits
  have gasFits := tx.gas.fits
  have total : tx.gasFeeCap.bytes.length + tx.gas.bytes.length ≤ maxIntegerBytes := by
    rw [maxIntegerBytes]
    omega
  have whole : maxIntegerBytes ≤ (List.replicate maxIntegerBytes (0 : UInt8)).length := by
    rw [List.length_replicate]
  obtain ⟨product, multiplied, few, value⟩ := multiplyUint8Arrays_eq total
    (show 0 < (Product.mk (List.replicate maxIntegerBytes 0) maxIntegerBytes).outLen by
      norm_num [maxIntegerBytes]) total whole
  obtain ⟨fees, formatted, _, printed⟩ := formatQrlAmount_shown few (cleared maxAmountLen)
  rw [value] at printed
  refine ⟨fees, ?_, printed⟩
  rw [formatMaxFees, multiplied, ok_bind]
  exact formatted

theorem noncePairs_eq (settings : ReviewSettings) (tx : ZondTx) (buffers : ReviewBuffers) :
    noncePairs settings tx buffers =
      .ok (.ok (if settings.displayNonce then
        [⟨"Nonce", decimalText (bigEndian tx.nonce.bytes)⟩] else [])) := by
  rw [noncePairs]
  split
  · obtain ⟨stored, done, text⟩ := uint8ArrayToDecimal_shown tx.nonce
      (by norm_num [maxIntegerBytes]) (show 0 < 20 by norm_num) (by norm_num) buffers.nonce
    rw [done, ok_bind]
    simp only [if_true, text, ok_bind]
  · rfl

theorem hashPairs_eq (settings : ReviewSettings) {mHash : List UInt8}
    (digest : mHash.length = 32) (buffers : ReviewBuffers) :
    hashPairs settings mHash buffers =
      .ok (if settings.displayTxHash then [⟨"Transaction hash", hexText mHash⟩] else []) := by
  rw [hashPairs]
  split
  · obtain ⟨stored, done, begins⟩ := storeText_zero buffers.txHash
      (show (hexText mHash ++ [nul]).length ≤ 65 by
        rw [List.length_append, length_hexText, digest, List.length_singleton])
    rw [bytesToLowerHex, done, ok_bind, shown_eq begins (nul_not_mem_hexText _), ok_bind]
  · rfl

/-- Every transaction can be shown, whatever the buffers hold. -/
theorem formatReview_eq (shake256 : Xof) (settings : ReviewSettings)
    (address : Vector UInt8 addressSize) {mHash : List UInt8} (digest : mHash.length = 32)
    (tx : ZondTx) (buffers : ReviewBuffers) :
    formatReview shake256 settings address mHash tx buffers =
      .ok (.ok (reviewPairs shake256 settings address mHash tx)) := by
  have fits : ∀ {limit : ℕ} (field : Field limit), limit ≤ maxIntegerBytes →
      field.bytes.length ≤ maxIntegerBytes := by
    intro limit field small
    rw [Field.length_bytes]
    exact field.fits.trans small
  have small : maxFieldSize ≤ maxIntegerBytes := by norm_num [maxFieldSize, maxIntegerBytes]
  have power : 256 ^ maxFieldSize ≤ 10 ^ maxDecimalDigits := by
    norm_num [maxFieldSize, maxDecimalDigits]
  obtain ⟨fromAddress, doneFrom, shownFrom⟩ := formatChecksummedAddress_shown shake256 address
  obtain ⟨value, doneValue, _, printValue⟩ :=
    formatQrlAmount_shown (fits tx.value small) (cleared maxAmountLen)
  obtain ⟨amount, doneAmount, shownAmount⟩ := printValue (cleared (maxAmountLen + 5))
  obtain ⟨toAddress, doneTo, shownTo⟩ := formatChecksummedAddress_shown shake256 tx.toAddress
  obtain ⟨fees, doneFees, printFees⟩ := formatMaxFees_shown tx
  obtain ⟨maxFees, doneMaxFees, shownFees⟩ := printFees (cleared (maxAmountLen + 5))
  obtain ⟨chainId, doneChainId, shownChainId⟩ := uint8ArrayToDecimal_shown tx.chainId small
    (by norm_num [maxDecimalDigits]) power buffers.chainId
  obtain ⟨gasLimit, doneGas, shownGas⟩ := uint8ArrayToDecimal_shown tx.gas
    (by norm_num [maxIntegerBytes]) (show 0 < 20 by norm_num) (by norm_num) buffers.gasLimit
  obtain ⟨tip, doneTip, _, printTip⟩ :=
    formatQrlAmount_shown (fits tx.gasTipCap small) value
  obtain ⟨gasTipCap, doneGasTipCap, shownTip⟩ := printTip buffers.gasTipCap
  rw [formatReview]
  simp only [doneFrom, doneValue, doneAmount, doneTo, doneFees, doneMaxFees, doneChainId,
    doneGas, doneTip, doneGasTipCap, shownFrom, shownAmount, shownTo, shownChainId, shownGas,
    shownTip, shownFees, noncePairs_eq, hashPairs_eq settings digest, ok_bind, Bool.not_true,
    Bool.or_false]
  rfl

end Shown

end LedgerQrl.Display
