import LedgerQrl.Foundation.CInt
import LedgerQrl.Foundation.Index
import Mathlib.Data.List.FinRange
import Mathlib.Data.Vector.Basic

namespace LedgerQrl.Transaction

open Foundation

/-! # The transaction decoder

`rlp_decode.c`. The width of `size_t` is a parameter; a pointer into the input
is an offset. -/

/-- What ends a call: `return -1`, an access outside of a buffer, or a `size_t`
subtraction below zero. -/
inductive Fault where
  | reject
  | outOfBounds
  | underflow
deriving DecidableEq, Repr

abbrev Checked := Except Fault

/-- `rlp[index]`. -/
def readByte (rlp : List UInt8) (index : ℕ) : Checked ℕ :=
  match rlp[index]? with
  | some byte => .ok byte.toNat
  | none => .error .outOfBounds

/-- The bytes from `start` on that `memcpy` reads. -/
def readBytes (rlp : List UInt8) (start count : ℕ) : Checked (List UInt8) :=
  if start + count ≤ rlp.length then .ok ((rlp.drop start).take count)
  else .error .outOfBounds

def sizeSub (left right : ℕ) : Checked ℕ :=
  if right ≤ left then .ok (left - right) else .error .underflow

/-- `return -1` on a condition. -/
def rejectIf (condition : Prop) [Decidable condition] : Checked Unit :=
  if condition then .error .reject else .ok ()

/-! ## Destination fields -/

/-- A buffer and its length byte, such as `chain_id` and `chain_id_len`. -/
structure Field (size : ℕ) where
  buffer : Vector UInt8 size
  len : ℕ
  fits : len ≤ size

namespace Field

variable {size : ℕ}

def bytes (field : Field size) : List UInt8 := field.buffer.toList.take field.len

def zero : Field size where
  buffer := Vector.replicate size 0
  len := 0
  fits := Nat.zero_le size

def clear (field : Field size) : Field size :=
  { field with buffer := Vector.replicate size 0 }

def copy (field : Field size) (bytes : List UInt8) : Checked (Field size) :=
  if fits : bytes.length ≤ size then
    .ok
      { buffer := Vector.ofFn fun i => (bytes[i.val]?).getD field.buffer[i]
        len := bytes.length
        fits := fits }
  else .error .outOfBounds

end Field

def maxFieldSize : ℕ := 32

def addressLength : ℕ := 64

/-- `zond_tx_t`. -/
structure ZondTx where
  chainId : Field maxFieldSize
  nonce : Field 8
  gasTipCap : Field maxFieldSize
  gasFeeCap : Field maxFieldSize
  gas : Field 8
  toAddress : Vector UInt8 addressLength
  value : Field maxFieldSize
  hasData : Bool
  hasAccessList : Bool
  descriptor : Field 3

def ZondTx.zero : ZondTx where
  chainId := .zero
  nonce := .zero
  gasTipCap := .zero
  gasFeeCap := .zero
  gas := .zero
  toAddress := Vector.replicate addressLength 0
  value := .zero
  hasData := false
  hasAccessList := false
  descriptor := .zero

/-! ## Headers -/

/-- `len = (len << 8) | input[1 + i]` for `count` bytes, in a `size_t` of `width`
bits. -/
def readLength (width : ℕ) (rlp : List UInt8) (start : ℕ) : (count : ℕ) → Checked ℕ
  | 0 => .ok 0
  | count + 1 => do
      let len ← readLength width rlp start count
      let byte ← readByte rlp (start + count)
      pure ((len <<< 8 % 2 ^ width) ||| byte)

/-- The values that `parse_rlp_item` stores, and the `int` it returns. -/
structure RlpItem where
  outData : ℕ
  outLen : ℕ
  consumed : Int

/-- A length of `lenOfLen` bytes and what it counts. -/
def parseLongForm (width : ℕ) (rlp : List UInt8) (input inputLen lenOfLen : ℕ) :
    Checked RlpItem := do
  let room ← sizeSub inputLen 1
  rejectIf (lenOfLen > room)
  let first ← readByte rlp (input + 1)
  rejectIf (first = 0)
  let len ← readLength width rlp (input + 1) lenOfLen
  let room ← sizeSub room lenOfLen
  rejectIf (len > room)
  rejectIf (len < 56)
  pure
    { outData := input + 1 + lenOfLen
      outLen := len
      consumed := i32 (1 + lenOfLen + len : ℕ) }

def parseRlpItem (width : ℕ) (rlp : List UInt8) (input inputLen : ℕ) :
    Checked RlpItem := do
  rejectIf (inputLen = 0)
  let first ← readByte rlp input
  if first ≤ 0x7f then
    pure { outData := input, outLen := 1, consumed := 1 }
  else if first ≤ 0xb7 then do
    let len := first - 0x80
    let room ← sizeSub inputLen 1
    rejectIf (len > room)
    if len = 1 then do
      let single ← readByte rlp (input + 1)
      rejectIf (single < 0x80)
    pure { outData := input + 1, outLen := len, consumed := i32 (1 + len : ℕ) }
  else if first ≤ 0xbf then
    parseLongForm width rlp input inputLen (first - 0xb7)
  else if first ≤ 0xf7 then do
    let len := first - 0xc0
    rejectIf (1 + len > inputLen)
    pure { outData := input + 1, outLen := len, consumed := i32 (1 + len : ℕ) }
  else
    parseLongForm width rlp input inputLen (first - 0xf7)

structure RlpListHeader where
  payloadLen : ℕ
  headerLen : ℕ

def parseRlpListHeader (width : ℕ) (rlp : List UInt8) (input inputLen : ℕ) :
    Checked RlpListHeader := do
  rejectIf (inputLen = 0)
  let first ← readByte rlp input
  if 0xc0 ≤ first ∧ first ≤ 0xf7 then do
    let room ← sizeSub inputLen 1
    rejectIf (first - 0xc0 > room)
    pure { payloadLen := first - 0xc0, headerLen := 1 }
  else if 0xf8 ≤ first then do
    let lenOfLen := first - 0xf7
    let room ← sizeSub inputLen 1
    rejectIf (lenOfLen > room)
    let leading ← readByte rlp (input + 1)
    rejectIf (leading = 0)
    let len ← readLength width rlp (input + 1) lenOfLen
    let room ← sizeSub inputLen (1 + lenOfLen)
    rejectIf (len > room)
    rejectIf (len < 56)
    pure { payloadLen := len, headerLen := 1 + lenOfLen }
  else .error .reject

/-! ## The eleven items -/

/-- `p` and `remaining`. -/
structure Cursor where
  p : ℕ
  remaining : ℕ

/-- `p += consumed; remaining -= consumed`. -/
def Cursor.advance (cursor : Cursor) (item : RlpItem) : Checked Cursor := do
  let remaining ← sizeSub cursor.remaining item.consumed.toNat
  pure { p := cursor.p + item.consumed.toNat, remaining := remaining }

/-- An item whose `consumed` is not negative, and its value. -/
def parseField (width : ℕ) (rlp : List UInt8) (cursor : Cursor) :
    Checked RlpItem := do
  let item ← parseRlpItem width rlp cursor.p cursor.remaining
  rejectIf (item.consumed < 0)
  pure item

/-- `val_len > 0 && val_ptr[0] == 0`. -/
def rejectLeadingZero (rlp : List UInt8) (item : RlpItem) : Checked Unit :=
  if item.outLen > 0 then do
    let leading ← readByte rlp item.outData
    rejectIf (leading = 0)
  else pure ()

/-- Items 1 to 5 and 7: an integer of at most `limit` bytes without leading
zero. -/
def parseInteger (width : ℕ) (rlp : List UInt8) (cursor : Cursor) (limit : ℕ)
    {size : ℕ} (field : Field size) : Checked (Field size × Cursor) := do
  let item ← parseField width rlp cursor
  rejectIf (item.outLen > limit)
  rejectLeadingZero rlp item
  let bytes ← readBytes rlp item.outData item.outLen
  let field ← field.copy bytes
  let cursor ← cursor.advance item
  pure (field, cursor)

def parseTo (width : ℕ) (rlp : List UInt8) (cursor : Cursor) :
    Checked (Vector UInt8 addressLength × Cursor) := do
  let item ← parseField width rlp cursor
  rejectIf (item.outLen ≠ addressLength ∧ item.outLen ≠ 0)
  let bytes ← readBytes rlp item.outData item.outLen
  let cursor ← cursor.advance item
  pure (Vector.ofFn fun i => (bytes[i.val]?).getD 0, cursor)

/-- Item 8; the result is `has_data`. -/
def parseData (width : ℕ) (rlp : List UInt8) (cursor : Cursor) :
    Checked (Bool × Cursor) := do
  rejectIf (cursor.remaining = 0)
  let first ← readByte rlp cursor.p
  rejectIf (first ≥ 0xc0)
  let item ← parseField width rlp cursor
  let cursor ← cursor.advance item
  pure (item.outLen != 0, cursor)

/-- Item 9; the result is `has_access_list`. -/
def parseAccessList (width : ℕ) (rlp : List UInt8) (cursor : Cursor) :
    Checked (Bool × Cursor) := do
  rejectIf (cursor.remaining = 0)
  let first ← readByte rlp cursor.p
  rejectIf (first < 0xc0)
  let item ← parseField width rlp cursor
  let cursor ← cursor.advance item
  pure (item.outLen != 0, cursor)

def parseDescriptor (width : ℕ) (rlp : List UInt8) (cursor : Cursor)
    (field : Field 3) : Checked (Field 3 × Cursor) := do
  let item ← parseField width rlp cursor
  rejectIf (item.outLen ≠ 3)
  let walletType ← readByte rlp item.outData
  rejectIf (walletType ≠ 1)
  let second ← readByte rlp (item.outData + 1)
  rejectIf (second ≠ 0)
  let third ← readByte rlp (item.outData + 2)
  rejectIf (third ≠ 0)
  let bytes ← readBytes rlp item.outData item.outLen
  let field ← field.copy bytes
  let cursor ← cursor.advance item
  pure (field, cursor)

/-- Item 11; the result is `p` after it. -/
def parseExtraParams (width : ℕ) (rlp : List UInt8) (cursor : Cursor) :
    Checked ℕ := do
  let item ← parseField width rlp cursor
  rejectIf (item.outLen ≠ 0)
  pure (cursor.p + item.consumed.toNat)

/-- The list header after the type byte: the first item and `payload_end`. -/
def parseListStart (width : ℕ) (rlp : List UInt8) : Checked (Cursor × ℕ) := do
  let remaining ← sizeSub rlp.length 1
  let header ← parseRlpListHeader width rlp 1 remaining
  let payloadStart := 1 + header.headerLen
  let payloadEnd := payloadStart + header.payloadLen
  let remaining ← sizeSub remaining header.headerLen
  rejectIf (header.payloadLen > remaining)
  pure ({ p := payloadStart, remaining := remaining }, payloadEnd)

/-- `decode_ledger_tx` over the content `tx` of the destination. -/
def decodeLedgerTx (width : ℕ) (rlp : List UInt8) (tx : ZondTx) : Checked ZondTx := do
  rejectIf (rlp.length = 0)
  let type ← readByte rlp 0
  rejectIf (type ≠ 0x02)
  let (cursor, payloadEnd) ← parseListStart width rlp
  let (chainId, cursor) ← parseInteger width rlp cursor maxFieldSize tx.chainId
  let (nonce, cursor) ← parseInteger width rlp cursor 8 tx.nonce
  let (gasTipCap, cursor) ← parseInteger width rlp cursor maxFieldSize tx.gasTipCap
  let (gasFeeCap, cursor) ← parseInteger width rlp cursor maxFieldSize tx.gasFeeCap
  let (gas, cursor) ← parseInteger width rlp cursor 8 tx.gas
  let (toAddress, cursor) ← parseTo width rlp cursor
  let (value, cursor) ← parseInteger width rlp cursor maxFieldSize tx.value.clear
  let (hasData, cursor) ← parseData width rlp cursor
  let (hasAccessList, cursor) ← parseAccessList width rlp cursor
  let (descriptor, cursor) ← parseDescriptor width rlp cursor tx.descriptor
  let p ← parseExtraParams width rlp cursor
  rejectIf (p ≠ payloadEnd)
  pure
    { chainId := chainId
      nonce := nonce
      gasTipCap := gasTipCap
      gasFeeCap := gasFeeCap
      gas := gas
      toAddress := toAddress
      value := value
      hasData := hasData
      hasAccessList := hasAccessList
      descriptor := descriptor }

end LedgerQrl.Transaction
