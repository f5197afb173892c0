import LedgerQrl.Transaction.RlpGrammar

namespace LedgerQrl.Transaction

open Foundation Rlp

/-! # The decoder stays inside of its buffers

An access outside of the input or of a destination, and a subtraction below
zero, are faults of their own in the model; a call that ends early ends by
`return -1`. -/

/-- The cursors in front of and between the fields, whatever fields are parsed. -/
inductive Between (width : ℕ) (rlp : List UInt8) : Cursor → Prop
  | start {cursor payloadEnd} :
      0 < rlp.length →
      parseListStart width rlp = .ok (cursor, payloadEnd) →
      Between width rlp cursor
  | integer {cursor next limit size} {field result : Field size} :
      Between width rlp cursor →
      limit ≤ size →
      parseInteger width rlp cursor limit field = .ok (result, next) →
      Between width rlp next
  | recipient {cursor next address} :
      Between width rlp cursor →
      parseTo width rlp cursor = .ok (address, next) →
      Between width rlp next
  | data {cursor next hasData} :
      Between width rlp cursor →
      parseData width rlp cursor = .ok (hasData, next) →
      Between width rlp next
  | accessList {cursor next hasAccessList} :
      Between width rlp cursor →
      parseAccessList width rlp cursor = .ok (hasAccessList, next) →
      Between width rlp next
  | descriptor {cursor next field result} :
      Between width rlp cursor →
      parseDescriptor width rlp cursor field = .ok (result, next) →
      Between width rlp next

/-- No fault, whole positions and whole items, for words of `width` bits. -/
structure ParsesSafely (width : ℕ) (rlp : List UInt8) (tx : ZondTx) : Prop where
  decode : OnlyFails .reject (decodeLedgerTx width rlp tx)
  item : ∀ input inputLen, input + inputLen = rlp.length →
    OnlyFails .reject (parseRlpItem width rlp input inputLen)
  header : ∀ input inputLen, input + inputLen = rlp.length →
    OnlyFails .reject (parseRlpListHeader width rlp input inputLen)
  consumed : ∀ input inputLen item, input + inputLen = rlp.length →
    parseRlpItem width rlp input inputLen = .ok item →
      0 < item.consumed ∧ item.consumed ≤ inputLen ∧
        input ≤ item.outData ∧
        (item.outData + item.outLen : ℕ) = (input : ℤ) + item.consumed
  list : ∀ input inputLen list, input + inputLen = rlp.length →
    parseRlpListHeader width rlp input inputLen = .ok list →
      0 < list.headerLen ∧ list.headerLen + list.payloadLen ≤ inputLen
  position : ∀ cursor, Between width rlp cursor → cursor.p + cursor.remaining = rlp.length
  address : ∀ cursor result, Between width rlp cursor →
    parseTo width rlp cursor = .ok result →
      ∃ item, parseField width rlp cursor = .ok item ∧ item.outLen ≤ addressLength

section Safety

variable {width : ℕ} (octets : 8 ≤ width) {rlp : List UInt8}
  (bound : rlp.length < 2147483648)

include octets bound

theorem Between.counts {cursor : Cursor} (between : Between width rlp cursor) :
    cursor.Counts rlp := by
  induction between with
  | start present started => exact counts_of_listStart octets bound present started
  | integer _ fits parsed induction =>
      exact counts_of_item (decides_parseInteger octets bound induction fits _) parsed
  | recipient _ parsed induction =>
      exact counts_of_item (decides_parseTo octets bound induction) parsed
  | data _ parsed induction =>
      exact counts_of_item (decides_parseData octets bound induction) parsed
  | accessList _ parsed induction =>
      exact counts_of_item (decides_parseAccessList octets bound induction) parsed
  | descriptor _ parsed induction =>
      exact counts_of_item (decides_parseDescriptor octets bound induction _) parsed

theorem consumed_of_parseRlpItem {input inputLen : ℕ} {item : RlpItem}
    (counted : input + inputLen = rlp.length)
    (parsed : parseRlpItem width rlp input inputLen = .ok item) :
    0 < item.consumed ∧ item.consumed ≤ inputLen ∧ input ≤ item.outData ∧
      (item.outData + item.outLen : ℕ) = (input : ℤ) + item.consumed := by
  obtain ⟨piece, rest, start, reads, rfl⟩ :=
    ((decides_parseRlpItem octets counted bound).ok_iff item).mp parsed
  have nonempty : 0 < piece.bytes.length := List.length_pos_iff.mpr (Form.nonempty reads)
  have length := congrArg List.length start
  rw [List.length_drop, List.length_append] at length
  rw [Piece.length_bytes] at length nonempty
  simp only [Piece.parsed]
  omega

theorem length_of_parseRlpListHeader {input inputLen : ℕ} {list : RlpListHeader}
    (counted : input + inputLen = rlp.length)
    (parsed : parseRlpListHeader width rlp input inputLen = .ok list) :
    0 < list.headerLen ∧ list.headerLen + list.payloadLen ≤ inputLen := by
  obtain ⟨header, payload, rest, start, form, rfl⟩ :=
    ((decides_parseRlpListHeader octets counted bound).ok_iff list).mp parsed
  have nonempty : 0 < header.length := List.length_pos_iff.mpr form.list_header
  have length := congrArg List.length start
  rw [List.length_drop, List.length_append, List.length_append] at length
  simp only
  omega

theorem length_of_parseTo {cursor : Cursor} (counts : cursor.Counts rlp)
    {result : Vector UInt8 addressLength × Cursor}
    (parsed : parseTo width rlp cursor = .ok result) :
    ∃ item, parseField width rlp cursor = .ok item ∧ item.outLen ≤ addressLength := by
  obtain ⟨piece, step, length, _⟩ :=
    ((decides_parseTo octets bound counts).ok_iff result).mp parsed
  refine ⟨piece.parsed cursor.p, ?_, ?_⟩
  · exact ((decides_parseField octets bound counts).ok_iff _).mpr ⟨piece, _, step, rfl⟩
  · rcases length with whole | none
    · exact whole.le
    · rw [Piece.parsed, none]
      exact Nat.zero_le _

theorem parsesSafely (tx : ZondTx) : ParsesSafely width rlp tx :=
  { decode := decodeLedgerTx_onlyFails octets bound tx
    item := fun _ _ counted => (decides_parseRlpItem octets counted bound).onlyFails
    header := fun _ _ counted => (decides_parseRlpListHeader octets counted bound).onlyFails
    consumed := fun _ _ _ counted parsed =>
      consumed_of_parseRlpItem octets bound counted parsed
    list := fun _ _ _ counted parsed =>
      length_of_parseRlpListHeader octets bound counted parsed
    position := fun _ between => between.counts octets bound
    address := fun _ _ between parsed =>
      length_of_parseTo octets bound (between.counts octets bound) parsed }

end Safety

/-- Words of 32 and of 64 bits decode without leaving the buffers. -/
theorem parser_safe (rlp : List UInt8) (tx : ZondTx) (bound : rlp.length < 2 ^ 31) :
    ParsesSafely 32 rlp tx ∧ ParsesSafely 64 rlp tx :=
  ⟨parsesSafely (by norm_num) bound tx, parsesSafely (by norm_num) bound tx⟩

/-- A length of eight bytes that is larger than any buffer. -/
theorem parser_safe_overflow :
    let rlp : List UInt8 := [2, 0xff, 0xff, 0xff, 0xff, 0xff, 0xff, 0xff, 0xff, 0xff]
    ParsesSafely 32 rlp .zero ∧ ParsesSafely 64 rlp .zero :=
  parser_safe _ _ (by decide)

end LedgerQrl.Transaction
