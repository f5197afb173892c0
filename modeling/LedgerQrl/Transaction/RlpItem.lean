import LedgerQrl.Foundation.Decision
import LedgerQrl.Foundation.Rlp
import LedgerQrl.Transaction.RlpDecode

namespace LedgerQrl.Transaction

open Foundation Rlp

/-! # The two header parsers

Both find exactly the items that a reader with words of the width of `size_t`
finds, and reject everything else. -/

/-! ## Reading -/

theorem readByte_of_drop {rlp tail : List UInt8} {p : ℕ} {first : UInt8}
    (start : rlp.drop p = first :: tail) : readByte rlp p = .ok first.toNat := by
  have found : rlp[p]? = some first := by
    rw [← List.head?_drop, start, List.head?_cons]
  rw [readByte, found]

theorem readBytes_of_drop {rlp bytes rest : List UInt8} {p : ℕ}
    (start : rlp.drop p = bytes ++ rest) (within : p ≤ rlp.length) :
    readBytes rlp p bytes.length = .ok bytes := by
  have lengths := congrArg List.length start
  rw [List.length_drop, List.length_append] at lengths
  rw [readBytes, if_pos (by omega), start, List.take_left]

@[simp] theorem rejectIf_true {condition : Prop} [Decidable condition] (holds : condition) :
    rejectIf condition = .error .reject := if_pos holds

@[simp] theorem rejectIf_false {condition : Prop} [Decidable condition]
    (fails : ¬ condition) : rejectIf condition = .ok () := if_neg fails

theorem rejectIf_eq_ok {condition : Prop} [Decidable condition] {done : Unit} :
    rejectIf condition = .ok done ↔ ¬ condition := by
  by_cases holds : condition
  · simp [holds]
  · simp [holds]

theorem sizeSub_of_le {left right : ℕ} (le : right ≤ left) :
    sizeSub left right = .ok (left - right) := if_pos le

theorem shift_or_byte {width value byte : ℕ} (octets : 8 ≤ width) (small : byte < 256) :
    ((value % 2 ^ width) <<< 8 % 2 ^ width) ||| byte = (value * 256 + byte) % 2 ^ width := by
  have split : 2 ^ width = 2 ^ (width - 8) * 256 := by
    rw [show 256 = 2 ^ 8 from rfl, ← pow_add, Nat.sub_add_cancel octets]
  have bound : value % 2 ^ (width - 8) < 2 ^ (width - 8) :=
    Nat.mod_lt _ (Nat.two_pow_pos _)
  have shifted : (value % 2 ^ width) <<< 8 % 2 ^ width =
      2 ^ 8 * (value % 2 ^ (width - 8)) := by
    rw [Nat.shiftLeft_eq, split, Nat.mul_mod_mul_right, Nat.mul_comm (2 ^ 8),
      Nat.mod_mul_right_mod]
  rw [shifted, ← Nat.two_pow_add_eq_or_of_lt (show byte < 2 ^ 8 from small), split]
  have divided := Nat.div_add_mod value (2 ^ (width - 8))
  generalize 2 ^ (width - 8) = size at bound divided ⊢
  generalize value / size = quotient at divided
  generalize value % size = low at bound divided ⊢
  have parts : value * 256 + byte = 256 * low + byte + size * 256 * quotient := by
    rw [← divided]
    ring
  rw [parts, Nat.add_mul_mod_self_left, Nat.mod_eq_of_lt (by omega)]

/-- The accumulated length is exact modulo the word size. -/
theorem readLength_eq {width : ℕ} (octets : 8 ≤ width) {rlp bytes : List UInt8} {p : ℕ}
    (start : rlp.drop p = bytes) : ∀ count ≤ bytes.length,
      readLength width rlp p count = .ok (bigEndian (bytes.take count) % 2 ^ width) := by
  intro count
  induction count with
  | zero =>
      intro _
      rw [readLength, List.take_zero, bigEndian_nil, Nat.zero_mod]
  | succ count induction =>
      intro within
      have byte : readByte rlp (p + count) = .ok (bytes[count]).toNat := by
        apply readByte_of_drop
        rw [← List.drop_drop, start, List.drop_eq_getElem_cons]
      rw [readLength, induction (by omega), ok_bind, byte, ok_bind,
        shift_or_byte octets (bytes[count]).toNat_lt, List.take_add_one,
        List.getElem?_eq_getElem (by omega), Option.toList_some, bigEndian_concat]
      rfl

/-! ## Items -/

/-- An item of the input. -/
structure Piece where
  kind : Kind
  header : List UInt8
  payload : List UInt8

namespace Piece

def bytes (piece : Piece) : List UInt8 := piece.header ++ piece.payload

/-- The parser reads the bytes as this item. -/
def Reads (width : ℕ) (piece : Piece) : Prop :=
  Form width piece.kind piece.header piece.payload

def parsed (piece : Piece) (p : ℕ) : RlpItem where
  outData := p + piece.header.length
  outLen := piece.payload.length
  consumed := (piece.header.length + piece.payload.length : ℕ)

@[simp] theorem length_bytes (piece : Piece) :
    piece.bytes.length = piece.header.length + piece.payload.length :=
  List.length_append

end Piece

section Parsers

variable {width : ℕ} (octets : 8 ≤ width) {rlp : List UInt8} {p inputLen : ℕ}
  {first : UInt8} {tail : List UInt8}

include octets

theorem parseLongForm_eq (start : rlp.drop p = first :: tail)
    (counted : inputLen = tail.length + 1) (bound : inputLen < 2147483648)
    {lenOfLen : ℕ} (positive : 0 < lenOfLen) (kind : Kind) :
    parseLongForm width rlp p inputLen lenOfLen =
      match scanLong width kind lenOfLen tail with
      | some (_, headerLen, payloadLen) =>
          .ok ⟨p + headerLen, payloadLen, (headerLen + payloadLen : ℕ)⟩
      | none => .error .reject := by
  have after : rlp.drop (p + 1) = tail := by
    rw [← List.drop_drop, start, List.drop_one, List.tail_cons]
  rw [parseLongForm, scanLong, sizeSub_of_le (by omega), ok_bind]
  by_cases enough : lenOfLen ≤ tail.length
  · rw [rejectIf_false (by omega), ok_bind]
    cases tail with
    | nil => simp at enough; omega
    | cons leading rest =>
        rw [readByte_of_drop after, ok_bind, List.head?_cons]
        by_cases zero : leading = 0
        · rw [rejectIf_true (by rw [zero]; rfl), error_bind,
            if_neg (fun valid => valid.2.1 (by rw [zero]))]
        · have nonzero : ¬ leading.toNat = 0 := fun none => zero (UInt8.toNat_inj.mp none)
          rw [rejectIf_false nonzero, ok_bind, readLength_eq octets after _ enough, ok_bind,
            sizeSub_of_le (by omega), ok_bind]
          generalize bigEndian ((leading :: rest).take lenOfLen) % 2 ^ width = len
          by_cases room : len ≤ (leading :: rest).length - lenOfLen
          · rw [rejectIf_false (by omega), ok_bind]
            by_cases large : 56 ≤ len
            · have valid := And.intro enough (And.intro (show some leading ≠ some 0 by
                simpa using zero) (And.intro room large))
              have small : InInt32 ((1 + lenOfLen + len : ℕ) : ℤ) := by
                unfold InInt32
                rw [List.length_cons] at *
                omega
              rw [rejectIf_false (by omega), ok_bind, if_pos valid, i32_of_inInt32 small,
                Nat.add_assoc p]
              rfl
            · rw [rejectIf_true (by omega), error_bind, if_neg (fun valid => large valid.2.2.2)]
          · rw [rejectIf_true (by omega), error_bind, if_neg (fun valid => room valid.2.2.1)]
  · rw [rejectIf_true (by omega), error_bind, if_neg (fun valid => enough valid.1)]

/-- `parse_rlp_item` finds what the reader finds. -/
theorem parseRlpItem_eq (counted : p + inputLen = rlp.length)
    (bound : rlp.length < 2147483648) :
    parseRlpItem width rlp p inputLen =
      match scan width (rlp.drop p) with
      | some (_, headerLen, payloadLen) =>
          .ok ⟨p + headerLen, payloadLen, (headerLen + payloadLen : ℕ)⟩
      | none => .error .reject := by
  cases start : rlp.drop p with
  | nil =>
      have length := congrArg List.length start
      rw [List.length_drop, List.length_nil] at length
      rw [parseRlpItem, rejectIf_true (by omega), error_bind, scan]
  | cons first tail =>
      have length := congrArg List.length start
      rw [List.length_drop, List.length_cons] at length
      have remaining : inputLen = tail.length + 1 := by omega
      have after : rlp.drop (p + 1) = tail := by
        rw [← List.drop_drop, start, List.drop_one, List.tail_cons]
      rw [parseRlpItem, rejectIf_false (by omega), ok_bind, readByte_of_drop start, ok_bind,
        scan]
      split
      · rfl
      · split
        · -- a short string
          dsimp only
          generalize counted : first.toNat - 0x80 = len
          rw [sizeSub_of_le (by omega), ok_bind, scanShort]
          by_cases room : len ≤ tail.length
          · rw [rejectIf_false (by omega), ok_bind]
            have small : InInt32 ((1 + len : ℕ) : ℤ) := by
              unfold InInt32
              omega
            by_cases one : len = 1
            · cases tail with
              | nil => exact absurd room (by simp [one])
              | cons single rest =>
                  have taken : (single :: rest).take len = [single] := by
                    rw [one]
                    rfl
                  rw [if_pos one, readByte_of_drop after, ok_bind, taken]
                  by_cases low : single.toNat < 0x80
                  · rw [rejectIf_true low, error_bind,
                      if_neg (fun valid => valid.2 ⟨rfl, single, rfl, low⟩)]
                  · have plain : ¬ Kind.string.Single [single] := by
                      rintro ⟨_, byte, equal, small⟩
                      rw [(List.cons.inj equal).1] at low
                      exact low small
                    rw [rejectIf_false low, ok_bind, if_pos ⟨room, plain⟩,
                      i32_of_inInt32 small]
                    rfl
            · have plain : ¬ Kind.string.Single (tail.take len) := by
                rintro ⟨_, byte, equal, _⟩
                have taken := congrArg List.length equal
                rw [List.length_take_of_le room, List.length_singleton] at taken
                exact one taken
              rw [if_neg one, if_pos ⟨room, plain⟩, i32_of_inInt32 small]
              rfl
          · rw [rejectIf_true (by omega), error_bind, if_neg (fun valid => room valid.1)]
        · split
          · have positive : 0 < first.toNat - 0xb7 := by omega
            generalize first.toNat - 0xb7 = lenOfLen at positive ⊢
            exact parseLongForm_eq octets start remaining (by omega) positive .string
          · split
            · -- a short list
              dsimp only
              generalize counted : first.toNat - 0xc0 = len
              rw [scanShort]
              by_cases room : len ≤ tail.length
              · have small : InInt32 ((1 + len : ℕ) : ℤ) := by
                  unfold InInt32
                  omega
                rw [rejectIf_false (by omega), ok_bind, if_pos ⟨room, fun single =>
                  absurd single.1 (by simp)⟩, i32_of_inInt32 small]
                rfl
              · rw [rejectIf_true (by omega), error_bind, if_neg (fun valid => room valid.1)]
            · have positive : 0 < first.toNat - 0xf7 := by omega
              generalize first.toNat - 0xf7 = lenOfLen at positive ⊢
              exact parseLongForm_eq octets start remaining (by omega) positive .list

theorem decides_parseRlpItem (counted : p + inputLen = rlp.length)
    (bound : rlp.length < 2147483648) :
    Decides .reject (parseRlpItem width rlp p inputLen)
      (fun item => ∃ piece rest, rlp.drop p = Piece.bytes piece ++ rest ∧
        piece.Reads width ∧ item = piece.parsed p) := by
  rw [parseRlpItem_eq octets counted bound]
  cases found : scan width (rlp.drop p) with
  | none =>
      refine ⟨rfl, ?_⟩
      rintro item ⟨piece, rest, start, form, _⟩
      rw [start, Piece.bytes, List.append_assoc, form.scan_eq] at found
      exact absurd found (by simp)
  | some result =>
      obtain ⟨kind, headerLen, payloadLen⟩ := result
      intro item
      constructor
      · rintro ⟨piece, rest, start, form, rfl⟩
        rw [start, Piece.bytes, List.append_assoc, form.scan_eq, Option.some.injEq,
          Prod.mk.injEq, Prod.mk.injEq] at found
        rw [Piece.parsed, found.2.1, found.2.2]
      · rintro rfl
        obtain ⟨header, payload, rest, start, form, rfl, rfl⟩ := form_of_scan found
        exact ⟨⟨kind, header, payload⟩, rest, by rw [start, Piece.bytes, List.append_assoc],
          form, rfl⟩

omit octets in
/-- The long form is parsed by the same steps in both functions. -/
theorem parseRlpListHeader_long (start : rlp.drop p = first :: tail)
    (counted : inputLen = tail.length + 1) (long : 0xf8 ≤ first.toNat) :
    parseRlpListHeader width rlp p inputLen =
      parseLongForm width rlp p inputLen (first.toNat - 0xf7) >>= fun item =>
        .ok ⟨item.outLen, 1 + (first.toNat - 0xf7)⟩ := by
  rw [parseRlpListHeader, rejectIf_false (by omega), ok_bind, readByte_of_drop start,
    ok_bind, if_neg (by omega), if_pos long, parseLongForm]
  dsimp only
  generalize first.toNat - 0xf7 = lenOfLen
  rw [sizeSub_of_le (by omega)]
  by_cases enough : lenOfLen > inputLen - 1
  · simp only [ok_bind, rejectIf_true enough, error_bind]
  · have rooms : sizeSub inputLen (1 + lenOfLen) = sizeSub (inputLen - 1) lenOfLen := by
      rw [sizeSub_of_le (by omega), sizeSub_of_le (by omega), Nat.sub_sub]
    rw [rooms]
    simp only [ok_bind, rejectIf_false enough, bind_assoc]
    rfl

/-- `parse_rlp_list_header` finds the lists that the reader finds. -/
theorem parseRlpListHeader_eq (counted : p + inputLen = rlp.length)
    (bound : rlp.length < 2147483648) :
    parseRlpListHeader width rlp p inputLen =
      match scan width (rlp.drop p) with
      | some (.list, headerLen, payloadLen) => .ok ⟨payloadLen, headerLen⟩
      | _ => .error .reject := by
  cases start : rlp.drop p with
  | nil =>
      have length := congrArg List.length start
      rw [List.length_drop, List.length_nil] at length
      rw [parseRlpListHeader, rejectIf_true (by omega), error_bind, scan]
  | cons first tail =>
      have length := congrArg List.length start
      rw [List.length_drop, List.length_cons] at length
      have remaining : inputLen = tail.length + 1 := by omega
      by_cases long : 0xf8 ≤ first.toNat
      · have positive : 0 < first.toNat - 0xf7 := by omega
        rw [parseRlpListHeader_long start remaining long,
          parseLongForm_eq octets start remaining (by omega) positive .list, scan,
          if_neg (by omega), if_neg (by omega), if_neg (by omega), if_neg (by omega)]
        generalize first.toNat - 0xf7 = lenOfLen
        cases found : scanLong width .list lenOfLen tail with
        | none => rfl
        | some result =>
            rw [scanLong] at found
            split at found
            · cases found
              rfl
            · exact absurd found (by simp)
      · rw [parseRlpListHeader, rejectIf_false (by omega), ok_bind, readByte_of_drop start,
          ok_bind]
        by_cases short : 0xc0 ≤ first.toNat
        · rw [if_pos ⟨short, by omega⟩, scan, if_neg (by omega), if_neg (by omega),
            if_neg (by omega), if_pos (by omega), scanShort, sizeSub_of_le (by omega), ok_bind]
          generalize first.toNat - 0xc0 = len
          by_cases room : len ≤ tail.length
          · rw [rejectIf_false (by omega), if_pos ⟨room, fun single =>
              absurd single.1 (by simp)⟩]
            rfl
          · rw [rejectIf_true (by omega), error_bind, if_neg (fun valid => room valid.1)]
        · rw [if_neg (fun list => short list.1), if_neg long]
          cases found : scan width (first :: tail) with
          | none => rfl
          | some result =>
              obtain ⟨kind, headerLen, payloadLen⟩ := result
              obtain ⟨header, payload, rest, parts, form, _⟩ := form_of_scan found
              cases kind with
              | string => rfl
              | list => exact absurd ((form.list_iff parts.symm).mp rfl) short

theorem decides_parseRlpListHeader (counted : p + inputLen = rlp.length)
    (bound : rlp.length < 2147483648) :
    Decides .reject (parseRlpListHeader width rlp p inputLen)
      (fun list => ∃ header payload rest, rlp.drop p = header ++ (payload ++ rest) ∧
        Form width .list header payload ∧ list = ⟨payload.length, header.length⟩) := by
  rw [parseRlpListHeader_eq octets counted bound]
  cases found : scan width (rlp.drop p) with
  | none =>
      refine ⟨rfl, ?_⟩
      rintro list ⟨header, payload, rest, start, form, _⟩
      rw [start, form.scan_eq] at found
      exact absurd found (by simp)
  | some result =>
      obtain ⟨kind, headerLen, payloadLen⟩ := result
      obtain ⟨header, payload, rest, start, form, rfl, rfl⟩ := form_of_scan found
      cases kind with
      | string =>
          refine ⟨rfl, ?_⟩
          rintro list ⟨header', payload', rest', start', form', _⟩
          rw [start', form'.scan_eq] at found
          cases found
      | list =>
          intro list
          constructor
          · rintro ⟨header', payload', rest', start', form', rfl⟩
            rw [start', form'.scan_eq, Option.some.injEq, Prod.mk.injEq,
              Prod.mk.injEq] at found
            rw [found.2.1, found.2.2]
          · rintro rfl
            exact ⟨header, payload, rest, start, form, rfl⟩

end Parsers

end LedgerQrl.Transaction
