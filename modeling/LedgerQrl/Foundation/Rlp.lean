import LedgerQrl.Foundation.Positional

namespace LedgerQrl.Foundation.Rlp

/-! # Recursive length prefixes

The encoding of one item: a header that gives its kind and its length, and its
payload. A reader with words of `width` bits takes a long length modulo
`2 ^ width`; the canonical encoding is the one whose length is exact. -/

inductive Kind where
  | string
  | list
deriving DecidableEq, Repr

def Kind.base : Kind → ℕ
  | .string => 0x80
  | .list => 0xc0

def Kind.Single (kind : Kind) (payload : List UInt8) : Prop :=
  kind = .string ∧ ∃ byte, payload = [byte] ∧ byte.toNat < 0x80

instance (kind : Kind) (payload : List UInt8) : Decidable (kind.Single payload) :=
  match payload with
  | [] => .isFalse fun single => by simp [Kind.Single] at single
  | [byte] => decidable_of_iff (kind = .string ∧ byte.toNat < 0x80) (by simp [Kind.Single])
  | _ :: _ :: _ => .isFalse fun single => by simp [Kind.Single] at single

/-- A header and the payload it announces, as a reader with words of `width`
bits sees them. -/
inductive Form (width : ℕ) : Kind → (header payload : List UInt8) → Prop
  | single (payload : List UInt8) (single : Kind.string.Single payload) :
      Form width .string [] payload
  | short (kind : Kind) (first : UInt8) (payload : List UInt8)
      (count : first.toNat = kind.base + payload.length) (short : payload.length ≤ 55)
      (plain : ¬ kind.Single payload) :
      Form width kind [first] payload
  | long (kind : Kind) (first : UInt8) (lengthBytes payload : List UInt8)
      (count : first.toNat = kind.base + 55 + lengthBytes.length)
      (present : lengthBytes ≠ []) (few : lengthBytes.length ≤ 8)
      (leading : lengthBytes.head? ≠ some 0)
      (length : bigEndian lengthBytes % 2 ^ width = payload.length)
      (long : 56 ≤ payload.length) :
      Form width kind (first :: lengthBytes) payload

def canonicalHeader (kind : Kind) (payload : List UInt8) : List UInt8 :=
  if kind.Single payload then []
  else if payload.length ≤ 55 then [UInt8.ofNat (kind.base + payload.length)]
  else
    UInt8.ofNat (kind.base + 55 + (minimalBytes payload.length).length) ::
      minimalBytes payload.length

/-- The canonical encoding. -/
def encode (kind : Kind) (payload : List UInt8) : List UInt8 :=
  canonicalHeader kind payload ++ payload

section Reader

variable {width : ℕ} {kind : Kind} {header payload rest : List UInt8}

/-! ### Lengths -/

theorem Kind.base_cases (kind : Kind) : kind.base = 0x80 ∨ kind.base = 0xc0 := by
  cases kind with
  | string => exact .inl rfl
  | list => exact .inr rfl

theorem Form.header_length_le (form : Form width kind header payload) :
    header.length ≤ 9 := by
  cases form with
  | single => simp
  | short => simp
  | long first lengthBytes payload count present few =>
      rw [List.length_cons]
      omega

theorem Form.nonempty (form : Form width kind header payload) :
    header ++ payload ≠ [] := by
  cases form with
  | single payload single =>
      obtain ⟨_, byte, rfl, _⟩ := single
      simp
  | short => simp
  | long => simp

theorem Form.list_header (form : Form width .list header payload) : header ≠ [] := by
  cases form with
  | short => simp
  | long => simp

/-! ### The reader -/

def scanShort (kind : Kind) (count : ℕ) (tail : List UInt8) : Option (Kind × ℕ × ℕ) :=
  if count ≤ tail.length ∧ ¬ kind.Single (tail.take count) then some (kind, 1, count)
  else none

def scanLong (width : ℕ) (kind : Kind) (lenOfLen : ℕ) (tail : List UInt8) :
    Option (Kind × ℕ × ℕ) :=
  let count := bigEndian (tail.take lenOfLen) % 2 ^ width
  if lenOfLen ≤ tail.length ∧ tail.head? ≠ some 0 ∧ count ≤ tail.length - lenOfLen ∧
      56 ≤ count then some (kind, 1 + lenOfLen, count)
  else none

/-- The kind and the lengths of the header and the payload of the item at the
start of a byte string. -/
def scan (width : ℕ) : List UInt8 → Option (Kind × ℕ × ℕ)
  | [] => none
  | first :: tail =>
      if first.toNat ≤ 0x7f then some (.string, 0, 1)
      else if first.toNat ≤ 0xb7 then scanShort .string (first.toNat - 0x80) tail
      else if first.toNat ≤ 0xbf then scanLong width .string (first.toNat - 0xb7) tail
      else if first.toNat ≤ 0xf7 then scanShort .list (first.toNat - 0xc0) tail
      else scanLong width .list (first.toNat - 0xf7) tail

theorem scan_short {first : UInt8} (count : first.toNat = kind.base + payload.length)
    (short : payload.length ≤ 55) (tail : List UInt8) :
    scan width (first :: tail) = scanShort kind payload.length tail := by
  cases kind with
  | string =>
      rw [Kind.base] at count
      rw [scan, if_neg (by omega), if_pos (by omega), count, Nat.add_sub_cancel_left]
  | list =>
      rw [Kind.base] at count
      rw [scan, if_neg (by omega), if_neg (by omega), if_neg (by omega), if_pos (by omega),
        count, Nat.add_sub_cancel_left]

theorem scan_long {first : UInt8} {lengthBytes : List UInt8}
    (count : first.toNat = kind.base + 55 + lengthBytes.length)
    (present : lengthBytes ≠ []) (few : lengthBytes.length ≤ 8) (tail : List UInt8) :
    scan width (first :: tail) = scanLong width kind lengthBytes.length tail := by
  have positive := List.length_pos_iff.mpr present
  cases kind with
  | string =>
      have lenOfLen : first.toNat - 0xb7 = lengthBytes.length := by
        rw [count, Kind.base]
        omega
      rw [Kind.base] at count
      rw [scan, if_neg (by omega), if_neg (by omega), if_pos (by omega), lenOfLen]
  | list =>
      have lenOfLen : first.toNat - 0xf7 = lengthBytes.length := by
        rw [count, Kind.base]
        omega
      rw [Kind.base] at count
      rw [scan, if_neg (by omega), if_neg (by omega), if_neg (by omega),
        if_neg (by omega), lenOfLen]

/-- The reader finds a form, whatever follows it. -/
theorem Form.scan_eq (form : Form width kind header payload) :
    scan width (header ++ (payload ++ rest)) =
      some (kind, header.length, payload.length) := by
  cases form with
  | single payload single =>
      obtain ⟨_, byte, rfl, small⟩ := single
      rw [List.nil_append, List.singleton_append, scan, if_pos (by omega)]
      rfl
  | short kind first payload count short plain =>
      rw [List.singleton_append, scan_short count short, scanShort, List.take_left,
        if_pos ⟨by simp, plain⟩, List.length_singleton]
  | long kind first lengthBytes payload count present few leading length long =>
      have room : payload.length ≤
          (lengthBytes ++ (payload ++ rest)).length - lengthBytes.length := by
        simp
      have head : (lengthBytes ++ (payload ++ rest)).head? = lengthBytes.head? := by
        rw [List.head?_append_of_ne_nil _ present]
      rw [List.cons_append, scan_long count present few, scanLong, List.take_left, length,
        head, if_pos ⟨by simp, leading, room, long⟩, List.length_cons, Nat.add_comm 1]

/-- What the reader finds is a form. -/
theorem form_of_scan {bytes : List UInt8} {headerLen payloadLen : ℕ}
    (found : scan width bytes = some (kind, headerLen, payloadLen)) :
    ∃ header payload rest, bytes = header ++ (payload ++ rest) ∧
      Form width kind header payload ∧ header.length = headerLen ∧
        payload.length = payloadLen := by
  have short : ∀ (kind' : Kind) (first : UInt8) (count : ℕ) (tail : List UInt8),
      first.toNat = kind'.base + count → count ≤ 55 →
      scanShort kind' count tail = some (kind, headerLen, payloadLen) →
      ∃ header payload rest, first :: tail = header ++ (payload ++ rest) ∧
        Form width kind header payload ∧ header.length = headerLen ∧
          payload.length = payloadLen := by
    intro kind' first count tail announced small found
    rw [scanShort] at found
    split at found
    · rename_i valid
      have taken : (tail.take count).length = count := List.length_take_of_le valid.1
      cases found
      exact ⟨[first], tail.take payloadLen, tail.drop payloadLen,
        by rw [List.take_append_drop, List.singleton_append],
        .short kind first _ (by rw [taken, announced]) (by omega) valid.2, rfl, taken⟩
    · exact absurd found (by simp)
  have long : ∀ (kind' : Kind) (first : UInt8) (lenOfLen : ℕ) (tail : List UInt8),
      first.toNat = kind'.base + 55 + lenOfLen → 0 < lenOfLen → lenOfLen ≤ 8 →
      scanLong width kind' lenOfLen tail = some (kind, headerLen, payloadLen) →
      ∃ header payload rest, first :: tail = header ++ (payload ++ rest) ∧
        Form width kind header payload ∧ header.length = headerLen ∧
          payload.length = payloadLen := by
    intro kind' first lenOfLen tail announced some few found
    rw [scanLong] at found
    split at found
    · rename_i valid
      obtain ⟨enough, leading, room, large⟩ := valid
      have taken : (tail.take lenOfLen).length = lenOfLen := List.length_take_of_le enough
      have head : (tail.take lenOfLen).head? = tail.head? := by
        rw [List.head?_take, if_neg (by omega)]
      have counted : ((tail.drop lenOfLen).take
          (bigEndian (tail.take lenOfLen) % 2 ^ width)).length =
            bigEndian (tail.take lenOfLen) % 2 ^ width :=
        List.length_take_of_le (by rwa [List.length_drop])
      cases found
      refine ⟨first :: tail.take lenOfLen, (tail.drop lenOfLen).take _,
        (tail.drop lenOfLen).drop (bigEndian (tail.take lenOfLen) % 2 ^ width), ?_,
        .long kind first _ _ (by rw [taken, announced]) ?_ (by omega) (by rwa [head])
          counted.symm (by omega), ?_, counted⟩
      · rw [List.take_append_drop, List.cons_append, List.take_append_drop]
      · intro none
        rw [none, List.length_nil] at taken
        omega
      · rw [List.length_cons, taken, Nat.add_comm]
    · exact absurd found (by simp)
  cases bytes with
  | nil => exact absurd found (by simp [scan])
  | cons first tail =>
      have range := first.toNat_lt
      rw [scan] at found
      split at found
      · cases found
        exact ⟨[], [first], tail, rfl, .single _ ⟨rfl, first, rfl, by omega⟩, rfl, rfl⟩
      · split at found
        · exact short .string first _ tail (by rw [Kind.base]; omega) (by omega) found
        · split at found
          · exact long .string first _ tail (by rw [Kind.base]; omega) (by omega) (by omega)
              found
          · split at found
            · exact short .list first _ tail (by rw [Kind.base]; omega) (by omega) found
            · exact long .list first _ tail (by rw [Kind.base]; omega) (by omega)
                (by omega) found

theorem Form.unique {kind' : Kind} {header' payload' rest' : List UInt8}
    (left : Form width kind header payload) (right : Form width kind' header' payload')
    (equal : header ++ (payload ++ rest) = header' ++ (payload' ++ rest')) :
    kind = kind' ∧ header = header' ∧ payload = payload' ∧ rest = rest' := by
  have scanned : scan width (header ++ (payload ++ rest)) =
      scan width (header' ++ (payload' ++ rest')) := by
    rw [equal]
  rw [left.scan_eq, right.scan_eq, Option.some.injEq, Prod.mk.injEq,
    Prod.mk.injEq] at scanned
  obtain ⟨headers, others⟩ := List.append_inj equal scanned.2.1
  obtain ⟨payloads, rests⟩ := List.append_inj others scanned.2.2
  exact ⟨scanned.1, headers, payloads, rests⟩

theorem Form.list_iff (form : Form width kind header payload) {first : UInt8}
    {tail : List UInt8} (start : header ++ (payload ++ rest) = first :: tail) :
    kind = .list ↔ 0xc0 ≤ first.toNat := by
  cases form with
  | single payload single =>
      obtain ⟨_, byte, rfl, small⟩ := single
      obtain rfl := (List.cons.inj start).1
      simp only [reduceCtorEq, false_iff]
      omega
  | short kind byte payload count short plain =>
      obtain rfl := (List.cons.inj start).1
      cases kind with
      | string =>
          rw [Kind.base] at count
          simp only [reduceCtorEq, false_iff]
          omega
      | list =>
          rw [Kind.base] at count
          simp only [true_iff]
          omega
  | long kind byte lengthBytes payload count present few =>
      obtain rfl := (List.cons.inj start).1
      cases kind with
      | string =>
          rw [Kind.base] at count
          simp only [reduceCtorEq, false_iff]
          omega
      | list =>
          rw [Kind.base] at count
          simp only [true_iff]
          omega

end Reader

/-! ## Canonical encodings -/

section Canonical

variable {width : ℕ} {kind : Kind} {payload : List UInt8}

theorem form_canonicalHeader (kind : Kind) {payload : List UInt8}
    (bound : payload.length < 2 ^ width) (representable : payload.length < 256 ^ 8) :
    Form width kind (canonicalHeader kind payload) payload := by
  rw [canonicalHeader]
  by_cases single : kind.Single payload
  · have string := single.1
    subst string
    rw [if_pos single]
    exact .single payload single
  · rw [if_neg single]
    have base := kind.base_cases
    by_cases short : payload.length ≤ 55
    · rw [if_pos short]
      refine .short kind _ payload ?_ short single
      rw [UInt8.toNat_ofNat', Nat.mod_eq_of_lt (by omega)]
    · have few := length_minimalBytes_le.mpr representable
      have present : minimalBytes payload.length ≠ [] := by
        intro none
        have zero := bigEndian_minimalBytes payload.length
        rw [none, bigEndian_nil] at zero
        omega
      rw [if_neg short]
      refine .long kind _ _ payload ?_ present few (minimalBytes_head _) ?_ (by omega)
      · rw [UInt8.toNat_ofNat', Nat.mod_eq_of_lt (by omega)]
      · rw [bigEndian_minimalBytes, Nat.mod_eq_of_lt bound]

theorem length_canonicalHeader_le {count : ℕ} (bound : payload.length < 256 ^ count) :
    (canonicalHeader kind payload).length ≤ 1 + count := by
  have few := length_minimalBytes_le.mpr bound
  rw [canonicalHeader]
  split
  · simp
  · split
    · simp
    · rw [List.length_cons]
      omega

theorem length_encode_short (short : payload.length ≤ 55) :
    (encode kind payload).length ≤ 1 + payload.length := by
  rw [encode, canonicalHeader, List.length_append]
  by_cases single : kind.Single payload
  · rw [if_pos single, List.length_nil]
    omega
  · rw [if_neg single, if_pos short, List.length_singleton]

theorem length_encode_le {count : ℕ} (bound : payload.length < 256 ^ count) :
    (encode kind payload).length ≤ 1 + count + payload.length := by
  have header : (canonicalHeader kind payload).length ≤ 1 + count :=
    length_canonicalHeader_le bound
  rw [encode, List.length_append]
  omega

theorem Form.canonical {header : List UInt8} (form : Form width kind header payload)
    (fits : 8 * (header.length - 1) ≤ width) : header = canonicalHeader kind payload := by
  rw [canonicalHeader]
  cases form with
  | single payload single =>
      rw [if_pos single]
  | short kind first payload count short plain =>
      rw [if_neg plain, if_pos short, ← count, UInt8.ofNat_toNat]
  | long kind first lengthBytes payload count present few leading length long =>
      have plain : ¬ kind.Single payload := by
        rintro ⟨_, byte, rfl, _⟩
        rw [List.length_singleton] at long
        omega
      have exactLength : bigEndian lengthBytes = payload.length := by
        have bound := bigEndian_lt lengthBytes
        have larger : 256 ^ lengthBytes.length ≤ 2 ^ width := by
          rw [List.length_cons, Nat.add_sub_cancel] at fits
          calc 256 ^ lengthBytes.length = 2 ^ (8 * lengthBytes.length) := by
                rw [pow_mul]
                norm_num
            _ ≤ 2 ^ width := Nat.pow_le_pow_right (by norm_num) fits
        rw [← length, Nat.mod_eq_of_lt (bound.trans_le larger)]
      rw [if_neg plain, if_neg (by omega), ← exactLength, minimalBytes_bigEndian leading,
        ← count, UInt8.ofNat_toNat]

/-- A form in words that count its length bytes is a form in any words that
count its payload. -/
theorem Form.rewidth {header : List UInt8} (form : Form width kind header payload)
    (fits : 8 * (header.length - 1) ≤ width) {width' : ℕ} (bound : payload.length < 2 ^ width')
    (representable : payload.length < 256 ^ 8) : Form width' kind header payload := by
  rw [form.canonical fits]
  exact form_canonicalHeader kind bound representable

end Canonical

end LedgerQrl.Foundation.Rlp
