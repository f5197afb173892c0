import LedgerQrl.Transaction.RlpGrammar

namespace LedgerQrl.Transaction

open Foundation Rlp

/-! # The signing preimage

`TRANSACTION.md`: a type byte and the canonical encoding of the list of eleven
fields. -/

/-- The fields that a preimage chooses. The access list is given by its payload;
the descriptor and the extra parameters are fixed. -/
structure Preimage where
  chainId : List UInt8
  nonce : List UInt8
  gasTipCap : List UInt8
  gasFeeCap : List UInt8
  gas : List UInt8
  toAddress : List UInt8
  value : List UInt8
  data : List UInt8
  accessList : List UInt8

namespace Preimage

variable (preimage : Preimage)

def fields : List (List UInt8) :=
  [encode .string preimage.chainId, encode .string preimage.nonce,
    encode .string preimage.gasTipCap, encode .string preimage.gasFeeCap,
    encode .string preimage.gas, encode .string preimage.toAddress,
    encode .string preimage.value, encode .string preimage.data,
    encode .list preimage.accessList, encode .string [1, 0, 0], encode .string []]

def bytes : List UInt8 := 0x02 :: encode .list preimage.fields.flatten

/-- The constraints on the fields. -/
structure Valid : Prop where
  chainId : Integer 32 preimage.chainId
  nonce : Integer 8 preimage.nonce
  gasTipCap : Integer 32 preimage.gasTipCap
  gasFeeCap : Integer 32 preimage.gasFeeCap
  gas : Integer 8 preimage.gas
  toAddress : preimage.toAddress.length = 64 ∨ preimage.toAddress = []
  value : Integer 32 preimage.value

structure Holds (tx : ZondTx) : Prop where
  chainId : tx.chainId.bytes = preimage.chainId
  nonce : tx.nonce.bytes = preimage.nonce
  gasTipCap : tx.gasTipCap.bytes = preimage.gasTipCap
  gasFeeCap : tx.gasFeeCap.bytes = preimage.gasFeeCap
  gas : tx.gas.bytes = preimage.gas
  toAddress : tx.toAddress = addressOf preimage.toAddress
  value : tx.value.bytes = preimage.value
  hasData : tx.hasData = true ↔ preimage.data ≠ []
  hasAccessList : tx.hasAccessList = true ↔ preimage.accessList ≠ []
  descriptor : tx.descriptor.bytes = [1, 0, 0]

end Preimage

/-- The input is the preimage of valid fields, and the transaction has them. -/
def InGrammar (rlp : List UInt8) (tx : ZondTx) : Prop :=
  ∃ preimage : Preimage, rlp = preimage.bytes ∧ preimage.Valid ∧ preimage.Holds tx

/-! ## The layout of a preimage -/

def Piece.canonical (kind : Kind) (payload : List UInt8) : Piece where
  kind := kind
  header := canonicalHeader kind payload
  payload := payload

theorem Piece.canonical_reads {width : ℕ} (wide : 32 ≤ width) {kind : Kind}
    {payload : List UInt8} (bound : payload.length < 2147483648) :
    (Piece.canonical kind payload).Reads width := by
  have words : 2 ^ 32 ≤ 2 ^ width := Nat.pow_le_pow_right (by norm_num) wide
  exact form_canonicalHeader kind (by omega) (by omega)

def Preimage.layout (preimage : Preimage) : Layout where
  listHeader := canonicalHeader .list preimage.fields.flatten
  chainId := .canonical .string preimage.chainId
  nonce := .canonical .string preimage.nonce
  gasTipCap := .canonical .string preimage.gasTipCap
  gasFeeCap := .canonical .string preimage.gasFeeCap
  gas := .canonical .string preimage.gas
  toAddress := .canonical .string preimage.toAddress
  value := .canonical .string preimage.value
  data := .canonical .string preimage.data
  accessList := .canonical .list preimage.accessList
  descriptor := .canonical .string [1, 0, 0]
  extraParams := .canonical .string []
  trailing := []

def Layout.preimage (layout : Layout) : Preimage where
  chainId := layout.chainId.payload
  nonce := layout.nonce.payload
  gasTipCap := layout.gasTipCap.payload
  gasFeeCap := layout.gasFeeCap.payload
  gas := layout.gas.payload
  toAddress := layout.toAddress.payload
  value := layout.value.payload
  data := layout.data.payload
  accessList := layout.accessList.payload

namespace Layout

def untested (layout : Layout) : List Piece :=
  [layout.chainId, layout.nonce, layout.gasTipCap, layout.gasFeeCap, layout.gas,
    layout.toAddress, layout.value, layout.descriptor, layout.extraParams]

def headers (layout : Layout) : List (List UInt8) :=
  layout.listHeader :: layout.items.map Piece.header

/-- What the format asks for and the decoder does not check: nothing follows the
list, no item that must be a string is a list, and every length fits a word. -/
structure Regular (width : ℕ) (layout : Layout) : Prop where
  trailing : layout.trailing = []
  strings : ∀ piece ∈ layout.untested, piece.kind = .string
  counted : ∀ header ∈ layout.headers, 8 * (header.length - 1) ≤ width

end Layout

section Format

variable {width : ℕ}

theorem Preimage.layout_payload (preimage : Preimage) :
    preimage.layout.payload = preimage.fields.flatten := rfl

theorem Preimage.layout_bytes (preimage : Preimage) :
    preimage.layout.bytes = preimage.bytes := by
  rw [Layout.bytes, Preimage.layout_payload, Preimage.bytes, encode]
  change 0x02 :: (_ ++ (_ ++ [])) = _
  rw [List.append_nil]
  rfl

theorem Layout.length_lt {layout : Layout} {piece : Piece} (member : piece ∈ layout.items) :
    piece.bytes.length < layout.bytes.length := by
  have within : piece.bytes.length ≤ layout.payload.length :=
    (List.sublist_flatten_of_mem (List.mem_map_of_mem member)).length_le
  rw [Layout.bytes, List.length_cons, List.length_append, List.length_append]
  omega

theorem Layout.payload_length_lt {layout : Layout} {piece : Piece}
    (member : piece ∈ layout.items) : piece.payload.length < layout.bytes.length := by
  have shorter := layout.length_lt member
  rw [Piece.length_bytes] at shorter
  omega

theorem Layout.list_length_lt (layout : Layout) :
    layout.payload.length < layout.bytes.length := by
  rw [Layout.bytes, List.length_cons, List.length_append, List.length_append]
  omega

/-- Valid fields are accepted, whatever the width of the words. -/
theorem Preimage.layout_accepted {preimage : Preimage} (wide : 32 ≤ width)
    (valid : preimage.Valid) (bound : preimage.bytes.length < 2147483648) :
    preimage.layout.Accepted width := by
  have words : 2 ^ 32 ≤ 2 ^ width := Nat.pow_le_pow_right (by norm_num) wide
  rw [← preimage.layout_bytes] at bound
  have canonical : ∀ piece ∈ preimage.layout.items,
      piece = .canonical piece.kind piece.payload := by
    simp [Layout.items, Preimage.layout, Piece.canonical]
  exact
    { list := by
        have shorter := preimage.layout.list_length_lt
        rw [preimage.layout_payload] at shorter
        exact form_canonicalHeader .list (by omega) (by omega)
      reads := by
        intro piece member
        have shorter := Layout.payload_length_lt member
        rw [canonical piece member]
        exact Piece.canonical_reads wide (by omega)
      chainId := valid.chainId
      nonce := valid.nonce
      gasTipCap := valid.gasTipCap
      gasFeeCap := valid.gasFeeCap
      gas := valid.gas
      toAddress := valid.toAddress
      value := valid.value
      data := rfl
      accessList := rfl
      descriptor := rfl
      extraParams := rfl }

theorem length_canonicalHeader_small {kind : Kind} {payload : List UInt8}
    (bound : payload.length < 2147483648) : (canonicalHeader kind payload).length ≤ 5 := by
  have four : payload.length < 256 ^ 4 := by omega
  exact length_canonicalHeader_le four

theorem Preimage.layout_headers_le {preimage : Preimage}
    (bound : preimage.bytes.length < 2147483648) :
    ∀ header ∈ preimage.layout.headers, header.length ≤ 5 := by
  intro header member
  rw [← preimage.layout_bytes] at bound
  rcases List.mem_cons.mp member with rfl | item
  · have shorter := preimage.layout.list_length_lt
    rw [preimage.layout_payload] at shorter
    exact length_canonicalHeader_small (by omega)
  · obtain ⟨piece, within, rfl⟩ := List.mem_map.mp item
    have canonical : piece.header = canonicalHeader piece.kind piece.payload := by
      revert piece
      simp [Layout.items, Preimage.layout, Piece.canonical]
    have shorter := Layout.payload_length_lt within
    rw [canonical]
    exact length_canonicalHeader_small (by omega)

theorem Preimage.layout_regular {preimage : Preimage} (wide : 32 ≤ width)
    (bound : preimage.bytes.length < 2147483648) : preimage.layout.Regular width := by
  refine ⟨rfl, ?_, ?_⟩
  · simp [Layout.untested, Preimage.layout, Piece.canonical]
  · intro header member
    have short := Preimage.layout_headers_le bound header member
    omega

/-- A regular layout is the layout of its fields. -/
theorem Layout.Regular.eq_layout {layout : Layout} (regular : layout.Regular width)
    (accepted : layout.Accepted width) : layout = layout.preimage.layout := by
  have item : ∀ piece ∈ layout.items, piece = .canonical piece.kind piece.payload := by
    intro piece member
    have fits := regular.counted piece.header
      (List.mem_cons_of_mem _ (List.mem_map_of_mem member))
    have header := Form.canonical (accepted.reads piece member) fits
    cases piece
    simp only [Piece.canonical, Piece.mk.injEq, and_true, true_and]
    exact header
  have string : ∀ piece ∈ layout.items, piece.kind = .string →
      piece = .canonical .string piece.payload := by
    intro piece member kind
    rw [← kind]
    exact item piece member
  have strings := regular.strings
  simp only [Layout.untested, List.forall_mem_cons] at strings
  obtain ⟨kind1, kind2, kind3, kind4, kind5, kind6, kind7, kind10, kind11, _⟩ := strings
  have list := item layout.accessList (by simp [Layout.items])
  rw [accepted.accessList] at list
  have data := string layout.data (by simp [Layout.items]) accepted.data
  have chainId := string layout.chainId (by simp [Layout.items]) kind1
  have nonce := string layout.nonce (by simp [Layout.items]) kind2
  have gasTipCap := string layout.gasTipCap (by simp [Layout.items]) kind3
  have gasFeeCap := string layout.gasFeeCap (by simp [Layout.items]) kind4
  have gas := string layout.gas (by simp [Layout.items]) kind5
  have toAddress := string layout.toAddress (by simp [Layout.items]) kind6
  have value := string layout.value (by simp [Layout.items]) kind7
  have descriptor := string layout.descriptor (by simp [Layout.items]) kind10
  have extraParams := string layout.extraParams (by simp [Layout.items]) kind11
  rw [accepted.descriptor] at descriptor
  rw [accepted.extraParams] at extraParams
  have payload : layout.payload = layout.preimage.fields.flatten := by
    rw [Layout.payload, Layout.items, chainId, nonce, gasTipCap, gasFeeCap, gas, toAddress,
      value, data, list, descriptor, extraParams]
    rfl
  have header := Form.canonical accepted.list
    (regular.counted layout.listHeader List.mem_cons_self)
  rw [payload] at header
  have trailing := regular.trailing
  cases layout
  simp only [Layout.preimage, Preimage.layout, Layout.mk.injEq]
  exact ⟨header, chainId, nonce, gasTipCap, gasFeeCap, gas, toAddress, value, data, list,
    descriptor, extraParams, trailing⟩

theorem Layout.Accepted.valid {layout : Layout} (accepted : layout.Accepted width) :
    layout.preimage.Valid where
  chainId := accepted.chainId
  nonce := accepted.nonce
  gasTipCap := accepted.gasTipCap
  gasFeeCap := accepted.gasFeeCap
  gas := accepted.gas
  toAddress := accepted.toAddress
  value := accepted.value

/-! ## What is stored -/

theorem Field.copy_bytes {size : ℕ} {field result : Field size} {bytes : List UInt8}
    (copied : field.copy bytes = .ok result) : result.bytes = bytes := by
  rw [Field.copy] at copied
  split at copied
  · rename_i fits
    obtain rfl := Except.ok.inj copied
    apply List.ext_getElem
    · simp [Field.bytes, fits]
    · intro index inside inside'
      simp [Field.bytes, List.getElem?_eq_getElem inside']
  · exact absurd copied (by simp)

theorem Field.exists_copy {size : ℕ} (field : Field size) {bytes : List UInt8}
    (fits : bytes.length ≤ size) : ∃ result, field.copy bytes = .ok result :=
  ⟨_, dif_pos fits⟩

theorem Layout.Stores.holds {layout : Layout} {prior tx : ZondTx}
    (accepted : layout.Accepted width) (stores : layout.Stores prior tx) :
    layout.preimage.Holds tx where
  chainId := Field.copy_bytes stores.chainId
  nonce := Field.copy_bytes stores.nonce
  gasTipCap := Field.copy_bytes stores.gasTipCap
  gasFeeCap := Field.copy_bytes stores.gasFeeCap
  gas := Field.copy_bytes stores.gas
  toAddress := stores.toAddress
  value := Field.copy_bytes stores.value
  hasData := by
    rw [stores.hasData, bne_iff_ne, ne_eq, List.length_eq_zero_iff]
    rfl
  hasAccessList := by
    rw [stores.hasAccessList, bne_iff_ne, ne_eq, List.length_eq_zero_iff]
    rfl
  descriptor := by
    rw [Field.copy_bytes stores.descriptor, accepted.descriptor]

theorem Layout.Accepted.exists_stores {layout : Layout} (accepted : layout.Accepted width)
    (prior : ZondTx) : ∃ tx, layout.Stores prior tx := by
  obtain ⟨chainId, chainIdCopied⟩ := prior.chainId.exists_copy accepted.chainId.length
  obtain ⟨nonce, nonceCopied⟩ := prior.nonce.exists_copy accepted.nonce.length
  obtain ⟨gasTipCap, gasTipCapCopied⟩ := prior.gasTipCap.exists_copy accepted.gasTipCap.length
  obtain ⟨gasFeeCap, gasFeeCapCopied⟩ := prior.gasFeeCap.exists_copy accepted.gasFeeCap.length
  obtain ⟨gas, gasCopied⟩ := prior.gas.exists_copy accepted.gas.length
  obtain ⟨value, valueCopied⟩ := prior.value.clear.exists_copy accepted.value.length
  have three : layout.descriptor.payload.length ≤ 3 := by
    rw [accepted.descriptor]
    exact le_rfl
  obtain ⟨descriptor, descriptorCopied⟩ := prior.descriptor.exists_copy three
  exact ⟨⟨chainId, nonce, gasTipCap, gasFeeCap, gas, _, value, _, _, descriptor⟩,
    { chainId := chainIdCopied
      nonce := nonceCopied
      gasTipCap := gasTipCapCopied
      gasFeeCap := gasFeeCapCopied
      gas := gasCopied
      toAddress := rfl
      value := valueCopied
      hasData := rfl
      hasAccessList := rfl
      descriptor := descriptorCopied }⟩

end Format

end LedgerQrl.Transaction
