import LedgerQrl.Transaction.PreimageEncoder

namespace LedgerQrl.Transaction

open Foundation Rlp

/-! # The signed envelope

What the host sends to the network: the fields of the preimage, the signature and the
public key. -/

def encodeSignedTx {Number : Type} [Zero Number] [DecidableEq Number] [HexString Number]
    (parameters : ParametersOf Number) (signature publicKey : List UInt8) : List UInt8 :=
  let fields :=
    [rlpBytes (intToBytes parameters.chainId),
      rlpBytes (intToBytes parameters.nonce),
      rlpBytes (intToBytes parameters.tip),
      rlpBytes (intToBytes parameters.feeCap),
      rlpBytes (intToBytes parameters.gas),
      rlpBytes parameters.toAddress,
      rlpBytes (intToBytes parameters.value),
      rlpBytes (parameters.data.getD []),
      rlpList [],
      rlpBytes [1, 0, 0],
      rlpBytes [],
      rlpBytes signature,
      rlpBytes publicKey]
  0x02 :: rlpList fields

/-! ## The pieces of an envelope -/

section Pieces

variable {width : ℕ}

theorem pieces_inj : ∀ {pieces others : List Piece},
    (∀ piece ∈ pieces, piece.Reads width) → (∀ piece ∈ others, piece.Reads width) →
    pieces.flatMap Piece.bytes = others.flatMap Piece.bytes → pieces = others := by
  have started : ∀ {piece : Piece} {pieces : List Piece}, piece.Reads width →
      (piece :: pieces).flatMap Piece.bytes ≠ [] := by
    intro piece pieces reads empty
    rw [List.flatMap_cons, List.append_eq_nil_iff] at empty
    exact Form.nonempty reads empty.1
  intro pieces
  induction pieces with
  | nil =>
      intro others _ readsOthers equal
      cases others with
      | nil => rfl
      | cons other others =>
          exact absurd equal.symm (started (readsOthers other List.mem_cons_self))
  | cons piece pieces induction =>
      intro others reads readsOthers equal
      cases others with
      | nil => exact absurd equal (started (reads piece List.mem_cons_self))
      | cons other others =>
          rw [List.flatMap_cons, List.flatMap_cons, Piece.bytes, Piece.bytes,
            List.append_assoc, List.append_assoc] at equal
          obtain ⟨kinds, headers, payloads, later⟩ := Form.unique
            (reads piece List.mem_cons_self) (readsOthers other List.mem_cons_self) equal
          have same : piece = other := by
            cases piece
            cases other
            simp only [Piece.mk.injEq]
            exact ⟨kinds, headers, payloads⟩
          rw [same, induction (fun item member => reads item (List.mem_cons_of_mem piece member))
            (fun item member => readsOthers item (List.mem_cons_of_mem other member)) later]

variable (parameters : Parameters) (signature publicKey : List UInt8)

def envelopePieces : List Piece :=
  parameters.preimage.layout.items ++
    [.canonical .string signature, .canonical .string publicKey]

def envelopePayload : List UInt8 :=
  (envelopePieces parameters signature publicKey).flatMap Piece.bytes

theorem encodeSignedTx_eq : encodeSignedTx parameters signature publicKey =
    0x02 :: (canonicalHeader .list (envelopePayload parameters signature publicKey) ++
      envelopePayload parameters signature publicKey) := by
  simp only [encodeSignedTx, rlpList_eq, rlpBytes_eq, intToBytes_eq]
  rfl

variable {parameters signature publicKey}

theorem envelopePieces_canonical : ∀ piece ∈ envelopePieces parameters signature publicKey,
    piece = .canonical piece.kind piece.payload := by
  simp [envelopePieces, Layout.items, Preimage.layout, Piece.canonical]

theorem envelope_length_lt : (envelopePayload parameters signature publicKey).length <
    (encodeSignedTx parameters signature publicKey).length := by
  rw [encodeSignedTx_eq, List.length_cons, List.length_append]
  omega

variable (width) in
theorem envelope_reads {bound : ℕ} (words : bound ≤ 2 ^ width) (representable : bound ≤ 256 ^ 8)
    (fits : (encodeSignedTx parameters signature publicKey).length < bound) :
    Form width .list (canonicalHeader .list (envelopePayload parameters signature publicKey))
        (envelopePayload parameters signature publicKey) ∧
      ∀ piece ∈ envelopePieces parameters signature publicKey, piece.Reads width := by
  have inner := envelope_length_lt.trans fits
  refine ⟨form_canonicalHeader .list (inner.trans_le words) (inner.trans_le representable), ?_⟩
  intro piece member
  have within : piece.bytes.length ≤
      (envelopePayload parameters signature publicKey).length := by
    rw [envelopePayload, List.flatMap_def]
    exact (List.sublist_flatten_of_mem (List.mem_map_of_mem member)).length_le
  rw [Piece.length_bytes] at within
  have payload : piece.payload.length < bound := by omega
  have form : Form width piece.kind (canonicalHeader piece.kind piece.payload) piece.payload :=
    form_canonicalHeader piece.kind (payload.trans_le words) (payload.trans_le representable)
  rw [envelopePieces_canonical piece member]
  exact form

end Pieces

/-! ## What an envelope determines -/

/-- The same transaction; no data and empty data are the same. -/
structure Parameters.Same (parameters other : Parameters) : Prop where
  chainId : parameters.chainId = other.chainId
  nonce : parameters.nonce = other.nonce
  tip : parameters.tip = other.tip
  feeCap : parameters.feeCap = other.feeCap
  gas : parameters.gas = other.gas
  toAddress : parameters.toAddress = other.toAddress
  value : parameters.value = other.value
  data : parameters.data.getD [] = other.data.getD []

theorem minimalBytes_inj {number other : ℕ} (equal : minimalBytes number = minimalBytes other) :
    number = other := by
  rw [← bigEndian_minimalBytes number, equal, bigEndian_minimalBytes]

theorem envelopePieces_inj {parameters other : Parameters}
    {signature publicKey signature' publicKey' : List UInt8}
    (equal : envelopePieces parameters signature publicKey =
      envelopePieces other signature' publicKey') :
    parameters.Same other ∧ signature = signature' ∧ publicKey = publicKey' := by
  have payloads := congrArg (List.map Piece.payload) equal
  simp only [envelopePieces, Layout.items, Preimage.layout, Piece.canonical,
    Parameters.preimage, List.map_cons, List.map_nil, List.cons_append,
    List.nil_append, List.cons.injEq, and_true, true_and] at payloads
  obtain ⟨chainId, nonce, tip, feeCap, gas, toAddress, value, data, sig, pk⟩ := payloads
  exact ⟨⟨minimalBytes_inj chainId, minimalBytes_inj nonce, minimalBytes_inj tip,
    minimalBytes_inj feeCap, minimalBytes_inj gas, toAddress, minimalBytes_inj value, data⟩,
    sig, pk⟩

/-- An envelope determines the transaction, the signature and the key, whatever follows
it, and the device takes no envelope for a preimage. -/
theorem encodeSignedTx_faithful (parameters : Parameters) (signature publicKey : List UInt8) :
    (∀ (other : Parameters) (signature' publicKey' rest rest' : List UInt8),
        (encodeSignedTx parameters signature publicKey).length < 2 ^ 64 →
        (encodeSignedTx other signature' publicKey').length < 2 ^ 64 →
        encodeSignedTx parameters signature publicKey ++ rest =
          encodeSignedTx other signature' publicKey' ++ rest' →
            parameters.Same other ∧ signature = signature' ∧ publicKey = publicKey' ∧
              rest = rest') ∧
      ∀ (width : ℕ) (prior : ZondTx), width = 32 ∨ width = 64 →
        (encodeSignedTx parameters signature publicKey).length < 2 ^ 31 →
          ∃ fault, decodeLedgerTx width (encodeSignedTx parameters signature publicKey)
            prior = .error fault := by
  constructor
  · intro other signature' publicKey' rest rest' small small' equal
    obtain ⟨list, reads⟩ := envelope_reads 64 (by norm_num) (by norm_num) small
    obtain ⟨list', reads'⟩ := envelope_reads 64 (by norm_num) (by norm_num) small'
    rw [encodeSignedTx_eq, encodeSignedTx_eq, List.cons_append, List.cons_append,
      List.append_assoc, List.append_assoc] at equal
    obtain ⟨_, _, payloads, rests⟩ := Form.unique list list' (List.cons.inj equal).2
    obtain ⟨same, signatures, keys⟩ := envelopePieces_inj (pieces_inj reads reads' payloads)
    exact ⟨same, signatures, keys, rests⟩
  · intro width prior words small
    have wide : 2 ^ 31 ≤ 2 ^ width := by
      rcases words with rfl | rfl
      · norm_num
      · norm_num
    obtain ⟨list, reads⟩ := envelope_reads width wide (by norm_num) small
    cases decoded : decodeLedgerTx width (encodeSignedTx parameters signature publicKey)
        prior with
    | error fault => exact ⟨fault, rfl⟩
    | ok tx =>
        obtain ⟨layout, bytes, accepted, _⟩ :=
          layout_of_decodeLedgerTx (by omega) (by omega) decoded
        rw [encodeSignedTx_eq, Layout.bytes] at bytes
        have lists : layout.listHeader ++ (layout.payload ++ layout.trailing) =
            canonicalHeader .list (envelopePayload parameters signature publicKey) ++
              (envelopePayload parameters signature publicKey ++ []) := by
          rw [List.append_nil]
          exact (List.cons.inj bytes).2
        obtain ⟨_, _, payloads, _⟩ := Form.unique accepted.list list lists
        -- The decoder reads eleven items, and an envelope has thirteen.
        have items := congrArg List.length (pieces_inj accepted.reads reads payloads)
        exact absurd items (show ¬ 11 = 13 by decide)

theorem encodeSignedTx_faithful_transfer :
    transfer.Same { transfer with data := some [] } ∧
      ∃ fault, decodeLedgerTx 32 (encodeSignedTx transfer [1] [2]) .zero = .error fault := by
  have faithful := encodeSignedTx_faithful transfer [1] [2]
  have small : (encodeSignedTx transfer [1] [2]).length < 2 ^ 31 := by decide +kernel
  have same : encodeSignedTx transfer [1] [2] ++ [3] =
      encodeSignedTx { transfer with data := some [] } [1] [2] ++ [3] := rfl
  constructor
  · exact (faithful.1 _ [1] [2] [3] [3] (by decide +kernel) (by decide +kernel) same).1
  · exact faithful.2 32 .zero (.inl rfl) small

end LedgerQrl.Transaction
