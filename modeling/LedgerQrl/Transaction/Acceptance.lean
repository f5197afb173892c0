import LedgerQrl.Transaction.Preimage

namespace LedgerQrl.Transaction

open Foundation Rlp

/-! # The decoder against its format

The decoder accepts every valid preimage. It also accepts irregular layouts, and
what it accepts depends on the width of `size_t` where a length is longer than a
word. -/

def maxTransactionLen : ℕ := 510

section Acceptance

variable {width : ℕ} {rlp : List UInt8}

/-- A valid preimage is accepted, and the transaction has its fields. -/
theorem decodeLedgerTx_preimage (wide : 32 ≤ width) {preimage : Preimage}
    (valid : preimage.Valid) (bound : preimage.bytes.length < 2147483648)
    (prior : ZondTx) :
    ∃ tx, decodeLedgerTx width preimage.bytes prior = .ok tx ∧ preimage.Holds tx := by
  have accepted := Preimage.layout_accepted wide valid bound
  obtain ⟨tx, stores⟩ := accepted.exists_stores prior
  exact ⟨tx, decodeLedgerTx_of_layout (by omega) bound preimage.layout_bytes accepted stores,
    stores.holds accepted⟩

/-- What is accepted is in the grammar exactly when its layout is regular. -/
theorem Layout.Accepted.inGrammar_iff (wide : 32 ≤ width) {layout : Layout}
    (accepted : layout.Accepted width) (bound : layout.bytes.length < 2147483648)
    {prior tx : ZondTx} (stores : layout.Stores prior tx) :
    InGrammar layout.bytes tx ↔ layout.Regular width := by
  constructor
  · rintro ⟨preimage, bytes, valid, _⟩
    rw [bytes] at bound
    have same := Layout.unique accepted (Preimage.layout_accepted wide valid bound)
      (bytes.trans preimage.layout_bytes.symm)
    rw [same]
    exact Preimage.layout_regular wide bound
  · intro regular
    have same := regular.eq_layout accepted
    refine ⟨layout.preimage, ?_, accepted.valid, stores.holds accepted⟩
    rw [← Preimage.layout_bytes, ← same]

/-- The decoder keeps to its grammar on an input exactly when every layout that it
accepts the input as is regular. -/
theorem decodeLedgerTx_inGrammar_iff (wide : 32 ≤ width)
    (bound : rlp.length < 2147483648) :
    (∀ prior tx, decodeLedgerTx width rlp prior = .ok tx → InGrammar rlp tx) ↔
      ∀ layout : Layout, layout.bytes = rlp → layout.Accepted width →
        layout.Regular width := by
  constructor
  · rintro keeps layout rfl accepted
    obtain ⟨tx, stores⟩ := accepted.exists_stores .zero
    have decoded := decodeLedgerTx_of_layout (by omega) bound rfl accepted stores
    exact (accepted.inGrammar_iff wide bound stores).mp (keeps _ tx decoded)
  · intro regular prior tx decoded
    obtain ⟨layout, rfl, accepted, stores⟩ :=
      layout_of_decodeLedgerTx (by omega) bound decoded
    exact (accepted.inGrammar_iff wide bound stores).mpr (regular layout rfl accepted)

def trailingByte : List UInt8 :=
  [0x02, 0xce, 0x80, 0x80, 0x80, 0x80, 0x80, 0x80, 0x80, 0x80, 0xc0, 0x83, 0x01, 0x00, 0x00,
    0x80, 0x00]

theorem decodeLedgerTx_inGrammar_iff_trailingByte :
    (∀ prior tx, decodeLedgerTx 32 trailingByte prior = .ok tx → InGrammar trailingByte tx) ↔
      ∀ layout : Layout, layout.bytes = trailingByte → layout.Accepted 32 →
        layout.Regular 32 :=
  decodeLedgerTx_inGrammar_iff (by norm_num) (by decide)

theorem trailingByte_not_inGrammar (tx : ZondTx) : ¬ InGrammar trailingByte tx := by
  rintro ⟨preimage, bytes, _⟩
  rw [Preimage.bytes, encode, trailingByte] at bytes
  have lengths := congrArg List.length bytes
  simp only [List.length_cons, List.length_append, List.length_nil] at lengths
  have list : ¬ Kind.list.Single preimage.fields.flatten := fun single =>
    absurd single.1 (by simp)
  rw [canonicalHeader, if_neg list] at bytes lengths
  by_cases short : preimage.fields.flatten.length ≤ 55
  · rw [if_pos short] at bytes lengths
    have count : preimage.fields.flatten.length = 15 := by
      rw [List.length_singleton] at lengths
      omega
    rw [count] at bytes
    have second : (0xce : UInt8) = UInt8.ofNat (Kind.list.base + 15) :=
      (List.cons.inj (List.cons.inj bytes).2).1
    exact absurd second (by decide)
  · rw [if_neg short, List.length_cons] at lengths
    omega

/-- The byte behind the list is not noticed. -/
theorem not_decodeLedgerTx_inGrammar :
    ¬ ∀ (rlp : List UInt8) (prior tx : ZondTx),
      decodeLedgerTx 32 rlp prior = .ok tx → InGrammar rlp tx := by
  intro keeps
  have accepted : (decodeLedgerTx 32 trailingByte .zero).isOk = true := by decide
  cases decoded : decodeLedgerTx 32 trailingByte .zero with
  | error fault =>
      rw [decoded] at accepted
      exact absurd accepted (by simp [Except.isOk, Except.toBool])
  | ok tx => exact trailingByte_not_inGrammar tx (keeps _ _ tx decoded)

end Acceptance

/-! ## The width of `size_t` -/

section Width

variable {rlp : List UInt8}

/-- Headers of at most four length bytes mean the same in all words of at least
that size. -/
theorem Layout.Accepted.rewidth {width width' : ℕ} (wide : 32 ≤ width) (wide' : 32 ≤ width')
    {layout : Layout} (accepted : layout.Accepted width)
    (bound : layout.bytes.length < 2147483648)
    (short : ∀ header ∈ layout.headers, header.length ≤ 5) : layout.Accepted width' := by
  have words : 2 ^ 32 ≤ 2 ^ width' := Nat.pow_le_pow_right (by norm_num) wide'
  have form : ∀ {kind : Kind} {header payload : List UInt8},
      Form width kind header payload → header ∈ layout.headers →
      payload.length < 2147483648 → Form width' kind header payload := by
    intro kind header payload form member small
    have few := short header member
    exact form.rewidth (by omega) (by omega) (by omega)
  exact
    { accepted with
      list := form accepted.list List.mem_cons_self (layout.list_length_lt.trans bound)
      reads := fun piece member => form (accepted.reads piece member)
        (List.mem_cons_of_mem _ (List.mem_map_of_mem member))
        ((Layout.payload_length_lt member).trans bound) }

/-- In words of 64 bits no length is longer than it has to be. -/
theorem Layout.Accepted.headers_le {layout : Layout} (accepted : layout.Accepted 64)
    (bound : layout.bytes.length < 2147483648) :
    ∀ header ∈ layout.headers, header.length ≤ 5 := by
  have canonical : ∀ {kind : Kind} {header payload : List UInt8},
      Form 64 kind header payload → payload.length < 2147483648 → header.length ≤ 5 := by
    intro kind header payload form small
    have few := form.header_length_le
    rw [form.canonical (by omega)]
    exact length_canonicalHeader_small small
  intro header member
  rcases List.mem_cons.mp member with rfl | item
  · exact canonical accepted.list (layout.list_length_lt.trans bound)
  · obtain ⟨piece, within, rfl⟩ := List.mem_map.mp item
    exact canonical (accepted.reads piece within)
      ((Layout.payload_length_lt within).trans bound)

/-- Both widths decode an input alike exactly when no layout that the narrow words
accept it as has more than four length bytes in a header. -/
theorem decodeLedgerTx_width_iff (bound : rlp.length ≤ maxTransactionLen) :
    (∀ prior, decodeLedgerTx 32 rlp prior = decodeLedgerTx 64 rlp prior) ↔
      ∀ layout : Layout, layout.bytes = rlp → layout.Accepted 32 →
        ∀ header ∈ layout.headers, header.length ≤ 5 := by
  have small : rlp.length < 2147483648 := by
    rw [maxTransactionLen] at bound
    omega
  constructor
  · rintro same layout rfl accepted
    obtain ⟨tx, stores⟩ := accepted.exists_stores .zero
    have decoded := decodeLedgerTx_of_layout (by norm_num) small rfl accepted stores
    rw [same] at decoded
    obtain ⟨other, bytes, otherAccepted, _⟩ :=
      layout_of_decodeLedgerTx (by norm_num) small decoded
    have short := otherAccepted.headers_le (by rwa [bytes])
    have narrow : other.Accepted 32 :=
      otherAccepted.rewidth (by norm_num) le_rfl (by rwa [bytes]) short
    rwa [Layout.unique accepted narrow bytes.symm]
  · intro short prior
    apply (decides_decodeLedgerTx (by norm_num) small prior).eq
    apply (decides_decodeLedgerTx (by norm_num) small prior).congr
    intro tx
    constructor
    · rintro ⟨layout, rfl, accepted, stores⟩
      exact ⟨layout, rfl, accepted.rewidth (by norm_num) le_rfl small
        (accepted.headers_le small), stores⟩
    · rintro ⟨layout, rfl, accepted, stores⟩
      exact ⟨layout, rfl, accepted.rewidth le_rfl (by norm_num) small
        (short layout rfl accepted), stores⟩

/-- A transaction whose data has the length `0x0100000038`. -/
def wrappedLength : List UInt8 :=
  [0x02, 0xf8, 0x4b, 0x80, 0x80, 0x80, 0x80, 0x80, 0x80, 0x80, 0xbc, 0x01, 0x00, 0x00, 0x00,
    0x38] ++ List.replicate 56 0x00 ++ [0xc0, 0x83, 0x01, 0x00, 0x00, 0x80]

theorem decodeLedgerTx_width_iff_wrappedLength :
    (∀ prior, decodeLedgerTx 32 wrappedLength prior =
        decodeLedgerTx 64 wrappedLength prior) ↔
      ∀ layout : Layout, layout.bytes = wrappedLength → layout.Accepted 32 →
        ∀ header ∈ layout.headers, header.length ≤ 5 :=
  decodeLedgerTx_width_iff (by decide)

/-- Words of 32 bits read its length as 56. -/
theorem not_decodeLedgerTx_width :
    ¬ ∀ rlp : List UInt8, rlp.length ≤ maxTransactionLen →
      ∀ prior, decodeLedgerTx 32 rlp prior = decodeLedgerTx 64 rlp prior := by
  intro same
  have narrow : (decodeLedgerTx 32 wrappedLength .zero).isOk = true := by decide +kernel
  have wide : (decodeLedgerTx 64 wrappedLength .zero).isOk = false := by decide +kernel
  rw [same wrappedLength (by decide) .zero, wide] at narrow
  exact absurd narrow (by decide)

end Width

end LedgerQrl.Transaction
