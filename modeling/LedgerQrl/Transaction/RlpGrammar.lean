import LedgerQrl.Transaction.RlpWalk

namespace LedgerQrl.Transaction

open Foundation Rlp

/-! # What the decoder accepts

An accepted input is a layout of pieces; the documented grammar admits only the
layouts of canonical encodings. -/

/-- The pieces of an input: the header of the list, its items, and what follows
the list. -/
structure Layout where
  listHeader : List UInt8
  chainId : Piece
  nonce : Piece
  gasTipCap : Piece
  gasFeeCap : Piece
  gas : Piece
  toAddress : Piece
  value : Piece
  data : Piece
  accessList : Piece
  descriptor : Piece
  extraParams : Piece
  trailing : List UInt8

namespace Layout

variable (layout : Layout)

def items : List Piece :=
  [layout.chainId, layout.nonce, layout.gasTipCap, layout.gasFeeCap, layout.gas,
    layout.toAddress, layout.value, layout.data, layout.accessList, layout.descriptor,
    layout.extraParams]

def payload : List UInt8 := layout.items.flatMap Piece.bytes

def bytes : List UInt8 :=
  0x02 :: (layout.listHeader ++ (layout.payload ++ layout.trailing))

/-- What the decoder asks of the pieces. -/
structure Accepted (width : ℕ) : Prop where
  list : Form width .list layout.listHeader layout.payload
  reads : ∀ piece ∈ layout.items, piece.Reads width
  chainId : Integer maxFieldSize layout.chainId.payload
  nonce : Integer 8 layout.nonce.payload
  gasTipCap : Integer maxFieldSize layout.gasTipCap.payload
  gasFeeCap : Integer maxFieldSize layout.gasFeeCap.payload
  gas : Integer 8 layout.gas.payload
  toAddress : layout.toAddress.payload.length = addressLength ∨
    layout.toAddress.payload = []
  value : Integer maxFieldSize layout.value.payload
  data : layout.data.kind = .string
  accessList : layout.accessList.kind = .list
  descriptor : layout.descriptor.payload = [1, 0, 0]
  extraParams : layout.extraParams.payload = []

/-- What the decoder stores over `prior`. -/
structure Stores (prior tx : ZondTx) : Prop where
  chainId : prior.chainId.copy layout.chainId.payload = .ok tx.chainId
  nonce : prior.nonce.copy layout.nonce.payload = .ok tx.nonce
  gasTipCap : prior.gasTipCap.copy layout.gasTipCap.payload = .ok tx.gasTipCap
  gasFeeCap : prior.gasFeeCap.copy layout.gasFeeCap.payload = .ok tx.gasFeeCap
  gas : prior.gas.copy layout.gas.payload = .ok tx.gas
  toAddress : tx.toAddress = addressOf layout.toAddress.payload
  value : prior.value.clear.copy layout.value.payload = .ok tx.value
  hasData : tx.hasData = (layout.data.payload.length != 0)
  hasAccessList : tx.hasAccessList = (layout.accessList.payload.length != 0)
  descriptor : prior.descriptor.copy layout.descriptor.payload = .ok tx.descriptor

end Layout

section Decoder

variable {width : ℕ} (octets : 8 ≤ width) {rlp : List UInt8}
  (bound : rlp.length < 2147483648)

include octets bound

omit octets bound in
theorem rejectIf_onlyFails (condition : Prop) [Decidable condition] :
    OnlyFails .reject (rejectIf condition) := by
  intro fault failed
  by_cases refused : condition
  · rw [rejectIf_true refused, Except.error.injEq] at failed
    exact failed.symm
  · rw [rejectIf_false refused] at failed
    exact absurd failed (by simp)

omit octets bound in
theorem counts_of_item {Result : Type} {parser : Checked (Result × Cursor)}
    {cursor : Cursor} {admits : Piece → Result → Prop}
    (decides : Decides .reject parser (Takes width rlp cursor admits))
    {result : Result × Cursor} (parsed : parser = .ok result) :
    result.2.Counts rlp := by
  obtain ⟨piece, step, _⟩ := (decides.ok_iff result).mp parsed
  exact step.counted

theorem counts_of_listStart (present : 0 < rlp.length) {result : Cursor × ℕ}
    (started : parseListStart width rlp = .ok result) : result.1.Counts rlp := by
  have start := decides_parseListStart octets bound present
  obtain ⟨header, payload, rest, parts, _, rfl⟩ := (start.ok_iff _).mp started
  have length := congrArg List.length parts
  rw [List.length_drop, List.length_append, List.length_append] at length
  rw [Cursor.Counts]
  simp only
  omega

/-- Only `return -1` ends a call early. -/
theorem decodeLedgerTx_onlyFails (prior : ZondTx) :
    OnlyFails .reject (decodeLedgerTx width rlp prior) := by
  rw [decodeLedgerTx]
  refine (rejectIf_onlyFails _).bind fun _ present => ?_
  have positive : 0 < rlp.length := by
    by_contra empty
    rw [rejectIf_true (by omega)] at present
    exact absurd present (by simp)
  refine .bind ?_ fun type _ => (rejectIf_onlyFails _).bind fun _ _ => ?_
  · cases rlp with
    | nil => exact absurd positive (by simp)
    | cons first rest => exact OnlyFails.ok _
  refine (decides_parseListStart octets bound positive).onlyFails.bind
    fun ⟨start, payloadEnd⟩ started => ?_
  have counts := counts_of_listStart octets bound positive started
  have item1 := decides_parseInteger octets bound counts le_rfl prior.chainId
  refine item1.onlyFails.bind fun ⟨chainId, cursor1⟩ parsed1 => ?_
  have counts1 := counts_of_item item1 parsed1
  have item2 := decides_parseInteger octets bound counts1 le_rfl prior.nonce
  refine item2.onlyFails.bind fun ⟨nonce, cursor2⟩ parsed2 => ?_
  have counts2 := counts_of_item item2 parsed2
  have item3 := decides_parseInteger octets bound counts2 le_rfl prior.gasTipCap
  refine item3.onlyFails.bind fun ⟨gasTipCap, cursor3⟩ parsed3 => ?_
  have counts3 := counts_of_item item3 parsed3
  have item4 := decides_parseInteger octets bound counts3 le_rfl prior.gasFeeCap
  refine item4.onlyFails.bind fun ⟨gasFeeCap, cursor4⟩ parsed4 => ?_
  have counts4 := counts_of_item item4 parsed4
  have item5 := decides_parseInteger octets bound counts4 le_rfl prior.gas
  refine item5.onlyFails.bind fun ⟨gas, cursor5⟩ parsed5 => ?_
  have counts5 := counts_of_item item5 parsed5
  have item6 := decides_parseTo octets bound counts5
  refine item6.onlyFails.bind fun ⟨toAddress, cursor6⟩ parsed6 => ?_
  have counts6 := counts_of_item item6 parsed6
  have item7 := decides_parseInteger octets bound counts6 le_rfl prior.value.clear
  refine item7.onlyFails.bind fun ⟨value, cursor7⟩ parsed7 => ?_
  have counts7 := counts_of_item item7 parsed7
  have item8 := decides_parseData octets bound counts7
  refine item8.onlyFails.bind fun ⟨hasData, cursor8⟩ parsed8 => ?_
  have counts8 := counts_of_item item8 parsed8
  have item9 := decides_parseAccessList octets bound counts8
  refine item9.onlyFails.bind fun ⟨hasAccessList, cursor9⟩ parsed9 => ?_
  have counts9 := counts_of_item item9 parsed9
  have item10 := decides_parseDescriptor octets bound counts9 prior.descriptor
  refine item10.onlyFails.bind fun ⟨descriptor, cursor10⟩ parsed10 => ?_
  have counts10 := counts_of_item item10 parsed10
  refine (decides_parseExtraParams octets bound counts10).onlyFails.bind fun p _ => ?_
  exact (rejectIf_onlyFails _).bind fun _ _ => OnlyFails.ok _

omit octets bound in
/-- A walk from the first item to `payload_end` is a layout. -/
theorem exists_layout_of_walk {type : UInt8} (two : type.toNat = 2)
    {header payload rest : List UInt8} (parts : (type :: rlp).drop 1 = header ++ (payload ++ rest))
    {pieces : List Piece} {start last : Cursor} (position : start.p = 1 + header.length)
    (walk : Walk width (type :: rlp) start pieces last)
    (finished : last.p = 1 + header.length + payload.length) :
    pieces.flatMap Piece.bytes = payload ∧
      type :: rlp = 0x02 :: (header ++ (payload ++ rest)) := by
  have passed := walk.start
  have first : (type :: rlp).drop start.p = payload ++ rest := by
    rw [position, ← List.drop_drop, parts, List.drop_left]
  have lengths : (pieces.flatMap Piece.bytes).length = payload.length := by omega
  rw [first] at passed
  constructor
  · exact (List.append_inj passed.1 lengths.symm).1.symm
  · have byte : type = 0x02 := UInt8.toNat_inj.mp two
    rw [byte, ← parts, List.drop_one, List.tail_cons]

/-- What is accepted is an accepted layout. -/
theorem layout_of_decodeLedgerTx {prior tx : ZondTx}
    (decoded : decodeLedgerTx width rlp prior = .ok tx) :
    ∃ layout : Layout, layout.bytes = rlp ∧ layout.Accepted width ∧
      layout.Stores prior tx := by
  rw [decodeLedgerTx] at decoded
  obtain ⟨_, present, decoded⟩ := bind_ok_iff.mp decoded
  cases rlp with
  | nil =>
      exact absurd rfl (rejectIf_eq_ok.mp present)
  | cons type rest =>
      obtain ⟨_, first, decoded⟩ := bind_ok_iff.mp decoded
      obtain rfl := Except.ok.inj first
      obtain ⟨_, admitted, decoded⟩ := bind_ok_iff.mp decoded
      obtain ⟨⟨start, payloadEnd⟩, started, decoded⟩ := bind_ok_iff.mp decoded
      obtain ⟨⟨chainId, cursor1⟩, parsed1, decoded⟩ := bind_ok_iff.mp decoded
      obtain ⟨⟨nonce, cursor2⟩, parsed2, decoded⟩ := bind_ok_iff.mp decoded
      obtain ⟨⟨gasTipCap, cursor3⟩, parsed3, decoded⟩ := bind_ok_iff.mp decoded
      obtain ⟨⟨gasFeeCap, cursor4⟩, parsed4, decoded⟩ := bind_ok_iff.mp decoded
      obtain ⟨⟨gas, cursor5⟩, parsed5, decoded⟩ := bind_ok_iff.mp decoded
      obtain ⟨⟨toAddress, cursor6⟩, parsed6, decoded⟩ := bind_ok_iff.mp decoded
      obtain ⟨⟨value, cursor7⟩, parsed7, decoded⟩ := bind_ok_iff.mp decoded
      obtain ⟨⟨hasData, cursor8⟩, parsed8, decoded⟩ := bind_ok_iff.mp decoded
      obtain ⟨⟨hasAccessList, cursor9⟩, parsed9, decoded⟩ := bind_ok_iff.mp decoded
      obtain ⟨⟨descriptor, cursor10⟩, parsed10, decoded⟩ := bind_ok_iff.mp decoded
      obtain ⟨p, parsed11, decoded⟩ := bind_ok_iff.mp decoded
      obtain ⟨_, ended, decoded⟩ := bind_ok_iff.mp decoded
      obtain rfl := Except.ok.inj decoded
      have two := not_not.mp (rejectIf_eq_ok.mp admitted)
      have listStart := decides_parseListStart octets bound (by simp)
      obtain ⟨header, payload, trailing, parts, form, equal⟩ :=
        (listStart.ok_iff _).mp started
      have counts := counts_of_listStart octets bound (by simp) started
      obtain ⟨chainIdPiece, step1, integer1, copied1⟩ :=
        ((decides_parseInteger octets bound counts le_rfl _).ok_iff _).mp parsed1
      obtain ⟨noncePiece, step2, integer2, copied2⟩ :=
        ((decides_parseInteger octets bound step1.counted le_rfl _).ok_iff _).mp parsed2
      obtain ⟨gasTipCapPiece, step3, integer3, copied3⟩ :=
        ((decides_parseInteger octets bound step2.counted le_rfl _).ok_iff _).mp parsed3
      obtain ⟨gasFeeCapPiece, step4, integer4, copied4⟩ :=
        ((decides_parseInteger octets bound step3.counted le_rfl _).ok_iff _).mp parsed4
      obtain ⟨gasPiece, step5, integer5, copied5⟩ :=
        ((decides_parseInteger octets bound step4.counted le_rfl _).ok_iff _).mp parsed5
      obtain ⟨toPiece, step6, address6, copied6⟩ :=
        ((decides_parseTo octets bound step5.counted).ok_iff _).mp parsed6
      obtain ⟨valuePiece, step7, integer7, copied7⟩ :=
        ((decides_parseInteger octets bound step6.counted le_rfl _).ok_iff _).mp parsed7
      obtain ⟨dataPiece, step8, kind8, nonempty8⟩ :=
        ((decides_parseData octets bound step7.counted).ok_iff _).mp parsed8
      obtain ⟨accessListPiece, step9, kind9, nonempty9⟩ :=
        ((decides_parseAccessList octets bound step8.counted).ok_iff _).mp parsed9
      obtain ⟨descriptorPiece, step10, descriptor10, copied10⟩ :=
        ((decides_parseDescriptor octets bound step9.counted _).ok_iff _).mp parsed10
      obtain ⟨extraPiece, last, step11, empty11, position⟩ :=
        ((decides_parseExtraParams octets bound step10.counted).ok_iff _).mp parsed11
      have walk := Walk.cons step1 (.cons step2 (.cons step3 (.cons step4 (.cons step5
        (.cons step6 (.cons step7 (.cons step8 (.cons step9 (.cons step10
          (.cons step11 (.nil last)))))))))))
      have finished := not_not.mp (rejectIf_eq_ok.mp ended)
      rw [Prod.mk.injEq] at equal
      obtain ⟨payloads, bytes⟩ := exists_layout_of_walk two parts
        (by rw [equal.1]) walk (by rw [← position, finished, equal.2])
      refine ⟨⟨header, chainIdPiece, noncePiece, gasTipCapPiece, gasFeeCapPiece, gasPiece,
        toPiece, valuePiece, dataPiece, accessListPiece, descriptorPiece, extraPiece,
        trailing⟩, ?_, ?_, ?_⟩
      · rw [bytes, ← payloads]
        rfl
      · exact
          { list := by rw [← payloads] at form; exact form
            reads := walk.reads
            chainId := integer1
            nonce := integer2
            gasTipCap := integer3
            gasFeeCap := integer4
            gas := integer5
            toAddress := address6
            value := integer7
            data := kind8
            accessList := kind9
            descriptor := descriptor10
            extraParams := empty11 }
      · exact
          { chainId := copied1
            nonce := copied2
            gasTipCap := copied3
            gasFeeCap := copied4
            gas := copied5
            toAddress := copied6
            value := copied7
            hasData := nonempty8
            hasAccessList := nonempty9
            descriptor := copied10 }

/-- An accepted layout is accepted. -/
theorem decodeLedgerTx_of_layout {prior tx : ZondTx} {layout : Layout}
    (bytes : layout.bytes = rlp) (accepted : layout.Accepted width)
    (stores : layout.Stores prior tx) : decodeLedgerTx width rlp prior = .ok tx := by
  have positive : 0 < rlp.length := by
    rw [← bytes, Layout.bytes]
    simp
  have parts : rlp.drop 1 = layout.listHeader ++ (layout.payload ++ layout.trailing) := by
    rw [← bytes, Layout.bytes, List.drop_one, List.tail_cons]
  have first : readByte rlp 0 = .ok 2 := by
    rw [← bytes]
    rfl
  have started : parseListStart width rlp =
      .ok (⟨1 + layout.listHeader.length, layout.payload.length + layout.trailing.length⟩,
        1 + layout.listHeader.length + layout.payload.length) :=
    ((decides_parseListStart octets bound positive).ok_iff _).mpr
      ⟨_, _, _, parts, accepted.list, rfl⟩
  have counts := counts_of_listStart octets bound positive started
  have items : rlp.drop (1 + layout.listHeader.length) =
      layout.items.flatMap Piece.bytes ++ layout.trailing := by
    rw [← List.drop_drop, parts, List.drop_left]
    rfl
  obtain ⟨last, walk⟩ := Walk.of_drop counts accepted.reads items
  have finished := walk.start.2
  rcases walk with _ | ⟨step1, _ | ⟨step2, _ | ⟨step3, _ | ⟨step4, _ | ⟨step5, _ |
    ⟨step6, _ | ⟨step7, _ | ⟨step8, _ | ⟨step9, _ | ⟨step10, _ | ⟨step11, _ | _⟩⟩⟩⟩⟩⟩⟩⟩⟩⟩⟩
  have item1 := ((decides_parseInteger octets bound counts le_rfl prior.chainId).ok_iff
    (tx.chainId, _)).mpr ⟨_, step1, accepted.chainId, stores.chainId⟩
  have item2 := ((decides_parseInteger octets bound step1.counted le_rfl prior.nonce).ok_iff
    (tx.nonce, _)).mpr ⟨_, step2, accepted.nonce, stores.nonce⟩
  have item3 := ((decides_parseInteger octets bound step2.counted le_rfl
    prior.gasTipCap).ok_iff (tx.gasTipCap, _)).mpr
      ⟨_, step3, accepted.gasTipCap, stores.gasTipCap⟩
  have item4 := ((decides_parseInteger octets bound step3.counted le_rfl
    prior.gasFeeCap).ok_iff (tx.gasFeeCap, _)).mpr
      ⟨_, step4, accepted.gasFeeCap, stores.gasFeeCap⟩
  have item5 := ((decides_parseInteger octets bound step4.counted le_rfl prior.gas).ok_iff
    (tx.gas, _)).mpr ⟨_, step5, accepted.gas, stores.gas⟩
  have item6 := ((decides_parseTo octets bound step5.counted).ok_iff
    (tx.toAddress, _)).mpr ⟨_, step6, accepted.toAddress, stores.toAddress⟩
  have item7 := ((decides_parseInteger octets bound step6.counted le_rfl
    prior.value.clear).ok_iff (tx.value, _)).mpr ⟨_, step7, accepted.value, stores.value⟩
  have item8 := ((decides_parseData octets bound step7.counted).ok_iff
    (tx.hasData, _)).mpr ⟨_, step8, accepted.data, stores.hasData⟩
  have item9 := ((decides_parseAccessList octets bound step8.counted).ok_iff
    (tx.hasAccessList, _)).mpr ⟨_, step9, accepted.accessList, stores.hasAccessList⟩
  have item10 := ((decides_parseDescriptor octets bound step9.counted
    prior.descriptor).ok_iff (tx.descriptor, _)).mpr
      ⟨_, step10, accepted.descriptor, stores.descriptor⟩
  have item11 := ((decides_parseExtraParams octets bound step10.counted).ok_iff _).mpr
    ⟨_, _, step11, accepted.extraParams, rfl⟩
  have ended : ¬ last.p ≠ 1 + layout.listHeader.length + layout.payload.length := by
    rw [not_not, finished]
    rfl
  rw [decodeLedgerTx, rejectIf_false (by omega), ok_bind, first, ok_bind,
    rejectIf_false (by decide), ok_bind, started]
  simp only [ok_bind, item1, item2, item3, item4, item5, item6, item7, item8, item9, item10,
    item11, rejectIf_false ended]
  rfl

/-- The decoder accepts exactly the accepted layouts. -/
theorem decides_decodeLedgerTx (prior : ZondTx) :
    Decides .reject (decodeLedgerTx width rlp prior)
      (fun tx => ∃ layout : Layout, layout.bytes = rlp ∧ layout.Accepted width ∧
        layout.Stores prior tx) := by
  apply Decides.intro
  · intro tx
    constructor
    · exact layout_of_decodeLedgerTx octets bound
    · rintro ⟨layout, bytes, accepted, stores⟩
      exact decodeLedgerTx_of_layout octets bound bytes accepted stores
  · exact decodeLedgerTx_onlyFails octets bound prior

end Decoder

/-! ## Layouts of one input -/

section Unique

variable {width : ℕ}

theorem pieces_unique : ∀ {pieces others : List Piece} {rest rest' : List UInt8},
    pieces.length = others.length →
    (∀ piece ∈ pieces, piece.Reads width) → (∀ piece ∈ others, piece.Reads width) →
    pieces.flatMap Piece.bytes ++ rest = others.flatMap Piece.bytes ++ rest' →
      pieces = others := by
  intro pieces
  induction pieces with
  | nil =>
      intro others rest rest' length _ _ _
      exact (List.length_eq_zero_iff.mp length.symm).symm
  | cons piece pieces induction =>
      intro others rest rest' length reads readsOthers equal
      cases others with
      | nil => exact absurd length (by simp)
      | cons other others =>
          rw [List.flatMap_cons, List.flatMap_cons, List.append_assoc, List.append_assoc,
            Piece.bytes, Piece.bytes, List.append_assoc, List.append_assoc] at equal
          obtain ⟨kinds, headers, payloads, later⟩ := Form.unique
            (reads piece List.mem_cons_self) (readsOthers other List.mem_cons_self) equal
          have same : piece = other := by
            cases piece
            cases other
            simp only [Piece.mk.injEq]
            exact ⟨kinds, headers, payloads⟩
          rw [same, induction (Nat.succ.inj length)
            (fun item member => reads item (List.mem_cons_of_mem piece member))
            (fun item member => readsOthers item (List.mem_cons_of_mem other member)) later]

theorem Layout.unique {layout other : Layout} (accepted : layout.Accepted width)
    (otherAccepted : other.Accepted width) (equal : layout.bytes = other.bytes) :
    layout = other := by
  have lists := (List.cons.inj equal).2
  obtain ⟨_, headers, payloads, trailing⟩ :=
    Form.unique accepted.list otherAccepted.list lists
  have lengths : layout.items.length = other.items.length := rfl
  have items : layout.items = other.items :=
    pieces_unique lengths accepted.reads otherAccepted.reads (congrArg (· ++ []) payloads)
  cases layout
  cases other
  simp only [Layout.items, List.cons.injEq, and_true] at items
  simp only [Layout.mk.injEq]
  exact ⟨headers, items.1, items.2.1, items.2.2.1, items.2.2.2.1, items.2.2.2.2.1,
    items.2.2.2.2.2.1, items.2.2.2.2.2.2.1, items.2.2.2.2.2.2.2.1, items.2.2.2.2.2.2.2.2.1,
    items.2.2.2.2.2.2.2.2.2.1, items.2.2.2.2.2.2.2.2.2.2, trailing⟩

end Unique

end LedgerQrl.Transaction
