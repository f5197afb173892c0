import LedgerQrl.Transaction.RlpItem

namespace LedgerQrl.Transaction

open Foundation Rlp

/-! # The walk over the eleven items

Each parser of an item takes the item at the cursor and leaves the cursor
behind it. -/

/-- From one cursor to the next over an item. -/
structure Step (width : ℕ) (rlp : List UInt8) (cursor : Cursor) (piece : Piece)
    (next : Cursor) : Prop where
  reads : piece.Reads width
  start : rlp.drop cursor.p = piece.bytes ++ rlp.drop next.p
  position : next.p = cursor.p + piece.bytes.length
  counted : next.p + next.remaining = rlp.length

/-- The remaining length is that of the bytes from `p` on. -/
def Cursor.Counts (rlp : List UInt8) (cursor : Cursor) : Prop :=
  cursor.p + cursor.remaining = rlp.length

/-- A result for the item at the cursor, and the cursor behind it. -/
def Takes {Result : Type} (width : ℕ) (rlp : List UInt8) (cursor : Cursor)
    (admits : Piece → Result → Prop) (result : Result × Cursor) : Prop :=
  ∃ piece, Step width rlp cursor piece result.2 ∧ admits piece result.1

section Steps

variable {width : ℕ} {rlp : List UInt8} {cursor next : Cursor} {piece : Piece}

theorem Step.unique {other : Piece} {next' : Cursor}
    (step : Step width rlp cursor piece next) (step' : Step width rlp cursor other next') :
    piece = other ∧ next = next' := by
  have same := step.start.symm.trans step'.start
  rw [Piece.bytes, Piece.bytes, List.append_assoc, List.append_assoc] at same
  have pieces : piece = other := by
    obtain ⟨kinds, headers, payloads, _⟩ := Form.unique step.reads step'.reads same
    cases piece
    cases other
    simp only [Piece.mk.injEq]
    exact ⟨kinds, headers, payloads⟩
  have positions := step.position
  rw [pieces, ← step'.position] at positions
  have counted := step.counted
  have counted' := step'.counted
  refine ⟨pieces, ?_⟩
  cases next
  cases next'
  simp only [Cursor.mk.injEq] at *
  omega

theorem Step.of_drop (counts : cursor.Counts rlp) (reads : piece.Reads width)
    {rest : List UInt8} (start : rlp.drop cursor.p = piece.bytes ++ rest) :
    Step width rlp cursor piece
      ⟨cursor.p + piece.bytes.length, cursor.remaining - piece.bytes.length⟩ := by
  have length := congrArg List.length start
  have counted : cursor.p + cursor.remaining = rlp.length := counts
  rw [List.length_drop, List.length_append] at length
  refine ⟨reads, ?_, rfl, ?_⟩
  · rw [← List.drop_drop, start, List.drop_left]
  · simp only
    omega

theorem advance_eq (step : Step width rlp cursor piece next)
    (counts : cursor.Counts rlp) :
    cursor.advance (piece.parsed cursor.p) = .ok next := by
  have counted : cursor.p + cursor.remaining = rlp.length := counts
  have position := step.position
  have counted' := step.counted
  have size : (piece.parsed cursor.p).consumed.toNat = piece.bytes.length := by
    rw [Piece.length_bytes]
    exact Int.toNat_natCast _
  rw [Cursor.advance, size, sizeSub_of_le (by omega), ok_bind]
  cases next
  simp only [pure, Except.pure, Except.ok.injEq, Cursor.mk.injEq] at *
  omega

variable (octets : 8 ≤ width) (bound : rlp.length < 2147483648)
  (counts : cursor.Counts rlp)

include octets bound counts

theorem decides_parseField :
    Decides .reject (parseField width rlp cursor)
      (fun item => ∃ piece next, Step width rlp cursor piece next ∧
        item = piece.parsed cursor.p) := by
  have nonneg : ∀ item : RlpItem,
      (∃ piece rest, rlp.drop cursor.p = Piece.bytes piece ++ rest ∧
        piece.Reads width ∧ item = piece.parsed cursor.p) →
      Decides .reject (rejectIf (item.consumed < 0) >>= fun _ => pure item)
        (fun result => result = item) := by
    rintro item ⟨piece, rest, _, _, rfl⟩
    have positive : ¬ (piece.parsed cursor.p).consumed < 0 := by
      have cast := Int.natCast_nonneg (piece.header.length + piece.payload.length)
      rw [Piece.parsed]
      exact not_lt.mpr cast
    rw [rejectIf_false positive, ok_bind]
    exact Decides.pure _
  refine ((decides_parseRlpItem octets counts bound).bind nonneg).congr ?_
  intro item
  constructor
  · rintro ⟨_, ⟨piece, rest, start, reads, rfl⟩, rfl⟩
    exact ⟨piece, _, Step.of_drop counts reads start, rfl⟩
  · rintro ⟨piece, next, step, rfl⟩
    exact ⟨_, ⟨piece, _, step.start, step.reads, rfl⟩, rfl⟩

theorem decides_item {Result : Type} (check : RlpItem → Checked Result)
    (admits : Piece → Result → Prop)
    (each : ∀ piece next, Step width rlp cursor piece next →
      Decides .reject (check (piece.parsed cursor.p)) (admits piece)) :
    Decides .reject
      (parseField width rlp cursor >>= fun item => check item >>= fun result =>
        cursor.advance item >>= fun next => pure (result, next))
      (Takes width rlp cursor admits) := by
  have taken : ∀ item : RlpItem,
      (∃ piece next, Step width rlp cursor piece next ∧ item = piece.parsed cursor.p) →
      Decides .reject (check item >>= fun result =>
          cursor.advance item >>= fun next => pure (result, next))
        (fun result => ∃ piece, item = piece.parsed cursor.p ∧
          Step width rlp cursor piece result.2 ∧ admits piece result.1) := by
    rintro item ⟨piece, next, step, rfl⟩
    have stepped : ∀ result : Result, admits piece result →
        Decides .reject (cursor.advance (piece.parsed cursor.p) >>= fun next =>
          pure (result, next)) (fun after => after = (result, next)) := by
      intro result _
      rw [advance_eq step counts, ok_bind]
      exact Decides.pure _
    refine ((each piece next step).bind stepped).congr ?_
    intro after
    constructor
    · rintro ⟨result, admitted, rfl⟩
      exact ⟨piece, rfl, step, admitted⟩
    · rintro ⟨other, _, step', admitted⟩
      obtain ⟨rfl, rfl⟩ := step.unique step'
      exact ⟨after.1, admitted, rfl⟩
  refine ((decides_parseField octets bound counts).bind taken).congr ?_
  intro result
  constructor
  · rintro ⟨_, _, piece, _, step, admitted⟩
    exact ⟨piece, step, admitted⟩
  · rintro ⟨piece, step, admitted⟩
    exact ⟨piece.parsed cursor.p, ⟨piece, _, step, rfl⟩, piece, rfl, step, admitted⟩

omit octets bound counts in
theorem Step.payload_start (step : Step width rlp cursor piece next) :
    rlp.drop (piece.parsed cursor.p).outData = piece.payload ++ rlp.drop next.p := by
  have start := step.start
  rw [Piece.bytes, List.append_assoc] at start
  change rlp.drop (cursor.p + piece.header.length) = _
  rw [← List.drop_drop, start, List.drop_left]

omit octets bound counts in
/-- The payload lies inside of the input. -/
theorem Step.readBytes_eq (step : Step width rlp cursor piece next) :
    readBytes rlp (piece.parsed cursor.p).outData (piece.parsed cursor.p).outLen =
      .ok piece.payload := by
  apply readBytes_of_drop step.payload_start
  have position := step.position
  have counted := step.counted
  rw [Piece.length_bytes] at position
  change cursor.p + piece.header.length ≤ rlp.length
  omega

omit octets bound counts in
theorem Step.rejectLeadingZero_eq (step : Step width rlp cursor piece next) :
    rejectLeadingZero rlp (piece.parsed cursor.p) =
      rejectIf (piece.payload.head? = some 0) := by
  have payload := step.payload_start
  have outLen : (piece.parsed cursor.p).outLen = piece.payload.length := rfl
  rw [rejectLeadingZero, outLen]
  cases found : piece.payload with
  | nil => rfl
  | cons leading rest =>
      rw [found, List.cons_append] at payload
      have zero : leading.toNat = 0 ↔ (leading :: rest).head? = some 0 := by
        rw [List.head?_cons, Option.some.injEq, ← UInt8.toNat_inj]
        rfl
      rw [if_pos (by simp), readByte_of_drop payload, ok_bind]
      simp only [zero]

omit octets bound counts in
theorem decides_rejectIf {Result : Type} {condition : Prop} [Decidable condition]
    {next : Checked Result} {holds : Result → Prop}
    (decides : ¬ condition → Decides .reject next holds) :
    Decides .reject (rejectIf condition >>= fun _ => next)
      (fun result => ¬ condition ∧ holds result) := by
  by_cases refused : condition
  · rw [rejectIf_true refused, error_bind]
    exact ⟨rfl, fun result both => both.1 refused⟩
  · rw [rejectIf_false refused, ok_bind]
    exact (decides refused).congr fun result => ⟨fun found => ⟨refused, found⟩, And.right⟩

omit octets bound counts in
theorem decides_copy {size : ℕ} (field : Field size) {bytes : List UInt8}
    (fits : bytes.length ≤ size) :
    Decides .reject (field.copy bytes) (fun result => field.copy bytes = .ok result) := by
  rw [Field.copy, dif_pos fits]
  intro other
  exact ⟨fun equal => (Except.ok.inj equal).symm, fun equal => congrArg Except.ok equal.symm⟩

structure Integer (limit : ℕ) (bytes : List UInt8) : Prop where
  length : bytes.length ≤ limit
  leading : bytes.head? ≠ some 0

theorem decides_parseInteger {limit size : ℕ} (fits : limit ≤ size) (field : Field size) :
    Decides .reject (parseInteger width rlp cursor limit field)
      (Takes width rlp cursor fun piece result =>
        Integer limit piece.payload ∧ field.copy piece.payload = .ok result) := by
  have taken := decides_item octets bound counts
    (fun item => rejectIf (item.outLen > limit) >>= fun _ =>
      rejectLeadingZero rlp item >>= fun _ =>
        readBytes rlp item.outData item.outLen >>= field.copy)
    (fun piece result => ¬ piece.payload.length > limit ∧
      ¬ piece.payload.head? = some 0 ∧ field.copy piece.payload = .ok result) (by
    intro piece next step
    rw [step.rejectLeadingZero_eq, step.readBytes_eq]
    apply decides_rejectIf
    intro small
    have length : ¬ piece.payload.length > limit := small
    exact decides_rejectIf fun _ => decides_copy field (by omega))
  simp only [bind_assoc] at taken
  refine taken.congr fun result => ?_
  constructor
  · rintro ⟨piece, step, small, leading, copied⟩
    exact ⟨piece, step, ⟨not_lt.mp small, leading⟩, copied⟩
  · rintro ⟨piece, step, integer, copied⟩
    exact ⟨piece, step, not_lt.mpr integer.length, integer.leading, copied⟩

def addressOf (payload : List UInt8) : Vector UInt8 addressLength :=
  Vector.ofFn fun i => (payload[i.val]?).getD 0

theorem decides_parseTo :
    Decides .reject (parseTo width rlp cursor)
      (Takes width rlp cursor fun piece result =>
        (piece.payload.length = addressLength ∨ piece.payload = []) ∧
          result = addressOf piece.payload) := by
  have taken := decides_item octets bound counts
    (fun item => rejectIf (item.outLen ≠ addressLength ∧ item.outLen ≠ 0) >>= fun _ =>
      readBytes rlp item.outData item.outLen >>= fun bytes => .ok (addressOf bytes))
    (fun piece result => ¬ (piece.payload.length ≠ addressLength ∧
      piece.payload.length ≠ 0) ∧ result = addressOf piece.payload) (by
    intro piece next step
    rw [step.readBytes_eq, ok_bind]
    exact decides_rejectIf fun _ => Decides.pure _)
  simp only [bind_assoc, ok_bind] at taken
  refine taken.congr fun result => ?_
  have lengths : ∀ piece : Piece,
      ¬ (piece.payload.length ≠ addressLength ∧ piece.payload.length ≠ 0) ↔
        piece.payload.length = addressLength ∨ piece.payload = [] := by
    intro piece
    rw [← List.length_eq_zero_iff, not_and_or, not_not, not_not]
  simp only [Takes, lengths]

/-- Items 8 and 9: the kind of the item is tested on its first byte. -/
theorem decides_kindTested (refused : ℕ → Prop) [DecidablePred refused] {wanted : Kind}
    (means : ∀ (kind : Kind) (first : ℕ), (kind = .list ↔ 0xc0 ≤ first) →
      (refused first ↔ kind ≠ wanted)) :
    Decides .reject
      (rejectIf (cursor.remaining = 0) >>= fun _ =>
        readByte rlp cursor.p >>= fun first =>
          rejectIf (refused first) >>= fun _ =>
            parseField width rlp cursor >>= fun item =>
              cursor.advance item >>= fun next => pure (item.outLen != 0, next))
      (Takes width rlp cursor fun piece result =>
        piece.kind = wanted ∧ result = (piece.payload.length != 0)) := by
  have counted : cursor.p + cursor.remaining = rlp.length := counts
  have taken := decides_item octets bound counts (fun item => .ok (item.outLen != 0))
    (fun piece result => result = (piece.payload.length != 0))
    (fun piece next _ => Decides.pure _)
  simp only [ok_bind] at taken
  cases start : rlp.drop cursor.p with
  | nil =>
      have none : ∀ piece next, ¬ Step width rlp cursor piece next := by
        intro piece next step
        have empty := step.start.symm.trans start
        rw [Piece.bytes, List.append_eq_nil_iff] at empty
        exact Form.nonempty step.reads empty.1
      have length := congrArg List.length start
      rw [List.length_drop, List.length_nil] at length
      rw [rejectIf_true (by omega), error_bind]
      refine ⟨rfl, ?_⟩
      rintro result ⟨piece, step, -⟩
      exact none piece _ step
  | cons first rest =>
      have length := congrArg List.length start
      rw [List.length_drop, List.length_cons] at length
      rw [rejectIf_false (by omega), ok_bind, readByte_of_drop start, ok_bind]
      have kinds : ∀ piece next, Step width rlp cursor piece next →
          (refused first.toNat ↔ piece.kind ≠ wanted) := by
        intro piece next step
        have parts : piece.header ++ (piece.payload ++ rlp.drop next.p) = first :: rest := by
          rw [← start, step.start, Piece.bytes, List.append_assoc]
        exact means _ _ (Form.list_iff step.reads parts)
      refine (decides_rejectIf fun _ => taken).congr fun result => ?_
      constructor
      · rintro ⟨admitted, piece, step, value⟩
        rw [kinds piece _ step, not_not] at admitted
        exact ⟨piece, step, admitted, value⟩
      · rintro ⟨piece, step, kind, value⟩
        refine ⟨?_, piece, step, value⟩
        rw [kinds piece _ step, not_not]
        exact kind

theorem decides_parseData :
    Decides .reject (parseData width rlp cursor)
      (Takes width rlp cursor fun piece result =>
        piece.kind = .string ∧ result = (piece.payload.length != 0)) := by
  apply decides_kindTested octets bound counts fun first => first ≥ 0xc0
  intro kind first means
  cases kind with
  | string => simpa using means
  | list => simpa using means

theorem decides_parseAccessList :
    Decides .reject (parseAccessList width rlp cursor)
      (Takes width rlp cursor fun piece result =>
        piece.kind = .list ∧ result = (piece.payload.length != 0)) := by
  apply decides_kindTested octets bound counts fun first => first < 0xc0
  intro kind first means
  cases kind with
  | string => simpa using means
  | list => simpa using means

theorem decides_parseDescriptor (field : Field 3) :
    Decides .reject (parseDescriptor width rlp cursor field)
      (Takes width rlp cursor fun piece result =>
        piece.payload = [1, 0, 0] ∧ field.copy piece.payload = .ok result) := by
  have taken := decides_item octets bound counts
    (fun item => rejectIf (item.outLen ≠ 3) >>= fun _ =>
      readByte rlp item.outData >>= fun walletType =>
        rejectIf (walletType ≠ 1) >>= fun _ =>
          readByte rlp (item.outData + 1) >>= fun second =>
            rejectIf (second ≠ 0) >>= fun _ =>
              readByte rlp (item.outData + 2) >>= fun third =>
                rejectIf (third ≠ 0) >>= fun _ =>
                  readBytes rlp item.outData item.outLen >>= field.copy)
    (fun piece result => piece.payload = [1, 0, 0] ∧ field.copy piece.payload = .ok result) (by
    intro piece next step
    have start := step.payload_start
    have copied := step.readBytes_eq
    have outLen : (piece.parsed cursor.p).outLen = piece.payload.length := rfl
    rw [copied, outLen]
    generalize (piece.parsed cursor.p).outData = p at start ⊢
    generalize piece.payload = payload at start ⊢
    by_cases three : payload.length = 3
    · obtain ⟨walletType, second, third, rfl⟩ := List.length_eq_three.mp three
      have first : readByte rlp p = .ok walletType.toNat := readByte_of_drop start
      have next : readByte rlp (p + 1) = .ok second.toNat := by
        apply readByte_of_drop
        rw [← List.drop_drop, start]
        rfl
      have last : readByte rlp (p + 2) = .ok third.toNat := by
        apply readByte_of_drop
        rw [← List.drop_drop, start]
        rfl
      rw [rejectIf_false (not_not.mpr three), first, next, last]
      simp only [ok_bind]
      refine (decides_rejectIf fun _ => decides_rejectIf fun _ => decides_rejectIf fun _ =>
        decides_copy field three.le).congr fun result => ?_
      have values : [walletType, second, third] = [1, 0, 0] ↔
          ¬ walletType.toNat ≠ 1 ∧ ¬ second.toNat ≠ 0 ∧ ¬ third.toNat ≠ 0 := by
        simp only [List.cons.injEq, and_true, not_not, ← UInt8.toNat_inj]
        rfl
      rw [values, and_assoc, and_assoc]
    · rw [rejectIf_true three, error_bind]
      refine ⟨rfl, fun result both => three ?_⟩
      rw [both.1]
      rfl)
  simp only [bind_assoc] at taken
  exact taken

theorem decides_parseExtraParams :
    Decides .reject (parseExtraParams width rlp cursor)
      (fun p => ∃ piece next, Step width rlp cursor piece next ∧ piece.payload = [] ∧
        p = next.p) := by
  have empty : ∀ item : RlpItem,
      (∃ piece next, Step width rlp cursor piece next ∧ item = piece.parsed cursor.p) →
      Decides .reject (rejectIf (item.outLen ≠ 0) >>= fun _ =>
          .ok (cursor.p + item.consumed.toNat))
        (fun p => ¬ item.outLen ≠ 0 ∧ p = cursor.p + item.consumed.toNat) :=
    fun item _ => decides_rejectIf fun _ => Decides.pure _
  refine ((decides_parseField octets bound counts).bind empty).congr fun p => ?_
  have after : ∀ piece next, Step width rlp cursor piece next →
      cursor.p + (piece.parsed cursor.p).consumed.toNat = next.p := by
    intro piece next step
    rw [step.position, Piece.length_bytes]
    congr 1
  constructor
  · rintro ⟨_, ⟨piece, next, step, rfl⟩, none, rfl⟩
    exact ⟨piece, next, step, List.length_eq_zero_iff.mp (not_not.mp none),
      after piece next step⟩
  · rintro ⟨piece, next, step, none, rfl⟩
    refine ⟨_, ⟨piece, next, step, rfl⟩, ?_, (after piece next step).symm⟩
    rw [not_not, Piece.parsed, none]
    rfl

omit counts in
theorem decides_parseListStart (present : 0 < rlp.length) :
    Decides .reject (parseListStart width rlp)
      (fun result => ∃ header payload rest, rlp.drop 1 = header ++ (payload ++ rest) ∧
        Form width .list header payload ∧
        result = (⟨1 + header.length, payload.length + rest.length⟩,
          1 + header.length + payload.length)) := by
  have header := decides_parseRlpListHeader octets (p := 1)
    (show 1 + (rlp.length - 1) = rlp.length by omega) bound
  rw [parseListStart, sizeSub_of_le (by omega), ok_bind]
  have started : ∀ list : RlpListHeader,
      (∃ header payload rest, rlp.drop 1 = header ++ (payload ++ rest) ∧
        Form width .list header payload ∧ list = ⟨payload.length, header.length⟩) →
      Decides .reject
        (sizeSub (rlp.length - 1) list.headerLen >>= fun remaining =>
          rejectIf (list.payloadLen > remaining) >>= fun _ =>
            .ok (⟨1 + list.headerLen, remaining⟩, 1 + list.headerLen + list.payloadLen))
        (fun result => result = ((⟨1 + list.headerLen, rlp.length - 1 - list.headerLen⟩ : Cursor),
          1 + list.headerLen + list.payloadLen)) := by
    rintro list ⟨header, payload, rest, start, form, rfl⟩
    have length := congrArg List.length start
    rw [List.length_drop, List.length_append, List.length_append] at length
    rw [sizeSub_of_le (by simp only; omega), ok_bind, rejectIf_false (by simp only; omega),
      ok_bind]
    exact Decides.pure _
  refine (header.bind started).congr fun result => ?_
  constructor
  · rintro ⟨_, ⟨header, payload, rest, start, form, rfl⟩, rfl⟩
    have length := congrArg List.length start
    rw [List.length_drop, List.length_append, List.length_append] at length
    refine ⟨header, payload, rest, start, form, ?_⟩
    simp only [Prod.mk.injEq, Cursor.mk.injEq, and_true, true_and]
    omega
  · rintro ⟨header, payload, rest, start, form, rfl⟩
    have length := congrArg List.length start
    rw [List.length_drop, List.length_append, List.length_append] at length
    refine ⟨_, ⟨header, payload, rest, start, form, rfl⟩, ?_⟩
    simp only [Prod.mk.injEq, Cursor.mk.injEq, and_true, true_and]
    omega

end Steps

/-! ## Several items -/

/-- From one cursor to another over consecutive items. -/
inductive Walk (width : ℕ) (rlp : List UInt8) : Cursor → List Piece → Cursor → Prop
  | nil (cursor) : Walk width rlp cursor [] cursor
  | cons {cursor next last piece pieces} :
      Step width rlp cursor piece next →
      Walk width rlp next pieces last →
      Walk width rlp cursor (piece :: pieces) last

section Walks

variable {width : ℕ} {rlp : List UInt8} {cursor last : Cursor} {pieces : List Piece}

theorem Walk.start (walk : Walk width rlp cursor pieces last) :
    rlp.drop cursor.p = pieces.flatMap Piece.bytes ++ rlp.drop last.p ∧
      last.p = cursor.p + (pieces.flatMap Piece.bytes).length := by
  induction walk with
  | nil cursor => exact ⟨rfl, rfl⟩
  | cons step walk induction =>
      have position := step.position
      have later := induction.2
      constructor
      · rw [step.start, induction.1, List.flatMap_cons, List.append_assoc]
      · rw [List.flatMap_cons, List.length_append]
        omega

theorem Walk.reads (walk : Walk width rlp cursor pieces last) :
    ∀ piece ∈ pieces, piece.Reads width := by
  induction walk with
  | nil cursor => exact fun piece member => absurd member (by simp)
  | cons step walk induction =>
      intro piece member
      rcases List.mem_cons.mp member with rfl | later
      · exact step.reads
      · exact induction piece later

theorem Walk.of_drop {rest : List UInt8} : ∀ {pieces : List Piece} {cursor : Cursor},
    cursor.Counts rlp → (∀ piece ∈ pieces, piece.Reads width) →
    rlp.drop cursor.p = pieces.flatMap Piece.bytes ++ rest →
      ∃ last, Walk width rlp cursor pieces last := by
  intro pieces
  induction pieces with
  | nil => exact fun _ _ _ => ⟨_, .nil _⟩
  | cons piece pieces induction =>
      intro cursor counts reads start
      rw [List.flatMap_cons, List.append_assoc] at start
      have step := Step.of_drop counts (reads piece List.mem_cons_self) start
      have later : rlp.drop (cursor.p + piece.bytes.length) =
          pieces.flatMap Piece.bytes ++ rest := by
        rw [← List.drop_drop, start, List.drop_left]
      obtain ⟨last, walk⟩ := induction step.counted
        (fun other member => reads other (List.mem_cons_of_mem piece member)) later
      exact ⟨last, .cons step walk⟩

end Walks

end LedgerQrl.Transaction
