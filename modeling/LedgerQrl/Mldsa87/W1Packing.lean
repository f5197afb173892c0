import LedgerQrl.Mldsa87.Frame
import LedgerQrl.Mldsa87.Signing
import LedgerQrl.Mldsa87.Verification

namespace LedgerQrl.Mldsa87

open Foundation Poly InternalStorage

/-! # The three packers of `w1`

`poly_vec_k_pack_w1` stores through a pointer that it moves in every round, the two
copies in `sign.c` write every row at its own offset. -/

/-- The store of one byte, counted from the destination that the caller passed. -/
structure ByteStore where
  offset : ℕ
  byte : UInt8
deriving DecidableEq, Repr

/-- `poly_w1_pack`, through a pointer that is `r` bytes behind the destination. -/
def polyW1PackAt (r : ℕ) (a : Poly) : List ByteStore :=
  (List.range 128).map fun i =>
    { offset := r + i
      byte := u8 (Int.lor (a.coeff (2 * i)) (shl (a.coeff (2 * i + 1)) 4)) }

/-- The rounds of `poly_vec_k_pack_w1` for some rows; `r` is the moved pointer. -/
def packW1Rounds (w1 : PolyVecK) : (rows : List (Fin 8)) → (r : ℕ) → List ByteStore
  | [], _ => []
  | i :: rows, r =>
      let r := r + i * 128
      polyW1PackAt r w1[i] ++ packW1Rounds w1 rows r

/-- `poly_vec_k_pack_w1`: the stores of a call that returns 0; nothing is stored when it
returns `ERR_INVALID_LENGTH`. -/
def polyVecKPackW1 (rLen : ℕ) (w1 : PolyVecK) : Option (List ByteStore) :=
  if rLen ≠ 8 * 128 then none else some (packW1Rounds w1 (List.finRange 8) 0)

def storedBytes (memory : ℕ → UInt8) (stores : List ByteStore) : ℕ → UInt8 :=
  stores.foldl (fun memory store => Function.update memory store.offset store.byte) memory

/-! ## What the packers are to do -/

def w1Bytes (w1 : PolyVecK) : List UInt8 :=
  (List.finRange 8).flatMap fun i => polyW1Pack w1[i]

def exceptSigStart (storage : InternalStorage) : InternalStorage :=
  { storage with sig := writeBytes 0 (List.replicate 1024 0) storage.sig }

def exceptBufVerify (storage : InternalStorage) : InternalStorage :=
  { storage with pack1 := storage.pack1.set 0 Poly.zero zero_lt_rows }

/-- The signer and the verifier fill their destinations with `bytes` and write to nothing
else, wherever they are stopped. -/
structure VolatilePackersWrite (storage : InternalStorage) (bytes : List UInt8) : Prop where
  signer : ((polyVecKPackW1Volatile w1Region.read).finish storage).sig.toList.take 1024 =
    bytes
  verifier : ((polyVecKPackW1VolatileVerify w1Region.read).finish storage).bufVerify = bytes
  signerInside : ∀ content ∈ (polyVecKPackW1Volatile w1Region.read).visited storage,
    exceptSigStart content = exceptSigStart storage
  verifierInside : ∀ content ∈ (polyVecKPackW1VolatileVerify w1Region.read).visited storage,
    exceptBufVerify content = exceptBufVerify storage

def FourBits (w1 : PolyVecK) : Prop :=
  ∀ i : Fin 8, ∀ n < 256, 0 ≤ w1[i].coeff n ∧ w1[i].coeff n < 16

/-- The plain packer stores the rows of `w1` into the 1024 bytes of its destination, row `i`
at `128 * i`, as the two others do, and other rows give other bytes. -/
structure W1PackersAgree (memory : ℕ → UInt8) (storage : InternalStorage)
    (stores : List ByteStore) : Prop where
  accepted : polyVecKPackW1 1024 storage.w1 = some stores
  inside : ∀ store ∈ stores, store.offset < 1024
  rows : ∀ i : Fin 8, ∀ j < 128,
    storedBytes memory stores (128 * i + j) = (polyW1Pack storage.w1[i]).getD j 0
  same : VolatilePackersWrite storage ((List.range 1024).map (storedBytes memory stores))
  distinct : ∀ (other : PolyVecK) (stores' : List ByteStore), FourBits other →
    polyVecKPackW1 1024 other = some stores' →
      (∀ n < 1024, storedBytes memory stores' n = storedBytes memory stores n) →
        other = storage.w1

section Rows

variable (memory : ℕ → UInt8)

theorem storedBytes_append (first second : List ByteStore) :
    storedBytes memory (first ++ second) =
      storedBytes (storedBytes memory first) second :=
  List.foldl_append

theorem storedBytes_polyW1PackAt (r : ℕ) (a : Poly) (n : ℕ) :
    storedBytes memory (polyW1PackAt r a) n =
      if r ≤ n ∧ n < r + 128 then (polyW1Pack a).getD (n - r) 0 else memory n := by
  have prefixes : ∀ count ≤ 128, storedBytes memory ((polyW1PackAt r a).take count) n =
      if r ≤ n ∧ n < r + count then (polyW1Pack a).getD (n - r) 0 else memory n := by
    intro count
    induction count with
    | zero =>
        intro _
        rw [if_neg (by omega)]
        rfl
    | succ count induction =>
        intro within
        have inside : count < (polyW1PackAt r a).length := by
          rw [polyW1PackAt, List.length_map, List.length_range]
          exact within
        have last : (polyW1PackAt r a)[count] =
            { offset := r + count, byte := (polyW1Pack a).getD count 0 } := by
          simp [polyW1PackAt, polyW1Pack, Nat.lt_of_succ_le within]
        rw [List.take_succ_eq_append_getElem inside, storedBytes_append, last]
        change Function.update _ (r + count) _ n = _
        by_cases here : n = r + count
        · subst here
          rw [Function.update_self, if_pos (by omega), Nat.add_sub_cancel_left]
        · rw [Function.update_of_ne here, induction (by omega)]
          congr 1
          apply propext
          omega
  have whole := prefixes 128 le_rfl
  rwa [List.take_of_length_le (by simp [polyW1PackAt])] at whole

section Disjoint

variable {rows : ℕ} (start : Fin rows → ℕ) (row : Fin rows → Poly)

theorem storedBytes_outside {n : ℕ} : ∀ (indices : List (Fin rows)) (memory : ℕ → UInt8),
    (∀ i ∈ indices, n < start i ∨ start i + 128 ≤ n) →
      storedBytes memory (indices.flatMap fun i => polyW1PackAt (start i) (row i)) n =
        memory n := by
  intro indices
  induction indices with
  | nil => exact fun _ _ => rfl
  | cons i rest induction =>
      intro memory outside
      rw [List.flatMap_cons, storedBytes_append,
        induction _ fun k member => outside k (List.mem_cons_of_mem i member),
        storedBytes_polyW1PackAt, if_neg]
      have away := outside i List.mem_cons_self
      omega

theorem storedBytes_row
    (disjoint : ∀ i k, i ≠ k → start i + 128 ≤ start k ∨ start k + 128 ≤ start i)
    {i : Fin rows} {j : ℕ} (bound : j < 128) :
    ∀ (indices : List (Fin rows)) (memory : ℕ → UInt8), indices.Nodup → i ∈ indices →
      storedBytes memory (indices.flatMap fun i => polyW1PackAt (start i) (row i))
        (start i + j) = (polyW1Pack (row i)).getD j 0 := by
  intro indices
  induction indices with
  | nil => exact fun _ _ member => absurd member List.not_mem_nil
  | cons k rest induction =>
      intro memory once member
      have split := List.nodup_cons.mp once
      rw [List.flatMap_cons, storedBytes_append]
      rcases List.mem_cons.mp member with first | behind
      · subst first
        rw [storedBytes_outside start row rest]
        · rw [storedBytes_polyW1PackAt, if_pos (by omega), Nat.add_sub_cancel_left]
        · intro k later
          have different : i ≠ k := fun same => split.1 (same ▸ later)
          rcases disjoint i k different with below | above
          · exact .inl (by omega)
          · exact .inr (by omega)
      · exact induction _ split.2 behind

end Disjoint

end Rows

/-! ## The plain packer -/

/-- Where the plain packer stores row `i`: its pointer has moved by all offsets up to `i`. -/
def rowStart (i : Fin 8) : ℕ := 64 * (i.val * (i.val + 1))

def w1Stores (w1 : PolyVecK) : List ByteStore :=
  (List.finRange 8).flatMap fun i => polyW1PackAt (rowStart i) w1[i]

section Plain

variable (memory : ℕ → UInt8) (w1 : PolyVecK)

theorem polyVecKPackW1_eq : polyVecKPackW1 1024 w1 = some (w1Stores w1) := by
  rw [polyVecKPackW1, if_neg (by norm_num)]
  rfl

theorem rowStart_disjoint (i k : Fin 8) (different : i ≠ k) :
    rowStart i + 128 ≤ rowStart k ∨ rowStart k + 128 ≤ rowStart i := by
  revert i k
  decide

theorem storedBytes_w1Stores (i : Fin 8) {j : ℕ} (bound : j < 128) :
    storedBytes memory (w1Stores w1) (rowStart i + j) = (polyW1Pack w1[i]).getD j 0 :=
  storedBytes_row rowStart (fun i => w1[i]) rowStart_disjoint bound _ memory
    (List.nodup_finRange 8) (List.mem_finRange i)

theorem storedBytes_w1Stores_outside {n : ℕ}
    (outside : ∀ i, n < rowStart i ∨ rowStart i + 128 ≤ n) :
    storedBytes memory (w1Stores w1) n = memory n :=
  storedBytes_outside rowStart (fun i => w1[i]) _ memory fun i _ => outside i

/-- Row 4 is stored behind the destination. -/
theorem exists_store_outside : ∃ store ∈ w1Stores w1, 1024 ≤ store.offset := by
  refine ⟨⟨rowStart 4 + 0, _⟩, List.mem_flatMap.mpr ⟨4, List.mem_finRange 4,
    List.mem_map.mpr ⟨0, List.mem_range.mpr (by norm_num), rfl⟩⟩, ?_⟩
  exact (show 1024 ≤ rowStart 4 + 0 by decide)

theorem not_w1PackersAgree (storage : InternalStorage) :
    ¬ ∃ stores, W1PackersAgree memory storage stores := by
  rintro ⟨stores, agree⟩
  have accepted := agree.accepted
  rw [polyVecKPackW1_eq] at accepted
  cases accepted
  obtain ⟨store, member, outside⟩ := exists_store_outside storage.w1
  exact Nat.not_lt.mpr outside (agree.inside store member)

end Plain

/-! ## The copies of `sign.c` -/

section Volatile

theorem length_w1Bytes (w1 : PolyVecK) : (w1Bytes w1).length = 1024 := by
  rw [w1Bytes, length_flatMap_rows fun i => length_polyW1Pack w1[i], List.length_finRange]

theorem row_w1Bytes (w1 : PolyVecK) (i : Fin 8) :
    ((w1Bytes w1).drop (128 * i)).take 128 = polyW1Pack w1[i] := by
  obtain ⟨rest, split⟩ := drop_flatMap_rows (fun i : Fin 8 => length_polyW1Pack w1[i]) i
  rw [w1Bytes, Nat.mul_comm, split]
  exact List.take_left' (length_polyW1Pack _)

/-- A write over the start hides what was written there. -/
theorem writeBytes_start {size offset : ℕ} {blank bytes : List UInt8}
    (inside : offset + bytes.length ≤ blank.length) (content : Vector UInt8 size) :
    writeBytes 0 blank (writeBytes offset bytes content) = writeBytes 0 blank content := by
  ext1 index bound
  rw [getElem_writeBytes _ _ _ bound, getElem_writeBytes _ _ _ bound,
    getElem_writeBytes _ _ _ bound]
  rcases Nat.lt_or_ge index blank.length with covered | behind
  · simp [covered]
  · simp [show bytes.length ≤ index - offset by omega]

theorem keeps_exceptSigStart :
    Keeps exceptSigStart (polyVecKPackW1Volatile w1Region.read) := by
  apply keeps_forRows
  intro i
  apply keeps_update
  intro storage
  have inside : i * 128 + (polyW1Pack (w1Region.read storage)[i]).length ≤
      (List.replicate 1024 (0 : UInt8)).length := by
    rw [length_polyW1Pack, List.length_replicate]
    omega
  simp only [exceptSigStart, writeBytes_start inside]

theorem keeps_exceptBufVerify :
    Keeps exceptBufVerify (polyVecKPackW1VolatileVerify w1Region.read) := by
  apply keeps_forRows
  intro i
  apply keeps_update
  intro storage
  simp [exceptBufVerify]

theorem volatilePackersWrite (storage : InternalStorage) :
    VolatilePackersWrite storage (w1Bytes storage.w1) where
  signer := by
    rw [finish_polyVecKPackW1Volatile]
    have within : (w1Bytes storage.w1).length ≤ 4627 := by
      rw [length_w1Bytes]
      norm_num
    have start := take_writeBytes within storage.sig
    rwa [length_w1Bytes] at start
  verifier := bufVerify_packW1 storage
  signerInside _ member := keeps_exceptSigStart.visited member
  verifierInside _ member := keeps_exceptBufVerify.visited member

theorem w1Bytes_inj {left right : PolyVecK} (leftRange : FourBits left)
    (rightRange : FourBits right) (equal : w1Bytes left = w1Bytes right) : left = right := by
  apply Vector.ext
  intro i bound
  apply Poly.ext_coeff
  intro n inside
  have rows : polyW1Pack left[i] = polyW1Pack right[i] := by
    have first := row_w1Bytes left ⟨i, bound⟩
    have second := row_w1Bytes right ⟨i, bound⟩
    rw [equal] at first
    exact first.symm.trans second
  have leftRow : ∀ n < 256, 0 ≤ left[i].coeff n ∧ left[i].coeff n < 16 :=
    leftRange ⟨i, bound⟩
  have rightRow : ∀ n < 256, 0 ≤ right[i].coeff n ∧ right[i].coeff n < 16 :=
    rightRange ⟨i, bound⟩
  have positive : 0 < 16 := by norm_num
  rw [polyW1Pack_eq leftRow, polyW1Pack_eq rightRow] at rows
  have fields := congrArg (fun bytes => bitField 4 bytes n) rows
  rw [bitField_bitPack (toNat_coeff_lt positive leftRow) (by norm_num) inside,
    bitField_bitPack (toNat_coeff_lt positive rightRow) (by norm_num) inside] at fields
  have leftNonneg := leftRow n inside
  have rightNonneg := rightRow n inside
  omega

end Volatile

theorem fourBits_zeroed : FourBits InternalStorage.zeroed.w1 := by
  intro i n bound
  have zero : InternalStorage.zeroed.w1[i].coeff n = 0 := by
    simp only [InternalStorage.zeroed, getElem_index, Vector.getElem_replicate]
    simp [Poly.zero, coeff, bound]
  rw [zero]
  decide

/-- The plain packer never agrees with the two others: it stores row `i` at
`64 * i * (i + 1)`, which is behind the destination from row 4 on, and leaves the bytes in
between. The two others write the rows of `w1` to their places and nothing else, and these
bytes determine `w1`. -/
theorem polyVecKPackW1_strays (memory : ℕ → UInt8) (storage : InternalStorage)
    (fourBits : FourBits storage.w1) :
    (¬ ∃ stores, W1PackersAgree memory storage stores) ∧
      (∃ stores, polyVecKPackW1 1024 storage.w1 = some stores ∧
        (∀ i : Fin 8, ∀ j < 128, storedBytes memory stores (rowStart i + j) =
          (polyW1Pack storage.w1[i]).getD j 0) ∧
        ∀ n : ℕ, (∀ i : Fin 8, n < rowStart i ∨ rowStart i + 128 ≤ n) →
          storedBytes memory stores n = memory n) ∧
      ∃ bytes, VolatilePackersWrite storage bytes ∧ bytes.length = 1024 ∧
        (∀ i : Fin 8, (bytes.drop (128 * i)).take 128 = polyW1Pack storage.w1[i]) ∧
        ∀ other : InternalStorage, FourBits other.w1 → VolatilePackersWrite other bytes →
          other.w1 = storage.w1 := by
  refine ⟨not_w1PackersAgree memory storage, ⟨_, polyVecKPackW1_eq storage.w1,
    fun i j bound => storedBytes_w1Stores memory storage.w1 i bound,
    fun n outside => storedBytes_w1Stores_outside memory storage.w1 outside⟩,
    w1Bytes storage.w1, volatilePackersWrite storage, length_w1Bytes _, row_w1Bytes _, ?_⟩
  intro other otherBits writes
  have bytes := (volatilePackersWrite other).verifier.symm.trans writes.verifier
  exact w1Bytes_inj otherBits fourBits bytes

/-- The third eighth of the destination stays as it was when the zero vector is packed. -/
theorem polyVecKPackW1_strays_zeroed :
    (¬ ∃ stores, W1PackersAgree (fun _ => 0xff) .zeroed stores) ∧
      ∃ stores, polyVecKPackW1 1024 InternalStorage.zeroed.w1 = some stores ∧
        storedBytes (fun _ => 0xff) stores 256 = 0xff := by
  obtain ⟨disagree, ⟨stores, accepted, _, left⟩, _⟩ :=
    polyVecKPackW1_strays (fun _ => 0xff) .zeroed fourBits_zeroed
  exact ⟨disagree, stores, accepted, left 256 (by decide)⟩

/-- Packing the zero vector stores a byte behind the destination. -/
theorem polyVecKPackW1_overruns :
    ¬ ∀ (memory : ℕ → UInt8) (storage : InternalStorage), FourBits storage.w1 →
      ∃ stores, W1PackersAgree memory storage stores := by
  intro agree
  exact not_w1PackersAgree (fun _ => 0) .zeroed (agree _ .zeroed fourBits_zeroed)

end LedgerQrl.Mldsa87
