import LedgerQrl.Foundation.Index
import LedgerQrl.Foundation.Program

namespace LedgerQrl.Foundation

/-! # Regions of a store

A pointer argument of the source selects a part of the store that can be read
and replaced on its own. -/

/-- A part of the store, with the laws that make reading and writing it
behave like a field. -/
structure Region (Store Content : Type) where
  read : Store → Content
  write : Content → Store → Store
  read_write : ∀ content store, read (write content store) = content
  write_read : ∀ store, write (read store) store = store
  write_write : ∀ first second store,
    write second (write first store) = write second store

attribute [simp] Region.read_write Region.write_read Region.write_write

namespace Region

variable {Store Row : Type} {rows : Nat}

def setRow (region : Region Store (Vector Row rows)) (index : Fin rows)
    (row : Row) (store : Store) : Store :=
  region.write ((region.read store).set index row index.isLt) store

@[simp] theorem read_setRow (region : Region Store (Vector Row rows))
    (index : Fin rows) (row : Row) (store : Store) :
    region.read (region.setRow index row store) =
      (region.read store).set index row index.isLt :=
  region.read_write _ _

end Region

namespace Program

variable {Store Row : Type} {rows : Nat}

def forRows (rows : Nat) (body : Fin rows → Program Store Unit) :
    Program Store Unit :=
  forEach (List.finRange rows) body

/-- A loop whose round `index` sets row `index` of a region, to a value that
does not depend on the other rows of that region, sets all rows from the
content before the loop. -/
theorem finish_forEach_rows (region : Region Store (Vector Row rows))
    {body : Fin rows → Program Store Unit} (row : Fin rows → Store → Row)
    (sets : ∀ index store,
      (body index).finish store = region.setRow index (row index store) store)
    (own : ∀ index other store value, index ≠ other →
      row other (region.setRow index value store) = row other store) :
    ∀ (indices : List (Fin rows)), indices.Nodup → ∀ store,
      (forEach indices body).finish store =
        region.write (Vector.ofFn fun index =>
          if index ∈ indices then row index store
          else (region.read store)[index]) store
  | [], _, store => by
      have unchanged : (Vector.ofFn fun index : Fin rows =>
          if index ∈ ([] : List (Fin rows)) then row index store
          else (region.read store)[index]) = region.read store := by
        ext index bound
        simp
      rw [unchanged, finish_forEach_nil, region.write_read]
  | first :: rest, nodup, store => by
      have fresh : first ∉ rest := (List.nodup_cons.mp nodup).1
      rw [finish_forEach_cons, sets,
        finish_forEach_rows region row sets own rest
          (List.nodup_cons.mp nodup).2, Region.read_setRow, Region.setRow,
        Region.write_write]
      congr 1
      ext index bound
      simp only [Vector.getElem_ofFn, List.mem_cons]
      by_cases isFirst : (⟨index, bound⟩ : Fin rows) = first
      · subst isFirst
        simp [fresh]
      · have different : first ≠ ⟨index, bound⟩ := fun equal =>
          isFirst equal.symm
        have apart : (first : Nat) ≠ index := fun equal =>
          isFirst (Fin.ext equal.symm)
        by_cases member : (⟨index, bound⟩ : Fin rows) ∈ rest
        · simp only [member, or_true, if_true]
          exact own first _ store _ different
        · simp [isFirst, member, apart]

theorem finish_forRows (region : Region Store (Vector Row rows))
    {body : Fin rows → Program Store Unit} (row : Fin rows → Store → Row)
    (sets : ∀ index store,
      (body index).finish store = region.setRow index (row index store) store)
    (own : ∀ index other store value, index ≠ other →
      row other (region.setRow index value store) = row other store)
    (store : Store) :
    (forRows rows body).finish store =
      region.write (Vector.ofFn fun index => row index store) store := by
  rw [forRows, finish_forEach_rows region row sets own _
    (List.nodup_finRange rows)]
  simp

/-! ## Chunks written one after the other -/

section Chunks

variable {Memory Item Byte : Type} (memory : Region Store Memory)
  (put : Nat → List Byte → Memory → Memory) {size start length : Nat}
  (append : ∀ start before bytes content,
    start + before.length + bytes.length ≤ size →
      put (start + before.length) bytes (put start before content) =
        put start (before ++ bytes) content)
  {position : Item → Nat} {chunk : Item → Store → List Byte}
  (each : ∀ item store, (chunk item store).length = length)
  (own : ∀ item content store,
    chunk item (memory.write content store) = chunk item store)

include append each own

private theorem finish_forEach_append (before : List Byte) (content : Memory)
    (store : Store) : ∀ (items : List Item),
      start + before.length + items.length * length ≤ size →
      (∀ k (bound : k < items.length),
        position items[k] = start + before.length + k * length) →
      (forEach items fun item => update fun store =>
          memory.write (put (position item) (chunk item store)
            (memory.read store)) store).finish
          (memory.write (put start before content) store) =
        memory.write (put start (before ++ items.flatMap fun item =>
          chunk item store) content) store
  | [], _, _ => by simp
  | item :: rest, within, consecutive => by
      have first := consecutive 0 (by simp)
      simp only [List.getElem_cons_zero, Nat.zero_mul, Nat.add_zero] at first
      rw [List.length_cons, Nat.succ_mul] at within
      have chunkLength := each item store
      rw [finish_forEach_cons, finish_update, own, Region.read_write,
        Region.write_write, first, append _ _ _ _ (by omega),
        finish_forEach_append (before ++ chunk item store) content store rest,
        List.flatMap_cons, List.append_assoc]
      · rw [List.length_append]
        omega
      · intro k bound
        have next := consecutive (k + 1) (by simpa using bound)
        rw [List.getElem_cons_succ, Nat.succ_mul] at next
        rw [next, List.length_append, chunkLength]
        omega

/-- A loop that writes chunks of one length at consecutive positions writes
their concatenation. -/
theorem finish_forEach_put (first : Item) (rest : List Item)
    (within : start + (first :: rest).length * length ≤ size)
    (consecutive : ∀ k (bound : k < (first :: rest).length),
      position (first :: rest)[k] = start + k * length) (store : Store) :
    (forEach (first :: rest) fun item => update fun store =>
        memory.write (put (position item) (chunk item store)
          (memory.read store)) store).finish store =
      memory.write (put start ((first :: rest).flatMap fun item =>
        chunk item store) (memory.read store)) store := by
  have firstAt := consecutive 0 (by simp)
  simp only [List.getElem_cons_zero, Nat.zero_mul, Nat.add_zero] at firstAt
  rw [List.length_cons, Nat.succ_mul] at within
  have chunkLength := each first store
  rw [finish_forEach_cons, finish_update, firstAt,
    finish_forEach_append memory put append each own, List.flatMap_cons]
  · omega
  · intro k bound
    have next := consecutive (k + 1) (by simpa using bound)
    rw [List.getElem_cons_succ, Nat.succ_mul] at next
    rw [next, chunkLength]
    omega

omit each own in
theorem finish_forRows_put {rows : Nat} {chunk : Fin (rows + 1) → Store → List Byte}
    (each : ∀ i store, (chunk i store).length = length)
    (own : ∀ i content store,
      chunk i (memory.write content store) = chunk i store)
    (within : start + (rows + 1) * length ≤ size) (store : Store) :
    (forRows (rows + 1) fun i => update fun store =>
        memory.write (put (start + i * length) (chunk i store)
          (memory.read store)) store).finish store =
      memory.write (put start ((List.finRange (rows + 1)).flatMap fun i =>
        chunk i store) (memory.read store)) store := by
  rw [forRows, List.finRange_succ]
  apply finish_forEach_put memory put append each own
  · simpa using within
  · intro k bound
    rw [List.length_cons, List.length_map, List.length_finRange] at bound
    have item : (0 :: (List.finRange rows).map Fin.succ).get
        ⟨k, by simpa using bound⟩ = (⟨k, bound⟩ : Fin (rows + 1)) := by
      have same := List.getElem_finRange (n := rows + 1) (i := k) (by simpa using bound)
      simpa [List.finRange_succ] using same
    rw [List.get_eq_getElem] at item
    rw [item]

end Chunks

theorem length_history_forRows {count : Nat}
    (body : Fin rows → Program Store Unit)
    (each : ∀ index store, ((body index).history store).length = count)
    (store : Store) :
    ((forRows rows body).history store).length = rows * count := by
  rw [forRows, length_history_forEach body each, List.length_finRange]

end Program

end LedgerQrl.Foundation
