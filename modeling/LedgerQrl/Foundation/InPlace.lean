import LedgerQrl.Foundation.Region

namespace LedgerQrl.Foundation

/-! # Working in place

A routine that assigns the cells of a table one after the other may be replaced by one
that prepares each row in a buffer and stores it at once: the store then goes through
fewer contents and ends with the same one. -/

namespace Region

variable {Store Row Low High : Type} {rows : ℕ}

def row (region : Region Store (Vector Row rows)) (index : Fin rows) :
    Region Store Row where
  read store := (region.read store)[index]
  write content := region.setRow index content
  read_write content store := by
    rw [read_setRow]
    exact Vector.getElem_set_self index.isLt
  write_read store := by
    have same : (region.read store).set index (region.read store)[index] index.isLt =
        region.read store := Vector.set_getElem_self index.isLt
    rw [setRow, same, region.write_read]
  write_write first second store := by
    have last : ((region.read store).set index first index.isLt).set index second
        index.isLt = (region.read store).set index second index.isLt :=
      Vector.set_set first index.isLt
    rw [setRow, read_setRow, last, setRow, region.write_write, setRow]

def Disjoint {First Second : Type} (first : Region Store First)
    (second : Region Store Second) : Prop :=
  ∀ content other store, first.write content (second.write other store) =
    second.write other (first.write content store)

section Disjoint

variable {First Second : Type} {first : Region Store First}
  {second : Region Store Second}

theorem Disjoint.symm (disjoint : Disjoint first second) : Disjoint second first :=
  fun content other store => (disjoint other content store).symm

theorem Disjoint.read_write (disjoint : Disjoint first second) (other : Second)
    (store : Store) : first.read (second.write other store) = first.read store := by
  have written := disjoint (first.read store) other store
  rw [first.write_read] at written
  rw [← written, first.read_write]

end Disjoint

variable {high : Region Store (Vector High rows)} {low : Region Store (Vector Low rows)}

theorem Disjoint.row (disjoint : Disjoint high low) (index : Fin rows) :
    Disjoint (high.row index) (low.row index) := by
  intro content other store
  calc high.setRow index content (low.setRow index other store)
      = high.write ((high.read store).set index content index.isLt)
          (low.setRow index other store) := by
        rw [setRow, setRow, disjoint.read_write]
    _ = low.setRow index other (high.setRow index content store) := by
        rw [setRow, setRow, setRow, disjoint, disjoint.symm.read_write]

def pair (high : Region Store (Vector High rows)) (low : Region Store (Vector Low rows))
    (disjoint : Disjoint high low) : Region Store (Vector (High × Low) rows) where
  read store := (high.read store).zip (low.read store)
  write content store := high.write (content.map Prod.fst)
    (low.write (content.map Prod.snd) store)
  read_write content store := by
    rw [high.read_write, disjoint, low.read_write]
    ext index bound <;> simp
  write_read store := by
    have fst : ((high.read store).zip (low.read store)).map Prod.fst = high.read store := by
      ext index bound
      simp
    have snd : ((high.read store).zip (low.read store)).map Prod.snd = low.read store := by
      ext index bound
      simp
    rw [fst, snd, low.write_read, high.write_read]
  write_write first second store := by
    rw [disjoint.symm, high.write_write, low.write_write]

theorem setRow_pair (disjoint : Disjoint high low) (index : Fin rows) (value : High × Low)
    (store : Store) :
    (pair high low disjoint).setRow index value store =
      high.setRow index value.1 (low.setRow index value.2 store) := by
  have fst : (((high.read store).zip (low.read store)).set index value index.isLt).map
      Prod.fst = (high.read store).set index value.1 index.isLt := by
    ext other bound
    by_cases same : index.val = other <;> simp [same]
  have snd : (((high.read store).zip (low.read store)).set index value index.isLt).map
      Prod.snd = (low.read store).set index value.2 index.isLt := by
    ext other bound
    by_cases same : index.val = other <;> simp [same]
  calc (pair high low disjoint).setRow index value store
      = high.write ((((high.read store).zip (low.read store)).set index value
            index.isLt).map Prod.fst)
          (low.write ((((high.read store).zip (low.read store)).set index value
            index.isLt).map Prod.snd) store) := rfl
    _ = high.write ((high.read store).set index value.1 index.isLt)
          (low.setRow index value.2 store) := by
        rw [fst, snd, setRow]
    _ = high.setRow index value.1 (low.setRow index value.2 store) := by
        rw [setRow, setRow, disjoint.read_write]

end Region

namespace Program

variable {Store Result Next : Type}

/-- A program that returns and leaves what another one does. -/
structure EndsAs (program other : Program Store Result) : Prop where
  value : ∀ store, program.value store = other.value store
  finish : ∀ store, program.finish store = other.finish store

/-- A program whose store also goes through contents of the other one only, in the
same order. -/
structure Coarsens (program other : Program Store Result) : Prop
    extends EndsAs program other where
  history : ∀ store, (program.history store).Sublist (other.history store)

section Rules

variable {program other : Program Store Result}

theorem Coarsens.refl (program : Program Store Result) : Coarsens program program where
  value _ := rfl
  finish _ := rfl
  history _ := List.Sublist.refl _

theorem Coarsens.bind {next otherNext : Result → Program Store Next}
    (first : Coarsens program other)
    (rest : ∀ result, Coarsens (next result) (otherNext result)) :
    Coarsens (program >>= next) (other >>= otherNext) where
  value store := by
    rw [value_bind, value_bind, first.value, first.finish, (rest _).value]
  finish store := by
    rw [finish_bind, finish_bind, first.value, first.finish, (rest _).finish]
  history store := by
    rw [history_bind, history_bind, first.value, first.finish]
    exact (first.history store).append ((rest _).history _)

theorem coarsens_forEach {Item : Type} {body other : Item → Program Store Unit}
    (each : ∀ item, Coarsens (body item) (other item)) :
    ∀ items, Coarsens (forEach items body) (forEach items other)
  | [] => Coarsens.refl _
  | item :: rest => (each item).bind fun _ => coarsens_forEach each rest

theorem coarsens_forRows {rows : ℕ} {body other : Fin rows → Program Store Unit}
    (each : ∀ index, Coarsens (body index) (other index)) :
    Coarsens (forRows rows body) (forRows rows other) :=
  coarsens_forEach each _

theorem coarsens_foldlM {Item State : Type}
    {body other : State → Item → Program Store State}
    (each : ∀ state item, Coarsens (body state item) (other state item)) :
    ∀ (items : List Item) state, Coarsens (items.foldlM body state) (items.foldlM other state)
  | [], _ => Coarsens.refl _
  | item :: rest, state => by
      rw [List.foldlM_cons, List.foldlM_cons]
      exact (each state item).bind fun next => coarsens_foldlM each rest next

theorem finish_mem_history {store : Store} (moves : program.history store ≠ []) :
    program.finish store ∈ program.history store := by
  rw [finish, List.getLastD_eq_getLast?, List.getLast?_eq_some_getLast moves]
  exact List.getLast_mem moves

theorem EndsAs.coarsens (ends : EndsAs program other)
    (single : ∀ store, program.history store = [program.finish store])
    (moves : ∀ store, other.history store ≠ []) : Coarsens program other where
  toEndsAs := ends
  history store := by
    rw [single, List.singleton_sublist, ends.finish]
    exact finish_mem_history (moves store)

theorem history_foldlM_ne_nil {Item State : Type} {body : State → Item → Program Store State}
    (each : ∀ state item store, (body state item).history store ≠ [])
    {items : List Item} (nonempty : items ≠ []) (state : State) (store : Store) :
    (items.foldlM body state).history store ≠ [] := by
  cases items with
  | nil => exact absurd rfl nonempty
  | cons item rest =>
      rw [List.foldlM_cons, history_bind]
      exact List.append_ne_nil_of_left_ne_nil (each state item store) _

end Rules

/-! ## The cells of a row -/

section Cells

variable {Cell : Type} {columns : ℕ} (region : Region Store (Vector Cell columns))
  {cell : Fin columns → Store → Cell}

theorem coarsens_cells (nonempty : 0 < columns)
    (own : ∀ column other store value, column ≠ other →
      cell other (region.setRow column value store) = cell other store) :
    Coarsens (update fun store => region.write (Vector.ofFn fun column =>
        cell column store) store)
      (forRows columns fun column => update fun store =>
        region.setRow column (cell column store) store) := by
  apply EndsAs.coarsens
  · exact ⟨fun _ => rfl, fun store =>
      (finish_forRows region cell (fun _ _ => rfl) own store).symm⟩
  · exact fun _ => rfl
  · intro store empty
    have length := length_history_forRows (fun column : Fin columns =>
      update fun store => region.setRow column (cell column store) store)
      (fun _ _ => rfl) store
    rw [empty, List.length_nil, Nat.mul_one] at length
    exact absurd length (Nat.ne_of_lt nonempty)

variable {State : Type} {body : State → Fin columns → Program Store State}
  {advance : State → Cell → State}

/-- What a loop that also keeps a state leaves does not depend on that state. -/
theorem finish_foldlM_cells
    (sets : ∀ state column store, (body state column).finish store =
      region.setRow column (cell column store) store) :
    ∀ (indices : List (Fin columns)) state store,
      (indices.foldlM body state).finish store =
        (forEach indices fun column => update fun store =>
          region.setRow column (cell column store) store).finish store
  | [], _, _ => rfl
  | column :: rest, state, store => by
      rw [List.foldlM_cons, finish_bind, sets, finish_foldlM_cells sets rest,
        finish_forEach_cons, finish_update]

theorem value_foldlM_cells
    (sets : ∀ state column store, (body state column).finish store =
      region.setRow column (cell column store) store)
    (advances : ∀ state column store, (body state column).value store =
      advance state (cell column store))
    (own : ∀ column other store value, column ≠ other →
      cell other (region.setRow column value store) = cell other store) :
    ∀ (indices : List (Fin columns)), indices.Nodup → ∀ state store,
      (indices.foldlM body state).value store =
        indices.foldl (fun state column => advance state (cell column store)) state
  | [], _, _, _ => rfl
  | column :: rest, nodup, state, store => by
      have fresh : column ∉ rest := (List.nodup_cons.mp nodup).1
      rw [List.foldlM_cons, value_bind, sets, advances,
        value_foldlM_cells sets advances own rest (List.nodup_cons.mp nodup).2,
        List.foldl_cons]
      apply List.foldl_ext
      intro state other member
      have different : column ≠ other := fun equal => fresh (equal ▸ member)
      rw [own column other store _ different]

end Cells

end Program

end LedgerQrl.Foundation
