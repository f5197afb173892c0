import Mathlib.Data.List.Basic
import Mathlib.Data.List.Chain
import Mathlib.Data.List.FinRange
import Mathlib.Data.List.OfFn

namespace LedgerQrl.Foundation

/-! # Programs over a store that survives interruption

A program updates a store in atomic steps and may be cut off between any two
of them. Its meaning therefore keeps every content the store goes through,
not only the last one. -/

/-- The contents of the store after each atomic update, in order, and the
result when nothing interrupts the program. -/
def Program (Store Result : Type) : Type := Store → List Store × Result

namespace Program

variable {Store Result Next : Type}

/-- The successive contents, the initial one excluded. -/
def history (program : Program Store Result) (store : Store) : List Store :=
  (program store).1

def value (program : Program Store Result) (store : Store) : Result :=
  (program store).2

def finish (program : Program Store Result) (store : Store) : Store :=
  (program.history store).getLastD store

instance : Monad (Program Store) where
  pure result := fun _ => ([], result)
  bind program next := fun store =>
    (program.history store ++
        (next (program.value store)).history (program.finish store),
      (next (program.value store)).value (program.finish store))

def read : Program Store Store := fun store => ([], store)

def update (change : Store → Store) : Program Store Unit :=
  fun store => ([change store], ())

def forEach {Item : Type} : List Item → (Item → Program Store Unit) →
    Program Store Unit
  | [], _ => pure ()
  | item :: rest, body => do
      body item
      forEach rest body

/-! ## What uninterrupted runs leave

These equations are rewritten with, not unfolded: comparing two programs by
evaluation would run them. -/

@[simp] theorem history_pure (result : Result) (store : Store) :
    history (pure result : Program Store Result) store = [] := by
  rfl

@[simp] theorem value_pure (result : Result) (store : Store) :
    value (pure result : Program Store Result) store = result := by
  rfl

@[simp] theorem finish_pure (result : Result) (store : Store) :
    finish (pure result : Program Store Result) store = store := by
  rfl

@[simp] theorem history_read (store : Store) :
    history (read : Program Store Store) store = [] := by
  rfl

@[simp] theorem value_read (store : Store) :
    value (read : Program Store Store) store = store := by
  rfl

@[simp] theorem finish_read (store : Store) :
    finish (read : Program Store Store) store = store := by
  rfl

@[simp] theorem history_update (change : Store → Store) (store : Store) :
    history (update change) store = [change store] := by
  rfl

@[simp] theorem finish_update (change : Store → Store) (store : Store) :
    finish (update change) store = change store := by
  rfl

@[simp] theorem history_bind (program : Program Store Result)
    (next : Result → Program Store Next) (store : Store) :
    history (program >>= next) store =
      program.history store ++
        (next (program.value store)).history (program.finish store) := by
  rfl

@[simp] theorem value_bind (program : Program Store Result)
    (next : Result → Program Store Next) (store : Store) :
    value (program >>= next) store =
      (next (program.value store)).value (program.finish store) := by
  rfl

private theorem getLastD_append (first second : List Store) (store : Store) :
    (first ++ second).getLastD store =
      second.getLastD (first.getLastD store) := by
  simp only [List.getLastD_eq_getLast?, List.getLast?_append]
  cases second.getLast? <;> simp

@[simp] theorem finish_bind (program : Program Store Result)
    (next : Result → Program Store Next) (store : Store) :
    finish (program >>= next) store =
      (next (program.value store)).finish (program.finish store) :=
  getLastD_append _ _ store

instance : LawfulMonad (Program Store) :=
  LawfulMonad.mk' (Program Store)
    (fun program => by
      funext store
      refine Prod.ext ?_ rfl
      change program.history store ++ [] = program.history store
      rw [List.append_nil])
    (fun _ _ => rfl)
    (fun first second third => by
      funext store
      refine Prod.ext ?_ ?_
      · change history (first >>= second >>= third) store =
          history (first >>= fun result => second result >>= third) store
        simp
      · change value (first >>= second >>= third) store =
          value (first >>= fun result => second result >>= third) store
        simp)

@[simp] theorem value_ite (condition : Prop) [Decidable condition]
    (first second : Program Store Result) (store : Store) :
    value (if condition then first else second) store =
      if condition then first.value store else second.value store := by
  split <;> rfl

@[simp] theorem finish_ite (condition : Prop) [Decidable condition]
    (first second : Program Store Result) (store : Store) :
    finish (if condition then first else second) store =
      if condition then first.finish store else second.finish store := by
  split <;> rfl

@[simp] theorem history_forEach_nil {Item : Type}
    (body : Item → Program Store Unit) (store : Store) :
    history (forEach [] body) store = [] := by
  rfl

@[simp] theorem finish_forEach_nil {Item : Type}
    (body : Item → Program Store Unit) (store : Store) :
    finish (forEach [] body) store = store := by
  rfl

theorem history_forEach_cons {Item : Type} (item : Item) (rest : List Item)
    (body : Item → Program Store Unit) (store : Store) :
    history (forEach (item :: rest) body) store =
      (body item).history store ++
        (forEach rest body).history ((body item).finish store) :=
  history_bind _ _ _

theorem finish_forEach_cons {Item : Type} (item : Item) (rest : List Item)
    (body : Item → Program Store Unit) (store : Store) :
    finish (forEach (item :: rest) body) store =
      finish (forEach rest body) ((body item).finish store) :=
  finish_bind _ _ _

theorem length_history_forEach {Item : Type} {count : Nat}
    (body : Item → Program Store Unit)
    (each : ∀ item store, ((body item).history store).length = count) :
    ∀ (items : List Item) (store : Store),
      (history (forEach items body) store).length = items.length * count
  | [], store => by simp
  | item :: rest, store => by
      rw [history_forEach_cons, List.length_append, each,
        length_history_forEach body each rest, List.length_cons, Nat.succ_mul,
        Nat.add_comm]

/-! ## Interruption -/

/-- Every content an interruption can leave behind, the initial one
included. -/
def visited (program : Program Store Result) (store : Store) : List Store :=
  store :: program.history store

/-- The content when the program is stopped after `count` updates; a program
with fewer updates has finished. -/
def stoppedAfter (program : Program Store Result) (store : Store)
    (count : Nat) : Store :=
  ((program.history store).take count).getLastD store

theorem stoppedAfter_of_length_le (program : Program Store Result)
    (store : Store) {count : Nat}
    (enough : (program.history store).length ≤ count) :
    program.stoppedAfter store count = program.finish store := by
  unfold stoppedAfter finish
  rw [List.take_of_length_le enough]

theorem stoppedAfter_mem_visited (program : Program Store Result)
    (store : Store) (count : Nat) :
    program.stoppedAfter store count ∈ program.visited store := by
  unfold stoppedAfter visited
  rw [List.getLastD_eq_getLast?]
  cases last : ((program.history store).take count).getLast? with
  | none => simp
  | some content =>
      have member := List.mem_of_mem_take (List.mem_of_getLast? last)
      simpa using Or.inr member

theorem finish_mem_visited (program : Program Store Result) (store : Store) :
    program.finish store ∈ program.visited store := by
  rw [← stoppedAfter_of_length_le program store (Nat.le_refl _)]
  exact stoppedAfter_mem_visited program store _

theorem mem_visited_bind {program : Program Store Result}
    {next : Result → Program Store Next} {store content : Store} :
    content ∈ (program >>= next).visited store ↔
      content ∈ program.visited store ∨
        content ∈ (next (program.value store)).visited
          (program.finish store) := by
  constructor
  · intro member
    rcases List.mem_cons.mp member with equal | member
    · exact Or.inl (equal ▸ List.mem_cons_self)
    · rw [history_bind] at member
      rcases List.mem_append.mp member with member | member
      · exact Or.inl (List.mem_cons_of_mem _ member)
      · exact Or.inr (List.mem_cons_of_mem _ member)
  · intro member
    rcases member with member | member
    · rcases List.mem_cons.mp member with equal | member
      · exact equal ▸ List.mem_cons_self
      · exact List.mem_cons_of_mem _ (by
          rw [history_bind]
          exact List.mem_append_left _ member)
    · rcases List.mem_cons.mp member with equal | member
      · rcases List.mem_cons.mp (equal ▸ finish_mem_visited program store)
          with equal | member
        · exact equal ▸ List.mem_cons_self
        · exact List.mem_cons_of_mem _ (by
            rw [history_bind]
            exact List.mem_append_left _ member)
      · exact List.mem_cons_of_mem _ (by
          rw [history_bind]
          exact List.mem_append_right _ member)

theorem visited_read_bind {next : Store → Program Store Next} {store : Store} :
    (read >>= next).visited store = (next store).visited store := by
  rw [visited, visited, history_bind, history_read, List.nil_append, value_read, finish_read]

theorem mem_visited_update {change : Store → Store} {store content : Store} :
    content ∈ (update change).visited store ↔ content = store ∨ content = change store := by
  rw [visited, history_update, List.mem_cons, List.mem_singleton]

theorem mem_visited_update_bind {change : Store → Store} {next : Unit → Program Store Next}
    {store content : Store} :
    content ∈ (update change >>= next).visited store ↔
      content = store ∨ content ∈ (next ()).visited (change store) := by
  rw [mem_visited_bind, mem_visited_update, finish_update]
  constructor
  · intro member
    rcases member with (equal | equal) | member
    · exact Or.inl equal
    · exact Or.inr (equal ▸ List.mem_cons_self)
    · exact Or.inr member
  · intro member
    exact member.imp_left Or.inl

/-! ## Properties kept by every update -/

/-- Every update of the program, from any content with the property, leads to
a content with the property. -/
def Preserves (Holds : Store → Prop) (program : Program Store Result) : Prop :=
  ∀ store, Holds store → ∀ content ∈ program.history store, Holds content

section Preserves

variable {Holds : Store → Prop}

theorem Preserves.finish {program : Program Store Result}
    (preserves : Preserves Holds program) {store : Store}
    (holds : Holds store) : Holds (program.finish store) := by
  rcases List.mem_cons.mp (finish_mem_visited program store)
    with equal | member
  · rwa [equal]
  · exact preserves store holds _ member

theorem Preserves.visited {program : Program Store Result}
    (preserves : Preserves Holds program) {store content : Store}
    (holds : Holds store) (member : content ∈ program.visited store) :
    Holds content := by
  rcases List.mem_cons.mp member with equal | member
  · exact equal ▸ holds
  · exact preserves store holds _ member

theorem preserves_pure (result : Result) :
    Preserves Holds (pure result : Program Store Result) := by
  intro store _ content member
  simp at member

theorem preserves_read : Preserves Holds (read : Program Store Store) := by
  intro store _ content member
  simp at member

theorem preserves_update {change : Store → Store}
    (keeps : ∀ store, Holds store → Holds (change store)) :
    Preserves Holds (update change) := by
  intro store holds content member
  rw [history_update, List.mem_singleton] at member
  exact member ▸ keeps store holds

theorem preserves_bind {program : Program Store Result}
    {next : Result → Program Store Next}
    (first : Preserves Holds program)
    (second : ∀ result, Preserves Holds (next result)) :
    Preserves Holds (program >>= next) := by
  intro store holds content member
  rw [history_bind] at member
  rcases List.mem_append.mp member with member | member
  · exact first store holds content member
  · exact second _ _ (first.finish holds) content member

theorem preserves_forEach {Item : Type} {body : Item → Program Store Unit}
    (each : ∀ item, Preserves Holds (body item)) :
    ∀ items, Preserves Holds (forEach items body)
  | [] => preserves_pure ()
  | item :: rest =>
      preserves_bind (each item) fun _ => preserves_forEach each rest

theorem preserves_ite {condition : Prop} [Decidable condition]
    {first second : Program Store Result} (left : Preserves Holds first)
    (right : Preserves Holds second) :
    Preserves Holds (if condition then first else second) := by
  split
  · exact left
  · exact right

end Preserves

/-! ## Programs over a part of the store -/

section Within

variable {Part : Type}

def passing (put : Part → Store → Store) : List Part → Store → List Store
  | [], _ => []
  | part :: rest, whole => put part whole :: passing put rest (put part whole)

/-- A program over a part of the store; `put` also says what else an update
of the part does to the whole. -/
def within (get : Store → Part) (put : Part → Store → Store)
    (program : Program Part Result) : Program Store Result :=
  fun whole =>
    (passing put (program.history (get whole)) whole, program.value (get whole))

variable {get : Store → Part} {put : Part → Store → Store}

/-- A relation between part and whole that every update of the part keeps holds
of every content. -/
theorem within_related {related : Part → Store → Prop} {Holds : Part → Prop}
    {program : Program Part Result} {whole content : Store}
    (start : related (get whole) whole)
    (next : ∀ part current update, Holds update → related part current →
      related update (put update current))
    (each : ∀ part ∈ program.history (get whole), Holds part)
    (member : content ∈ (within get put program).visited whole) :
    ∃ part ∈ program.visited (get whole), related part content := by
  have passed : ∀ (parts : List Part) (part : Part) (current : Store),
      (∀ part ∈ parts, Holds part) → related part current →
        ∀ content ∈ passing put parts current, ∃ part ∈ parts, related part content := by
    intro parts
    induction parts with
    | nil => intro _ _ _ _ content member; cases member
    | cons update rest induction =>
        intro part current each holds content member
        have updated := next part current update (each _ List.mem_cons_self) holds
        rcases List.mem_cons.mp member with equal | member
        · exact ⟨update, List.mem_cons_self, equal ▸ updated⟩
        · obtain ⟨last, within, related⟩ := induction update _
            (fun part inside => each part (List.mem_cons_of_mem _ inside)) updated
            content member
          exact ⟨last, List.mem_cons_of_mem _ within, related⟩
  rcases List.mem_cons.mp member with equal | member
  · exact ⟨get whole, List.mem_cons_self, equal ▸ start⟩
  · obtain ⟨part, inside, related⟩ := passed _ _ whole each start content member
    exact ⟨part, List.mem_cons_of_mem _ inside, related⟩

theorem finish_within_related {related : Part → Store → Prop} {Holds : Part → Prop}
    {program : Program Part Result} {whole : Store}
    (start : related (get whole) whole)
    (next : ∀ part current update, Holds update → related part current →
      related update (put update current))
    (each : ∀ part ∈ program.history (get whole), Holds part) :
    related (program.finish (get whole)) ((within get put program).finish whole) := by
  have passed : ∀ (parts : List Part) (part : Part) (current : Store),
      (∀ part ∈ parts, Holds part) → related part current →
        related (parts.getLastD part) ((passing put parts current).getLastD current) := by
    intro parts
    induction parts with
    | nil => intro _ _ _ holds; exact holds
    | cons update rest induction =>
        intro part current each holds
        have last := induction update _
          (fun part inside => each part (List.mem_cons_of_mem _ inside))
          (next part current update (each _ List.mem_cons_self) holds)
        simpa only [passing, List.getLastD_cons] using last
  exact passed _ _ whole each start

end Within

/-! ## The steps of a program -/

/-- Every update of the program is a step. -/
def Follows (step : Store → Store → Prop) (program : Program Store Result) : Prop :=
  ∀ store, List.IsChain step (program.visited store)

section Follows

variable {step : Store → Store → Prop}

theorem follows_pure (result : Result) :
    Follows step (pure result : Program Store Result) :=
  fun store => List.isChain_singleton store

theorem follows_read : Follows step (read : Program Store Store) :=
  fun store => List.isChain_singleton store

theorem follows_update {change : Store → Store}
    (each : ∀ store, step store (change store)) : Follows step (update change) :=
  fun store => List.isChain_pair.mpr (each store)

theorem follows_bind {program : Program Store Result}
    {next : Result → Program Store Next} (first : Follows step program)
    (second : ∀ result, Follows step (next result)) :
    Follows step (program >>= next) := by
  intro store
  have later : List.IsChain step ((next (program.value store)).visited
      (program.finish store)) := second _ _
  rw [visited, history_bind, ← List.cons_append]
  apply List.isChain_append.mpr
  refine ⟨first store, later.tail, fun last isLast head isHead => ?_⟩
  have finished : last = program.finish store := by
    rw [List.getLast?_cons, Option.mem_some_iff] at isLast
    rw [finish, List.getLastD_eq_getLast?]
    exact isLast.symm
  rw [finished]
  exact (List.isChain_cons.mp later).1 head isHead

theorem Follows.preserves {Holds : Store → Prop} {program : Program Store Result}
    (follows : Follows step program)
    (keeps : ∀ before after, step before after → Holds before → Holds after) :
    Preserves Holds program := by
  have passed : ∀ (contents : List Store) (store : Store),
      List.IsChain step (store :: contents) → Holds store →
        ∀ content ∈ contents, Holds content := by
    intro contents
    induction contents with
    | nil => intro _ _ _ content member; cases member
    | cons next rest induction =>
        intro store chain holds content member
        obtain ⟨first, later⟩ := List.isChain_cons_cons.mp chain
        have kept := keeps store next first holds
        rcases List.mem_cons.mp member with equal | member
        · exact equal ▸ kept
        · exact induction next later kept content member
  intro store holds
  exact passed _ store (follows store) holds

theorem follows_of_preserves {View : Type} {view : Store → View}
    {program : Program Store Result}
    (keeps : ∀ seen, Preserves (fun store => view store = seen) program) :
    Follows (fun before after => view after = view before) program := by
  intro store
  have same : ∀ content ∈ program.visited store, view content = view store :=
    fun _ member => (keeps (view store)).visited rfl member
  generalize program.visited store = contents at same
  induction contents with
  | nil => exact List.isChain_nil
  | cons first rest induction =>
      apply List.isChain_cons.mpr
      refine ⟨fun next isNext => ?_, induction fun content member =>
        same content (List.mem_cons_of_mem _ member)⟩
      have later := same next (List.mem_cons_of_mem _ (List.mem_of_mem_head? isNext))
      exact later.trans (same first List.mem_cons_self).symm

theorem follows_within {Part : Type} {get : Store → Part} {put : Part → Store → Store}
    {partStep : Part → Part → Prop} {program : Program Part Result}
    (follows : Follows partStep program)
    (get_put : ∀ part whole, get (put part whole) = part)
    (lifted : ∀ part whole, partStep (get whole) part → step whole (put part whole)) :
    Follows step (within get put program) := by
  have passed : ∀ (parts : List Part) (whole : Store),
      List.IsChain partStep (get whole :: parts) →
        List.IsChain step (whole :: passing put parts whole) := by
    intro parts
    induction parts with
    | nil => intro whole _; exact List.isChain_singleton whole
    | cons part rest induction =>
        intro whole chain
        obtain ⟨first, later⟩ := List.isChain_cons_cons.mp chain
        apply List.isChain_cons_cons.mpr
        refine ⟨lifted part whole first, induction (put part whole) ?_⟩
        rw [get_put]
        exact later
  intro whole
  exact passed _ whole (follows (get whole))

end Follows

end Program

end LedgerQrl.Foundation
