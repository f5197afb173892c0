import LedgerQrl.Foundation.LocalStep
import LedgerQrl.Foundation.Region

namespace LedgerQrl.Foundation

/-! # Guarded programs

A guarded program tests what a plain program takes for granted. It stops early
when a test fails, or when it gives a loop up that may run forever. -/

/-- Why a guarded program stops early. -/
inductive Stop where
  | fault
  | givenUp
deriving DecidableEq, Repr

abbrev GuardedProgram (Store : Type) := ExceptT Stop (Program Store)

namespace GuardedProgram

variable {Store Result Next Item : Type}

def check (result : Option Result) : GuardedProgram Store Result :=
  match result with
  | some value => pure value
  | none => throw .fault

def read : GuardedProgram Store Store := monadLift (Program.read : Program Store Store)

def update (change : Store → Store) : GuardedProgram Store Unit :=
  monadLift (Program.update change)

/-- The result of a loop, unless it has been given up. -/
def await (result : Option Result) : GuardedProgram Store Result :=
  match result with
  | some value => pure value
  | none => throw .givenUp

def forEach : List Item → (Item → GuardedProgram Store Unit) →
    GuardedProgram Store Unit
  | [], _ => pure ()
  | item :: rest, body => do
      body item
      forEach rest body

def forRows (rows : Nat) (body : Fin rows → GuardedProgram Store Unit) :
    GuardedProgram Store Unit :=
  forEach (List.finRange rows) body

/-- No test fails. -/
def Faultless (guarded : GuardedProgram Store Result) (store : Store) : Prop :=
  guarded.run.value store ≠ .error .fault

/-- The guarded program makes the updates of the plain one and returns its
result. -/
structure Agrees (guarded : GuardedProgram Store Result)
    (program : Program Store Result) (store : Store) : Prop where
  history : guarded.run.history store = program.history store
  value : guarded.run.value store = .ok (program.value store)

/-- The guarded program agrees with the plain one, unless a loop is given up,
which only happens when `early` holds. -/
def Follows (early : Prop) (guarded : GuardedProgram Store Result)
    (program : Program Store Result) (store : Store) : Prop :=
  Agrees guarded program store ∨
    (early ∧ guarded.run.value store = .error .givenUp)

section Rules

variable {early : Prop} {store : Store}

theorem Follows.faultless {guarded : GuardedProgram Store Result}
    {program : Program Store Result} (follows : Follows early guarded program store) :
    Faultless guarded store := by
  rw [Faultless]
  cases follows with
  | inl agrees =>
      rw [agrees.value]
      intro same
      cases same
  | inr stopped =>
      rw [stopped.2]
      intro same
      cases Except.error.inj same

/-- A guarded program that never gives up agrees with the plain one. -/
theorem Follows.agrees {guarded : GuardedProgram Store Result}
    {program : Program Store Result} (follows : Follows False guarded program store) :
    Agrees guarded program store := by
  cases follows with
  | inl agrees => exact agrees
  | inr stopped => exact stopped.1.elim

theorem follows_pure (result : Result) :
    Follows early (pure result : GuardedProgram Store Result) (pure result) store :=
  Or.inl ⟨rfl, rfl⟩

theorem follows_lift (program : Program Store Result) :
    Follows early (monadLift program : GuardedProgram Store Result) program store := by
  refine Or.inl ⟨?_, ?_⟩
  · have lifted : (monadLift program : GuardedProgram Store Result).run =
        Except.ok <$> program := rfl
    rw [lifted, map_eq_pure_bind, Program.history_bind, Program.history_pure,
      List.append_nil]
  · rfl

theorem follows_bind {guarded : GuardedProgram Store Result}
    {program : Program Store Result} {next : Result → GuardedProgram Store Next}
    {nextProgram : Result → Program Store Next}
    (first : Follows early guarded program store)
    (second : Follows early (next (program.value store))
      (nextProgram (program.value store)) (program.finish store)) :
    Follows early (guarded >>= next) (program >>= nextProgram) store := by
  cases first with
  | inr stopped =>
      refine Or.inr ⟨stopped.1, ?_⟩
      rw [ExceptT.run_bind, Program.value_bind, stopped.2]
      rfl
  | inl agrees =>
      have same : guarded.run.finish store = program.finish store := by
        rw [Program.finish, Program.finish, agrees.history]
      cases second with
      | inr stopped =>
          refine Or.inr ⟨stopped.1, ?_⟩
          rw [ExceptT.run_bind, Program.value_bind, agrees.value, same]
          exact stopped.2
      | inl rest =>
          refine Or.inl ⟨?_, ?_⟩
          · rw [ExceptT.run_bind, Program.history_bind, agrees.value, same,
              Program.history_bind, agrees.history]
            congr 1
            exact rest.history
          · rw [ExceptT.run_bind, Program.value_bind, agrees.value, same,
              Program.value_bind]
            exact rest.value

theorem follows_check {result : Option Result} {value : Result}
    {next : Result → GuardedProgram Store Next} {program : Program Store Next}
    (passes : result = some value) (rest : Follows early (next value) program store) :
    Follows early (check result >>= next) program store := by
  rw [passes]
  exact rest

theorem follows_await {result : Option Result} {value : Result}
    {next : Result → GuardedProgram Store Next} {program : Program Store Next}
    (ends : result = some value ∨ (early ∧ result = none))
    (rest : Follows early (next value) program store) :
    Follows early (await result >>= next) program store := by
  cases ends with
  | inl ends =>
      rw [ends]
      exact rest
  | inr stopped =>
      rw [stopped.2]
      exact Or.inr ⟨stopped.1, rfl⟩

/-- Reading changes nothing, so what follows starts at the same store. -/
theorem follows_read {next : Store → GuardedProgram Store Next}
    {nextProgram : Store → Program Store Next}
    (rest : Follows early (next store) (nextProgram store) store) :
    Follows early (read >>= next) (Program.read >>= nextProgram) store :=
  follows_bind (follows_lift Program.read) rest

/-- What the guarded program reads in advance. -/
theorem follows_ahead {next : Store → GuardedProgram Store Next}
    {program : Program Store Next} (rest : Follows early (next store) program store) :
    Follows early (read >>= next) program store := by
  cases rest with
  | inl agrees => exact Or.inl ⟨agrees.history, agrees.value⟩
  | inr stopped => exact Or.inr ⟨stopped.1, stopped.2⟩

/-- An update by a value that the plain program computes from the store. -/
theorem follows_update {change guardedChange : Store → Store}
    (same : guardedChange store = change store) :
    Follows early (update guardedChange) (Program.update change) store := by
  have histories : (Program.update guardedChange).history store =
      (Program.update change).history store := by
    rw [Program.history_update, Program.history_update, same]
  exact Or.inl ⟨histories, rfl⟩

theorem follows_forRows {rows : Nat} {body : Fin rows → GuardedProgram Store Unit}
    {bodyProgram : Fin rows → Program Store Unit} (Invariant : Nat → Store → Prop)
    (each : ∀ (index : Fin rows) store, Invariant index store →
      Follows early (body index) (bodyProgram index) store ∧
        Invariant (index + 1) ((bodyProgram index).finish store))
    (start : Invariant 0 store) :
    Follows early (forRows rows body) (Program.forRows rows bodyProgram) store ∧
      Invariant rows ((Program.forRows rows bodyProgram).finish store) := by
  have loop : ∀ (remaining first : Nat), first + remaining = rows → ∀ store,
      Invariant first store →
      Follows early (forEach ((List.finRange rows).drop first) body)
          (Program.forEach ((List.finRange rows).drop first) bodyProgram) store ∧
        Invariant rows
          ((Program.forEach ((List.finRange rows).drop first) bodyProgram).finish
            store) := by
    intro remaining
    induction remaining with
    | zero =>
        intro first total store holds
        rw [List.drop_of_length_le (by simp; omega), Program.finish_forEach_nil]
        rw [Nat.add_zero] at total
        exact ⟨follows_pure (), total ▸ holds⟩
    | succ remaining induction =>
        intro first total store holds
        have within : first < rows := by omega
        have round := each ⟨first, within⟩ store holds
        have others := induction (first + 1) (by omega) _ round.2
        rw [List.drop_eq_getElem_cons (by simpa using within), List.getElem_finRange,
          Program.finish_forEach_cons]
        exact ⟨follows_bind round.1 others.1, others.2⟩
  exact loop rows 0 (Nat.zero_add rows) store start

/-- What comes after a loop may rely on the invariant. -/
theorem follows_forRows_bind {rows : Nat}
    {body : Fin rows → GuardedProgram Store Unit}
    {bodyProgram : Fin rows → Program Store Unit} {next : GuardedProgram Store Next}
    {nextProgram : Program Store Next} (Invariant : Nat → Store → Prop)
    (each : ∀ (index : Fin rows) store, Invariant index store →
      Follows early (body index) (bodyProgram index) store ∧
        Invariant (index + 1) ((bodyProgram index).finish store))
    (start : Invariant 0 store)
    (rest : ∀ store, Invariant rows store → Follows early next nextProgram store) :
    Follows early (forRows rows body >>= fun _ => next)
      (Program.forRows rows bodyProgram >>= fun _ => nextProgram) store :=
  have loop := follows_forRows Invariant each start
  follows_bind loop.1 (rest _ loop.2)

theorem follows_foldlM {Accumulator : Type}
    {step : Accumulator → Item → GuardedProgram Store Accumulator}
    {stepProgram : Accumulator → Item → Program Store Accumulator}
    (Invariant : Store → Prop)
    (each : ∀ accumulator item store, Invariant store →
      Follows early (step accumulator item) (stepProgram accumulator item) store ∧
        Invariant ((stepProgram accumulator item).finish store)) :
    ∀ (items : List Item) (accumulator : Accumulator) (store : Store), Invariant store →
      Follows early (items.foldlM step accumulator)
        (items.foldlM stepProgram accumulator) store
  | [], accumulator, _, _ => follows_pure accumulator
  | item :: rest, accumulator, store, holds => by
      have round := each accumulator item store holds
      rw [List.foldlM_cons, List.foldlM_cons]
      exact follows_bind round.1 (follows_foldlM Invariant each rest _ _ round.2)

/-- The guarded program follows the plain one, which ends in a result and a store
with the property `after`. -/
structure Leads (early : Prop) (guarded : GuardedProgram Store Result)
    (program : Program Store Result) (store : Store) (after : Result → Store → Prop) :
    Prop where
  follows : Follows early guarded program store
  after : after (program.value store) (program.finish store)

variable {after : Next → Store → Prop}

theorem Leads.weaken {guarded : GuardedProgram Store Next} {program : Program Store Next}
    {stronger : Next → Store → Prop} (leads : Leads early guarded program store stronger)
    (weaker : ∀ result store, stronger result store → after result store) :
    Leads early guarded program store after :=
  ⟨leads.follows, weaker _ _ leads.after⟩

theorem leads_pure {result : Next} (holds : after result store) :
    Leads early (pure result : GuardedProgram Store Next) (pure result) store after :=
  ⟨follows_pure result, holds⟩

theorem leads_bind {guarded : GuardedProgram Store Result}
    {program : Program Store Result} {middle : Result → Store → Prop}
    {next : Result → GuardedProgram Store Next}
    {nextProgram : Result → Program Store Next}
    (first : Leads early guarded program store middle)
    (second : ∀ result store, middle result store →
      Leads early (next result) (nextProgram result) store after) :
    Leads early (guarded >>= next) (program >>= nextProgram) store after := by
  have rest := second _ _ first.after
  refine ⟨follows_bind first.follows rest.follows, ?_⟩
  rw [Program.value_bind, Program.finish_bind]
  exact rest.after

theorem leads_check {result : Option Result} {value : Result}
    {next : Result → GuardedProgram Store Next} {program : Program Store Next}
    (passes : result = some value)
    (rest : Leads early (next value) program store after) :
    Leads early (check result >>= next) program store after :=
  ⟨follows_check passes rest.follows, rest.after⟩

theorem leads_await {result : Option Result} {value : Result}
    {next : Result → GuardedProgram Store Next} {program : Program Store Next}
    (ends : result = some value ∨ (early ∧ result = none))
    (rest : Leads early (next value) program store after) :
    Leads early (await result >>= next) program store after :=
  ⟨follows_await ends rest.follows, rest.after⟩

theorem leads_read {next : Store → GuardedProgram Store Next}
    {nextProgram : Store → Program Store Next}
    (rest : Leads early (next store) (nextProgram store) store after) :
    Leads early (read >>= next) (Program.read >>= nextProgram) store after := by
  refine ⟨follows_read rest.follows, ?_⟩
  rw [Program.value_bind, Program.finish_bind]
  exact rest.after

theorem leads_update {change guardedChange : Store → Store}
    (same : guardedChange store = change store) :
    Leads early (update guardedChange) (Program.update change) store
      fun _ after => after = change store :=
  ⟨follows_update same, Program.finish_update change store⟩

theorem leads_ite {condition : Prop} [Decidable condition]
    {first second : GuardedProgram Store Next}
    {firstProgram secondProgram : Program Store Next}
    (left : condition → Leads early first firstProgram store after)
    (right : ¬ condition → Leads early second secondProgram store after) :
    Leads early (if condition then first else second)
      (if condition then firstProgram else secondProgram) store after := by
  by_cases holds : condition
  · rw [if_pos holds, if_pos holds]
    exact left holds
  · rw [if_neg holds, if_neg holds]
    exact right holds

end Rules

end GuardedProgram

/-! ## Partial computations -/

theorem bind_of_eq_some {First Second : Type} {first : Option First} {value : First}
    {next : First → Option Second} {result : Option Second}
    (head : first = some value) (tail : next value = result) :
    (first >>= next) = result := by
  rw [head]
  exact tail

def collect {Entry : Type} {size : Nat} (entry : Fin size → Option Entry) :
    Option (Vector Entry size) :=
  if total : ∀ index, (entry index).isSome then
    some (Vector.ofFn fun index => (entry index).get (total index))
  else none

theorem collect_eq {Entry : Type} {size : Nat} {entry : Fin size → Option Entry}
    {value : Fin size → Entry} (each : ∀ index, entry index = some (value index)) :
    collect entry = some (Vector.ofFn value) := by
  have total : ∀ index, (entry index).isSome := by
    intro index
    rw [each, Option.isSome_some]
  rw [collect, dif_pos total]
  congr 2
  funext index
  exact Option.get_of_eq_some _ (each index)

theorem collect_eq_none {Entry : Type} {size : Nat} {entry : Fin size → Option Entry}
    {index : Fin size} (missing : entry index = none) : collect entry = none := by
  rw [collect, dif_neg]
  intro total
  have present := total index
  rw [missing, Option.isSome_none] at present
  cases present

/-- A loop of partial rounds that do not interfere is total when each round is
total on what was at the positions it owns. -/
theorem LocalSteps.foldlM_eq {Item State Position Value : Type}
    {get : State → Position → Value} {owns : Item → Position → Prop}
    {step : Item → State → State} {guarded : Item → State → Option State} :
    ∀ {items : List Item}, LocalSteps get owns step items → items.Nodup →
      ∀ (state : State), (∀ item ∈ items, ∀ current,
        (∀ position, owns item position → get current position = get state position) →
          guarded item current = some (step item current)) →
      items.foldlM (fun state item => guarded item state) state =
        some (items.foldl (fun state item => step item state) state)
  | [], _, _, _, _ => rfl
  | first :: rest, steps, nodup, state, each => by
      have fresh := (List.nodup_cons.mp nodup).1
      have head := each first List.mem_cons_self state fun _ _ => rfl
      rw [List.foldlM_cons, head, List.foldl_cons]
      apply LocalSteps.foldlM_eq steps.tail (List.nodup_cons.mp nodup).2
      intro item member current agree
      apply each item (List.mem_cons_of_mem _ member)
      intro position owned
      rw [agree position owned]
      apply steps.frame first List.mem_cons_self
      intro firstOwns
      have same := steps.apart first List.mem_cons_self item
        (List.mem_cons_of_mem _ member) position firstOwns owned
      exact fresh (same ▸ member)

theorem foldlM_counting_up {State : Type}
    (body : (counter : Nat) → (round : Nat) → State → Option State)
    (start : Nat) (state : State) : ∀ rounds : Nat,
    (List.range rounds).foldlM (fun (pair : Nat × State) round => do
        let next ← body (pair.1 + 1) round pair.2
        pure (pair.1 + 1, next)) (start, state) =
      ((List.range rounds).foldlM (fun state round =>
        body (start + round + 1) round state) state).map fun state =>
          (start + rounds, state)
  | 0 => rfl
  | rounds + 1 => by
      rw [List.range_succ, List.foldlM_append, List.foldlM_append,
        foldlM_counting_up body start state rounds]
      cases (List.range rounds).foldlM (fun state round =>
          body (start + round + 1) round state) state with
      | none => rfl
      | some reached =>
          cases next : body (start + rounds + 1) rounds reached with
          | none => simp [next]
          | some last =>
              simp [next]
              rfl

theorem foldlM_counting_down {State : Type}
    (body : (counter : Nat) → (round : Nat) → State → Option State)
    (start : Nat) (state : State) : ∀ rounds : Nat,
    (List.range rounds).foldlM (fun (pair : Nat × State) round => do
        let next ← body (pair.1 - 1) round pair.2
        pure (pair.1 - 1, next)) (start, state) =
      ((List.range rounds).foldlM (fun state round =>
        body (start - round - 1) round state) state).map fun state =>
          (start - rounds, state)
  | 0 => rfl
  | rounds + 1 => by
      rw [List.range_succ, List.foldlM_append, List.foldlM_append,
        foldlM_counting_down body start state rounds]
      cases (List.range rounds).foldlM (fun state round =>
          body (start - round - 1) round state) state with
      | none => rfl
      | some reached =>
          cases next : body (start - rounds - 1) rounds reached with
          | none => simp [next]
          | some last =>
              simp [next]
              rfl

namespace GuardedProgram

section Rows

variable {Store Row : Type} {rows : Nat} {early : Prop}
  (region : Region Store (Vector Row rows))

/-- A loop whose round `index` sets row `index`, when the row can be
computed. -/
def setRows (row : Fin rows → Store → Option Row) : GuardedProgram Store Unit :=
  forRows rows fun index => do
    let store ← read
    let value ← check (row index store)
    update fun store => region.setRow index value store

variable {guarded : Fin rows → Store → Option Row} {row : Fin rows → Store → Row}

private theorem follows_setRow {index : Fin rows} {store : Store}
    (passes : guarded index store = some (row index store)) :
    Follows early
      (do
        let store ← read
        let value ← check (guarded index store)
        update fun store => region.setRow index value store)
      (Program.update fun store => region.setRow index (row index store) store)
      store :=
  follows_ahead (follows_check passes (follows_update rfl))

/-- Every row can be computed when the loop starts, from what the rounds before
it do not change. -/
theorem follows_setRows
    (own : ∀ index other store value, index ≠ other →
      guarded other (region.setRow index value store) = guarded other store)
    (ownRow : ∀ index other store value, index ≠ other →
      row other (region.setRow index value store) = row other store)
    {store : Store} (each : ∀ index, guarded index store = some (row index store)) :
    Follows early (setRows region guarded)
      (Program.forRows rows fun index =>
        Program.update fun store => region.setRow index (row index store) store)
      store := by
  have loop : ∀ (indices : List (Fin rows)), indices.Nodup → ∀ store,
      (∀ index ∈ indices, guarded index store = some (row index store)) →
      Follows early
        (forEach indices fun index => do
          let store ← read
          let value ← check (guarded index store)
          update fun store => region.setRow index value store)
        (Program.forEach indices fun index =>
          Program.update fun store => region.setRow index (row index store) store)
        store := by
    intro indices
    induction indices with
    | nil => exact fun _ _ _ => follows_pure ()
    | cons first rest induction =>
        intro nodup store each
        have fresh := (List.nodup_cons.mp nodup).1
        apply follows_bind (follows_setRow region (each first List.mem_cons_self))
        apply induction (List.nodup_cons.mp nodup).2
        intro index member
        have different : first ≠ index := fun same => fresh (same ▸ member)
        rw [Program.finish_update, own _ _ _ _ different, ownRow _ _ _ _ different]
        exact each index (List.mem_cons_of_mem _ member)
  exact loop _ (List.nodup_finRange rows) store fun index _ => each index

end Rows

end GuardedProgram

end LedgerQrl.Foundation
