import LedgerQrl.Foundation.Lockstep
import LedgerQrl.Foundation.Machine

namespace LedgerQrl.Foundation

/-! # What does not show

A mask forgets a part of a store. Run from two stores that are the same behind a
mask, a program goes through contents in which the same is seen, does the same
number of updates, and ends in contents that may be the same behind a finer mask:
it has replaced what differed. -/

namespace Program

variable {Store Result Next : Type}

structure Repeats (seen known learnt : Store → Store) (Same : Result → Result → Prop)
    (program : Program Store Result) : Prop where
  lockstep : ∀ store twin, known store = known twin →
    Lockstep (fun content other => seen content = seen other) Same program program store twin
  finish : ∀ store twin, known store = known twin →
    learnt (program.finish store) = learnt (program.finish twin)

/-- What a mask forgets, the coarser one forgets. -/
def Covers (fine coarse : Store → Store) : Prop :=
  ∀ store twin, fine store = fine twin → coarse store = coarse twin

theorem covers_of_masked {fine coarse : Store → Store}
    (masked : ∀ store, coarse (fine store) = coarse store) : Covers fine coarse := by
  intro store twin same
  rw [← masked store, ← masked twin, same]

section Rules

variable {seen known learnt between : Store → Store} {Same : Result → Result → Prop}
  {Ends : Next → Next → Prop}

theorem repeats_pure (before : Covers known seen) (after : Covers known learnt)
    (result : Result) : Repeats seen known learnt Eq (pure result : Program Store Result) where
  lockstep store twin same := lockstep_pure (before store twin same) rfl
  finish store twin same := after store twin same

theorem repeats_update {change : Store → Store} (before : Covers known seen)
    (after : Covers learnt seen)
    (masked : ∀ store, learnt (change (known store)) = learnt (change store)) :
    Repeats seen known learnt Eq (update change) := by
  have learns : ∀ store twin, known store = known twin →
      learnt (change store) = learnt (change twin) := by
    intro store twin same
    rw [← masked store, ← masked twin, same]
  constructor
  · intro store twin same
    exact lockstep_update (before store twin same) (after _ _ (learns store twin same))
  · intro store twin same
    rw [finish_update, finish_update]
    exact learns store twin same

theorem Repeats.bind {program : Program Store Result} {next : Result → Program Store Next}
    (first : Repeats seen known between Eq program)
    (second : ∀ result, Repeats seen between learnt Ends (next result)) :
    Repeats seen known learnt Ends (program >>= next) where
  lockstep store twin same := by
    have both := first.lockstep store twin same
    have ends := (second (program.value store)).lockstep _ _ (first.finish store twin same)
    refine ⟨both.start, ?_, ?_⟩
    · rw [history_bind, history_bind, ← both.value]
      exact List.rel_append both.history ends.history
    · rw [value_bind, value_bind, ← both.value]
      exact ends.value
  finish store twin same := by
    rw [finish_bind, finish_bind, ← (first.lockstep store twin same).value]
    exact (second (program.value store)).finish _ _ (first.finish store twin same)

theorem repeats_read {next : Store → Program Store Next}
    (masked : ∀ store, next (known store) = next store)
    (each : ∀ store, Repeats seen known learnt Ends (next store)) :
    Repeats seen known learnt Ends (Program.read >>= next) := by
  have decided : ∀ store twin, known store = known twin → next twin = next store := by
    intro store twin same
    rw [← masked store, ← masked twin, same]
  constructor
  · intro store twin same
    have both := (each store).lockstep store twin same
    refine ⟨both.start, ?_, ?_⟩
    · rw [history_bind, history_bind, value_read, value_read, decided store twin same]
      exact both.history
    · rw [value_bind, value_bind, value_read, value_read, decided store twin same]
      exact both.value
  · intro store twin same
    rw [finish_bind, finish_bind, value_read, value_read, decided store twin same]
    exact (each store).finish store twin same

theorem repeats_return (covers : Covers known seen) (result : Store → Result) :
    Repeats seen known known (fun _ _ => True) (do
      let store ← Program.read
      pure (result store)) where
  lockstep store twin same := ⟨covers store twin same, .nil, trivial⟩
  finish _ _ same := same

theorem repeats_ite {condition : Prop} [Decidable condition]
    {first second : Program Store Result} (left : Repeats seen known learnt Same first)
    (right : Repeats seen known learnt Same second) :
    Repeats seen known learnt Same (if condition then first else second) := by
  split
  · exact left
  · exact right

theorem Repeats.mono {finer coarser : Store → Store} {program : Program Store Result}
    (repeats : Repeats seen known learnt Same program) (before : Covers finer known)
    (after : Covers learnt coarser) : Repeats seen finer coarser Same program where
  lockstep store twin same := repeats.lockstep store twin (before store twin same)
  finish store twin same := after _ _ (repeats.finish store twin (before store twin same))

theorem Repeats.returns {program : Program Store Result}
    (repeats : Repeats seen known learnt Same program)
    (value : ∀ store twin, known store = known twin → program.value store = program.value twin) :
    Repeats seen known learnt Eq program where
  lockstep store twin same :=
    have both := repeats.lockstep store twin same
    ⟨both.start, both.history, value store twin same⟩
  finish := repeats.finish

theorem repeats_forEach {Item : Type} {body : Item → Program Store Unit}
    (covers : Covers known seen) (each : ∀ item, Repeats seen known known Eq (body item)) :
    ∀ items, Repeats seen known known Eq (forEach items body)
  | [] => repeats_pure covers (fun _ _ same => same) ()
  | item :: rest => (each item).bind fun _ => repeats_forEach covers each rest

theorem repeats_foldlM {Item State : Type} {body : State → Item → Program Store State}
    (covers : Covers known seen)
    (each : ∀ state item, Repeats seen known known Eq (body state item)) :
    ∀ (items : List Item) (state : State),
      Repeats seen known known Eq (items.foldlM body state)
  | [], state => repeats_pure covers (fun _ _ same => same) state
  | item :: rest, state => by
      rw [List.foldlM_cons]
      exact (each state item).bind fun next => repeats_foldlM covers each rest next

theorem repeats_hidden {program : Program Store Unit} {writes : ℕ}
    (covers : Covers known seen)
    (hidden : ∀ before, Preserves (fun store => seen store = before) program)
    (length : ∀ store, (program.history store).length = writes)
    (learns : ∀ store twin, known store = known twin →
      learnt (program.finish store) = learnt (program.finish twin)) :
    Repeats seen known learnt Eq program where
  lockstep store twin same := by
    have start := covers store twin same
    have unchanged : ∀ store, ∀ content ∈ program.history store, seen content = seen store :=
      fun store => hidden (seen store) store rfl
    refine ⟨start, ?_, rfl⟩
    rw [List.forall₂_iff_get]
    refine ⟨(length store).trans (length twin).symm, fun index bound otherBound => ?_⟩
    rw [unchanged store _ (List.get_mem _ _), unchanged twin _ (List.get_mem _ _)]
    exact start
  finish := learns

theorem repeats_of_finish {Content : Type} {region : Region Store Content}
    {content : Store → Content} {program : Program Store Unit} {writes : ℕ}
    (covers : Covers known seen)
    (hidden : ∀ before, Preserves (fun store => seen store = before) program)
    (length : ∀ store, (program.history store).length = writes)
    (finish : ∀ store, program.finish store = region.write (content store) store)
    (reads : ∀ store, content (known store) = content store)
    (masked : ∀ content store, learnt (region.write content (known store)) =
      learnt (region.write content store)) :
    Repeats seen known learnt Eq program := by
  apply repeats_hidden covers hidden length
  intro store twin same
  rw [finish, finish, ← masked _ store, ← masked _ twin, ← reads store, ← reads twin, same]

end Rules

/-! ## Loops over the rows of a region -/

section Rows

variable {seen known learnt : Store → Store} {Row : Type} {rows : ℕ}
  {region : Region Store (Vector Row rows)} {row : Fin rows → Store → Row}

theorem repeats_forRows (covers : Covers known seen)
    (hidden : ∀ content store, seen (region.write content store) = seen store)
    (own : ∀ index other store value, index ≠ other →
      row other (region.setRow index value store) = row other store)
    (reads : ∀ index store, row index (known store) = row index store)
    (masked : ∀ content store, learnt (region.write content (known store)) =
      learnt (region.write content store)) :
    Repeats seen known learnt Eq (forRows rows fun index => update fun store =>
      region.setRow index (row index store) store) := by
  have finish : ∀ store, (forRows rows fun index => update fun store =>
      region.setRow index (row index store) store).finish store =
        region.write (Vector.ofFn fun index => row index store) store :=
    finish_forRows region row (fun _ _ => rfl) own
  have length : ∀ store, ((forRows rows fun index => update fun store =>
      region.setRow index (row index store) store).history store).length = rows * 1 :=
    length_history_forRows _ fun _ _ => rfl
  apply repeats_of_finish covers _ length finish _ masked
  · intro before
    exact preserves_forEach (fun index => preserves_update fun store shown =>
      (hidden _ store).trans shown) _
  · intro store
    simp only [reads]

end Rows

/-! ## Nothing is learnt and nothing shows -/

theorem exists_stoppedAfter {program : Program Store Result} {store content : Store}
    (member : content ∈ program.visited store) :
    ∃ writes, program.stoppedAfter store writes = content := by
  rcases List.mem_cons.mp member with equal | member
  · exact ⟨0, equal.symm⟩
  · obtain ⟨index, bound, rfl⟩ := List.mem_iff_getElem.mp member
    refine ⟨index + 1, ?_⟩
    rw [stoppedAfter, List.take_succ_eq_append_getElem bound, List.getLastD_eq_getLast?,
      List.getLast?_append]
    rfl

/-- Contents in which the same is seen stay so. -/
abbrev Indifferent (seen : Store → Store) (program : Program Store Result) : Prop :=
  Repeats seen seen seen Eq program

section Indifferent

variable {seen : Store → Store}

theorem indifferent_of_lockstep {program : Program Store Result}
    (lockstep : ∀ store twin, seen store = seen twin →
      Lockstep (fun content other => seen content = seen other) Eq program program store twin) :
    Indifferent seen program where
  lockstep := lockstep
  finish store twin same := (lockstep store twin same).finish

theorem indifferent_pure (result : Result) :
    Indifferent seen (pure result : Program Store Result) :=
  repeats_pure (fun _ _ same => same) (fun _ _ same => same) result

theorem indifferent_update {change : Store → Store}
    (masked : ∀ store, seen (change (seen store)) = seen (change store)) :
    Indifferent seen (update change) :=
  repeats_update (fun _ _ same => same) (fun _ _ same => same) masked

theorem indifferent_within {Part : Type} {get : Store → Part} {put : Part → Store → Store}
    {partSeen : Part → Part} {program : Program Part Result}
    (indifferent : Indifferent partSeen program)
    (gets : ∀ store twin, seen store = seen twin → partSeen (get store) = partSeen (get twin))
    (puts : ∀ part other store twin, partSeen part = partSeen other →
      seen store = seen twin → seen (put part store) = seen (put other twin)) :
    Indifferent seen (within get put program) := by
  have passed : ∀ {parts others : List Part},
      List.Forall₂ (fun part other => partSeen part = partSeen other) parts others →
        ∀ store twin, seen store = seen twin →
          List.Forall₂ (fun content other => seen content = seen other)
            (passing put parts store) (passing put others twin) := by
    intro parts others each
    induction each with
    | nil => exact fun _ _ _ => .nil
    | cons head _ induction =>
        intro store twin same
        have next := puts _ _ store twin head same
        exact .cons next (induction _ _ next)
  apply indifferent_of_lockstep
  intro store twin same
  have part := indifferent.lockstep (get store) (get twin) (gets store twin same)
  exact ⟨same, passed part.history store twin same, part.value⟩

end Indifferent

end Program

/-! ## Systems -/

namespace Machine

variable {Store Action : Type} {machine : Machine Store Action}

/-- An action, with the number of updates after which power is lost, if it is. -/
abbrev Happening (Action : Type) : Type := Action × Option ℕ

def happen (machine : Machine Store Action) (store : Store) : Happening Action → Store
  | (action, none) => (machine.perform action).finish store
  | (action, some writes) => machine.powerOff ((machine.perform action).stoppedAfter store writes)

def run (machine : Machine Store Action) (store : Store) (happenings : List (Happening Action)) :
    Store :=
  happenings.foldl machine.happen store

def CanRun (machine : Machine Store Action) : Store → List (Happening Action) → Prop
  | _, [] => True
  | store, happening :: rest =>
      machine.enabled store happening.1 ∧ machine.CanRun (machine.happen store happening) rest

theorem canRun_append (machine : Machine Store Action) (store : Store)
    (first second : List (Happening Action)) :
    machine.CanRun store (first ++ second) ↔
      machine.CanRun store first ∧ machine.CanRun (machine.run store first) second := by
  induction first generalizing store with
  | nil => exact ⟨fun canRun => ⟨trivial, canRun⟩, fun both => both.2⟩
  | cons happening rest induction =>
      rw [List.cons_append, CanRun, CanRun, induction, run, run, List.foldl_cons, and_assoc]

/-- Every content that is reached is reached by a list of happenings. -/
theorem Reaches.exists_run {allowed : Store → Action → Prop} {start store : Store}
    (reaches : Reaches machine allowed start store) :
    ∃ happenings, machine.CanRun start happenings ∧ machine.run start happenings = store := by
  induction reaches with
  | start => exact ⟨[], trivial, rfl⟩
  | @performed _ action _ enabled _ induction =>
      obtain ⟨happenings, canRun, rfl⟩ := induction
      refine ⟨happenings ++ [(action, none)], ?_, ?_⟩
      · exact (canRun_append _ _ _ _).mpr ⟨canRun, enabled, trivial⟩
      · rw [run, List.foldl_append]
        rfl
  | @cut _ content action _ enabled _ member induction =>
      obtain ⟨happenings, canRun, rfl⟩ := induction
      obtain ⟨writes, rfl⟩ := Program.exists_stoppedAfter member
      refine ⟨happenings ++ [(action, some writes)], ?_, ?_⟩
      · exact (canRun_append _ _ _ _).mpr ⟨canRun, enabled, trivial⟩
      · rw [run, List.foldl_append]
        rfl

section Indifferent

variable {seen : Store → Store}
  (indifferent : ∀ action, Program.Indifferent seen (machine.perform action))
  (off : ∀ store twin, seen store = seen twin →
    seen (machine.powerOff store) = seen (machine.powerOff twin))

include indifferent off

theorem seen_happen {store twin : Store} (same : seen store = seen twin)
    (happening : Happening Action) :
    seen (machine.happen store happening) = seen (machine.happen twin happening) := by
  obtain ⟨action, cut⟩ := happening
  cases cut with
  | none => exact (indifferent action).finish store twin same
  | some writes =>
      exact off _ _ (((indifferent action).lockstep store twin same).stoppedAfter writes)

/-- The same run looks the same from contents that look the same. -/
theorem seen_run (enabled : ∀ store twin action, seen store = seen twin →
      (machine.enabled store action ↔ machine.enabled twin action))
    (happenings : List (Happening Action)) {store twin : Store}
    (same : seen store = seen twin) :
    (machine.CanRun store happenings ↔ machine.CanRun twin happenings) ∧
      seen (machine.run store happenings) = seen (machine.run twin happenings) := by
  induction happenings generalizing store twin with
  | nil => exact ⟨Iff.rfl, same⟩
  | cons happening rest induction =>
      have next := induction (seen_happen indifferent off same happening)
      exact ⟨and_congr (enabled store twin happening.1 same) next.1, next.2⟩

end Indifferent

end Machine

end LedgerQrl.Foundation
