import Mathlib.Data.Nat.Find

namespace LedgerQrl.Foundation

/-! # Loops that are known to stop

A `while` loop of the source has no bound of its own. Here it is a condition
and a body, run with increasing budgets: the loop halts when some budget is
enough, and its result does not depend on which one. -/

variable {State : Type*}

/-- Run at most `budget` rounds; `none` when the condition still holds. -/
def loopFor (condition : State → Bool) (body : State → State) :
    (budget : Nat) → State → Option State
  | 0, state => if condition state then none else some state
  | budget + 1, state =>
      if condition state then loopFor condition body budget (body state)
      else some state

/-- The loop leaves its condition after finitely many rounds. -/
def Halts (condition : State → Bool) (body : State → State)
    (state : State) : Prop :=
  ∃ budget, (loopFor condition body budget state).isSome

/-- The state in which a halting loop stops. -/
def whileLoop (condition : State → Bool) (body : State → State)
    (state : State) (halts : Halts condition body state) : State :=
  (loopFor condition body (Nat.find halts) state).get (Nat.find_spec halts)

section Rules

variable {condition : State → Bool} {body : State → State}

theorem loopFor_of_stopped {state : State} (stopped : condition state = false)
    (budget : Nat) : loopFor condition body budget state = some state := by
  cases budget <;> simp [loopFor, stopped]

theorem halts_of_stopped {state : State} (stopped : condition state = false) :
    Halts condition body state :=
  ⟨0, by rw [loopFor_of_stopped stopped, Option.isSome_some]⟩

theorem loopFor_mono {budget larger : Nat} (le : budget ≤ larger) :
    ∀ {state result : State},
      loopFor condition body budget state = some result →
      loopFor condition body larger state = some result := by
  induction budget generalizing larger with
  | zero =>
      intro state result finished
      by_cases running : condition state
      · simp [loopFor, running] at finished
      · rw [loopFor_of_stopped (by simpa using running)]
        simpa [loopFor, running] using finished
  | succ budget induction =>
      intro state result finished
      obtain ⟨larger, rfl⟩ : ∃ smaller, larger = smaller + 1 :=
        ⟨larger - 1, by omega⟩
      by_cases running : condition state
      · simp only [loopFor, running, if_true] at finished ⊢
        exact induction (by omega) finished
      · simpa [loopFor, running] using finished

/-- Any budget that is enough computes the loop's result. -/
theorem whileLoop_eq {state result : State} {budget : Nat}
    (halts : Halts condition body state)
    (finished : loopFor condition body budget state = some result) :
    whileLoop condition body state halts = result := by
  have found : Nat.find halts ≤ budget :=
    Nat.find_min' halts (by simp [finished])
  have least : loopFor condition body (Nat.find halts) state =
      some (whileLoop condition body state halts) := by
    simp [whileLoop]
  have both := (loopFor_mono found least).symm.trans finished
  exact Option.some.inj both

theorem whileLoop_of_stopped {state : State} (halts : Halts condition body state)
    (stopped : condition state = false) :
    whileLoop condition body state halts = state :=
  whileLoop_eq halts (loopFor_of_stopped stopped 0)

theorem halts_of_measure (measure : State → Nat) (Invariant : State → Prop)
    (decreases : ∀ state, condition state = true → Invariant state →
      Invariant (body state) ∧ measure (body state) < measure state)
    {state : State} (initially : Invariant state) : Halts condition body state := by
  have rounds : ∀ (budget : Nat) (state : State), Invariant state →
      measure state ≤ budget → (loopFor condition body budget state).isSome := by
    intro budget
    induction budget with
    | zero =>
        intro state holds small
        have stopped : condition state = false := by
          by_contra running
          have next := decreases state (by simpa using running) holds
          omega
        simp [loopFor, stopped]
    | succ budget induction =>
        intro state holds small
        rw [loopFor]
        split
        · rename_i running
          have next := decreases state running holds
          exact induction _ next.1 (by omega)
        · rfl
  exact ⟨measure state, rounds _ state initially (Nat.le_refl _)⟩

theorem loopFor_invariant (Invariant : State → Prop)
    (preserved : ∀ state, condition state = true → Invariant state →
      Invariant (body state)) :
    ∀ (budget : Nat) {state result : State}, Invariant state →
      loopFor condition body budget state = some result →
      Invariant result ∧ condition result = false := by
  intro budget
  induction budget with
  | zero =>
      intro state result initially finished
      by_cases running : condition state
      · simp [loopFor, running] at finished
      · simp only [loopFor, running] at finished
        cases finished
        exact ⟨initially, by simpa using running⟩
  | succ budget induction =>
      intro state result initially finished
      by_cases running : condition state
      · simp only [loopFor, running, if_true] at finished
        exact induction (preserved state running initially) finished
      · simp only [loopFor, running] at finished
        cases finished
        exact ⟨initially, by simpa using running⟩

/-- What the body preserves holds when the loop stops, and the condition does
not. -/
theorem whileLoop_invariant (Invariant : State → Prop)
    {state : State} (halts : Halts condition body state)
    (initially : Invariant state)
    (preserved : ∀ state, condition state = true → Invariant state →
      Invariant (body state)) :
    Invariant (whileLoop condition body state halts) ∧
      condition (whileLoop condition body state halts) = false :=
  loopFor_invariant Invariant preserved (Nat.find halts) initially
    (by simp [whileLoop])

/-- Two runs whose states stay related stop together, in related states. -/
theorem loopFor_simulates {Other : Type*} {condition' : Other → Bool}
    {body' : Other → Other} (Related : State → Other → Prop)
    (sameCondition : ∀ state other, Related state other →
      condition state = condition' other)
    (preserved : ∀ state other, Related state other → condition state = true →
      Related (body state) (body' other)) :
    ∀ (budget : Nat) {state result : State} {other : Other}, Related state other →
      loopFor condition body budget state = some result →
      ∃ otherResult, loopFor condition' body' budget other = some otherResult ∧
        Related result otherResult := by
  intro budget
  induction budget with
  | zero =>
      intro state result other related finished
      have same := sameCondition state other related
      by_cases running : condition state
      · simp [loopFor, running] at finished
      · simp only [loopFor, running] at finished
        cases finished
        exact ⟨other, by simp [loopFor, ← same, running], related⟩
  | succ budget induction =>
      intro state result other related finished
      have same := sameCondition state other related
      by_cases running : condition state
      · simp only [loopFor, running, if_true] at finished
        obtain ⟨otherResult, otherFinished, relatedResult⟩ :=
          induction (preserved state other related running) finished
        exact ⟨otherResult, by simpa [loopFor, ← same, running] using otherFinished,
          relatedResult⟩
      · simp only [loopFor, running] at finished
        cases finished
        exact ⟨other, by simp [loopFor, ← same, running], related⟩

/-- Two runs of one loop whose states agree for as many rounds as the budget
allows give the same result. -/
theorem loopFor_map_eq {Result : Type*} {view : State → Result}
    (Agree : Nat → State → State → Prop)
    (sameCondition : ∀ {rounds first second}, Agree rounds first second →
      condition first = condition second)
    (sameView : ∀ {rounds first second}, Agree rounds first second →
      view first = view second)
    (preserved : ∀ {rounds first second}, Agree (rounds + 1) first second →
      Agree rounds (body first) (body second)) :
    ∀ (budget : Nat) {first second : State}, Agree budget first second →
      (loopFor condition body budget first).map view =
        (loopFor condition body budget second).map view := by
  intro budget
  induction budget with
  | zero =>
      intro first second agree
      rw [loopFor, loopFor, sameCondition agree]
      split
      · rfl
      · rw [Option.map_some, Option.map_some, sameView agree]
  | succ budget induction =>
      intro first second agree
      rw [loopFor, loopFor, sameCondition agree]
      split
      · exact induction (preserved agree)
      · rw [Option.map_some, Option.map_some, sameView agree]

theorem Halts.simulates {Other : Type*} {condition' : Other → Bool}
    {body' : Other → Other} (Related : State → Other → Prop)
    {state : State} {other : Other} (halts : Halts condition body state)
    (related : Related state other)
    (sameCondition : ∀ state other, Related state other →
      condition state = condition' other)
    (preserved : ∀ state other, Related state other → condition state = true →
      Related (body state) (body' other)) :
    Halts condition' body' other := by
  obtain ⟨budget, stops⟩ := halts
  obtain ⟨result, finished⟩ := Option.isSome_iff_exists.mp stops
  obtain ⟨otherResult, otherFinished, _⟩ :=
    loopFor_simulates Related sameCondition preserved budget related finished
  exact ⟨budget, by rw [otherFinished, Option.isSome_some]⟩

theorem whileLoop_simulates {Other : Type*} {condition' : Other → Bool}
    {body' : Other → Other} (Related : State → Other → Prop)
    {state : State} {other : Other} (halts : Halts condition body state)
    (otherHalts : Halts condition' body' other) (related : Related state other)
    (sameCondition : ∀ state other, Related state other →
      condition state = condition' other)
    (preserved : ∀ state other, Related state other → condition state = true →
      Related (body state) (body' other)) :
    Related (whileLoop condition body state halts)
      (whileLoop condition' body' other otherHalts) := by
  have finished : loopFor condition body (Nat.find halts) state =
      some (whileLoop condition body state halts) := by
    simp [whileLoop]
  obtain ⟨otherResult, otherFinished, relatedResult⟩ :=
    loopFor_simulates Related sameCondition preserved (Nat.find halts) related
      finished
  rwa [whileLoop_eq otherHalts otherFinished]

end Rules

end LedgerQrl.Foundation
