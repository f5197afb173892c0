import LedgerQrl.Foundation.Machine
import Mathlib.Data.List.Infix

namespace LedgerQrl.Foundation

/-! # Histories

A history lists the latest entry first. What is said of an entry may depend on
the entries before it, and never on those after it. -/

section Always

variable {Entry : Type} {Holds Weaker : Entry → List Entry → Prop}
  {entry : Entry} {history older : List Entry}

/-- Every entry has a property together with the entries before it. -/
def Always (Holds : Entry → List Entry → Prop) : List Entry → Prop
  | [] => True
  | entry :: rest => Holds entry rest ∧ Always Holds rest

@[simp] theorem always_nil : Always Holds ([] : List Entry) := trivial

@[simp] theorem always_cons :
    Always Holds (entry :: history) ↔ Holds entry history ∧ Always Holds history :=
  Iff.rfl

theorem Always.append : ∀ {newer : List Entry}, Always Holds (newer ++ older) →
    Always Holds older
  | [], always => always
  | _ :: _, always => Always.append always.2

theorem Always.suffix (always : Always Holds history) (suffix : older <:+ history) :
    Always Holds older := by
  obtain ⟨newer, rfl⟩ := suffix
  exact always.append

theorem always_replicate_append (each : ∀ rest, Holds entry rest) (count : ℕ) :
    Always Holds (List.replicate count entry ++ history) ↔ Always Holds history := by
  induction count with
  | zero => exact Iff.rfl
  | succ count induction =>
      rw [List.replicate_succ, List.cons_append, always_cons, induction]
      exact and_iff_right (each _)

theorem always_iff : Always Holds history ↔
    ∀ newer entry older, history = newer ++ entry :: older → Holds entry older := by
  constructor
  · intro always newer entry older equal
    subst equal
    exact always.append.1
  · intro each
    induction history with
    | nil => trivial
    | cons entry rest induction =>
        refine ⟨each [] entry rest rfl, induction fun newer item older equal => ?_⟩
        exact each (entry :: newer) item older (by rw [equal, List.cons_append])

/-- The latest entry that decides something, where the same entry several times
decides nothing. -/
theorem findSome?_replicate_append {Value : Type} {decide : Entry → Option Value}
    (silent : decide entry = none) (count : ℕ) :
    (List.replicate count entry ++ history).findSome? decide =
      history.findSome? decide := by
  induction count with
  | zero => rfl
  | succ count induction =>
      rw [List.replicate_succ, List.cons_append, List.findSome?_cons, silent, induction]

/-- Where an entry that takes needs what an entry before it has given, as many take as
have been given. -/
theorem countP_le_countP {gives takes : Entry → Bool} {held : List Entry → Bool}
    (nothing : held [] = false)
    (passed : ∀ entry rest, Holds entry rest →
      (takes entry).toNat + (held (entry :: rest)).toNat ≤
        (held rest).toNat + (gives entry).toNat)
    (always : Always Holds history) :
    history.countP takes + (held history).toNat ≤ history.countP gives := by
  have counted : ∀ (counts : Entry → Bool) (entry : Entry) (rest : List Entry),
      (entry :: rest).countP counts = rest.countP counts + (counts entry).toNat := by
    intro counts entry rest
    rw [List.countP_cons]
    cases counts entry <;> rfl
  induction history with
  | nil => simp [nothing]
  | cons entry rest induction =>
      have before := induction always.2
      have step := passed entry rest always.1
      rw [counted takes, counted gives]
      omega

end Always

/-! ## Programs that keep a history -/

namespace Program

variable {Store Result Next Entry : Type} {log : Store → List Entry}

/-- The history at every content extends the one before, and is extended by the
one at the end. -/
def Grows (log : Store → List Entry) (program : Program Store Result) : Prop :=
  ∀ store, ∀ content ∈ program.visited store,
    log store <:+ log content ∧ log content <:+ log (program.finish store)

theorem Follows.grows {step : Store → Store → Prop} {program : Program Store Result}
    (follows : Follows step program)
    (extends' : ∀ before after, step before after → log before <:+ log after) :
    Grows log program := by
  have passed : ∀ (contents : List Store) (store : Store),
      List.IsChain step (store :: contents) → ∀ content ∈ store :: contents,
        log store <:+ log content ∧ log content <:+ log (contents.getLastD store) := by
    intro contents
    induction contents with
    | nil =>
        intro store _ content member
        rw [List.mem_singleton.mp member]
        exact ⟨List.suffix_rfl, List.suffix_rfl⟩
    | cons next rest induction =>
        intro store chain content member
        obtain ⟨first, later⟩ := List.isChain_cons_cons.mp chain
        have added := extends' store next first
        have within := induction next later
        rw [List.getLastD_cons]
        rcases List.mem_cons.mp member with equal | member
        · rw [equal]
          exact ⟨List.suffix_rfl, added.trans (within _ List.mem_cons_self).2⟩
        · obtain ⟨before, behind⟩ := within content member
          exact ⟨added.trans before, behind⟩
  intro store content member
  exact passed _ store (follows store) content member

end Program

/-! ## Systems that keep a history -/

namespace Machine

variable {Store Action Entry : Type} {machine : Machine Store Action}
  {allowed : Store → Action → Prop} {start store : Store} {log : Store → List Entry}

/-- An invariant under which every action only adds entries with a property. What
is cut off has added no entry that the whole action would not have added. -/
theorem Reaches.always {Invariant : Store → Prop} {Holds : Entry → List Entry → Prop}
    (initial : Invariant start ∧ Always Holds (log start))
    (grows : ∀ action, Program.Grows log (machine.perform action))
    (kept : ∀ store, log (machine.powerOff store) = log store)
    (performed : ∀ store action, Invariant store → Always Holds (log store) →
      machine.enabled store action → allowed store action →
        Invariant ((machine.perform action).finish store) ∧
          Always Holds (log ((machine.perform action).finish store)))
    (cut : ∀ store action, Invariant store → machine.enabled store action →
      allowed store action → ∀ content ∈ (machine.perform action).visited store,
        Invariant (machine.powerOff content))
    (reaches : Reaches machine allowed start store) :
    Invariant store ∧ Always Holds (log store) := by
  induction reaches with
  | start => exact initial
  | performed _ enabled permitted holds =>
      exact performed _ _ holds.1 holds.2 enabled permitted
  | @cut before content action _ enabled permitted member holds =>
      refine ⟨cut _ _ holds.1 enabled permitted content member, ?_⟩
      have whole := (performed _ _ holds.1 holds.2 enabled permitted).2
      rw [kept]
      exact whole.suffix (grows action before content member).2

end Machine

end LedgerQrl.Foundation
