import LedgerQrl.Foundation.Program

namespace LedgerQrl.Foundation

/-! # Systems that react, and may lose power

A machine performs a program for each action. Power may be lost at any content
that a program goes through. -/

structure Machine (Store Action : Type) where
  perform : Action → Program Store Unit
  /-- The actions that can happen in a content. -/
  enabled : Store → Action → Prop
  /-- What the loss of power leaves. -/
  powerOff : Store → Store

namespace Machine

variable {Store Action : Type} {machine : Machine Store Action}
  {allowed : Store → Action → Prop} {start store : Store}

/-- The contents between the actions of a run in which every action is allowed
where it happens. -/
inductive Reaches (machine : Machine Store Action) (allowed : Store → Action → Prop)
    (start : Store) : Store → Prop
  | start : Reaches machine allowed start start
  | performed {store : Store} {action : Action} :
      Reaches machine allowed start store → machine.enabled store action →
        allowed store action →
          Reaches machine allowed start ((machine.perform action).finish store)
  | cut {store content : Store} {action : Action} :
      Reaches machine allowed start store → machine.enabled store action →
        allowed store action → content ∈ (machine.perform action).visited store →
          Reaches machine allowed start (machine.powerOff content)

def Anything : Store → Action → Prop := fun _ _ => True

/-- What holds at the start and is kept by whole actions and by actions cut off
holds in every run. -/
theorem Reaches.invariant {Holds : Store → Prop} (initial : Holds start)
    (performed : ∀ store action, Holds store → machine.enabled store action →
      allowed store action → Holds ((machine.perform action).finish store))
    (cut : ∀ store action, Holds store → machine.enabled store action →
      allowed store action → ∀ content ∈ (machine.perform action).visited store,
        Holds (machine.powerOff content))
    (reaches : Reaches machine allowed start store) : Holds store := by
  induction reaches with
  | start => exact initial
  | performed _ enabled permitted holds => exact performed _ _ holds enabled permitted
  | cut _ enabled permitted member holds => exact cut _ _ holds enabled permitted _ member

theorem Reaches.mono {permitted : Store → Action → Prop}
    (weaken : ∀ store action, allowed store action → permitted store action)
    (reaches : Reaches machine allowed start store) :
    Reaches machine permitted start store := by
  induction reaches with
  | start => exact .start
  | performed _ enabled each reaches => exact reaches.performed enabled (weaken _ _ each)
  | cut _ enabled each member reaches => exact reaches.cut enabled (weaken _ _ each) member

/-- What every run reaches may be assumed before every action. -/
theorem Reaches.strengthen {Holds : Store → Prop}
    (holds : ∀ store, Reaches machine allowed start store → Holds store)
    (reaches : Reaches machine allowed start store) :
    Reaches machine (fun store action => allowed store action ∧ Holds store) start store := by
  induction reaches with
  | start => exact .start
  | performed before enabled each reaches =>
      exact reaches.performed enabled ⟨each, holds _ before⟩
  | cut before enabled each member reaches =>
      exact reaches.cut enabled ⟨each, holds _ before⟩ member

def after (machine : Machine Store Action) (store : Store) (actions : List Action) :
    Store :=
  actions.foldl (fun store action => (machine.perform action).finish store) store

@[simp] theorem after_nil (store : Store) : machine.after store [] = store := rfl

@[simp] theorem after_cons (store : Store) (action : Action) (rest : List Action) :
    machine.after store (action :: rest) =
      machine.after ((machine.perform action).finish store) rest := rfl

theorem after_append (machine : Machine Store Action) (store : Store)
    (first second : List Action) :
    machine.after store (first ++ second) =
      machine.after (machine.after store first) second :=
  List.foldl_append

end Machine

end LedgerQrl.Foundation
