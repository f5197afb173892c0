import LedgerQrl.Foundation.Region
import Mathlib.Data.List.Forall2

namespace LedgerQrl.Foundation.Program

/-! # Programs in lockstep

Two programs may compute different things and still go through contents that are
related update by update. Wherever both are stopped, the contents are related. -/

variable {Store Result Other Next Final : Type}

/-- Related from the start, after every update, and in what is returned. -/
structure Lockstep (Related : Store → Store → Prop) (Same : Result → Other → Prop)
    (program : Program Store Result) (other : Program Store Other)
    (store twin : Store) : Prop where
  start : Related store twin
  history : List.Forall₂ Related (program.history store) (other.history twin)
  value : Same (program.value store) (other.value twin)

variable {Related : Store → Store → Prop} {Same : Result → Other → Prop}
  {program : Program Store Result} {other : Program Store Other} {store twin : Store}

private theorem related_getLastD {contents twins : List Store}
    (each : List.Forall₂ Related contents twins) : ∀ {store twin : Store},
      Related store twin → Related (contents.getLastD store) (twins.getLastD twin) := by
  induction each with
  | nil => exact fun start => start
  | cons head _ induction =>
      intro store twin _
      rw [List.getLastD_cons, List.getLastD_cons]
      exact induction head

namespace Lockstep

theorem stoppedAfter (lockstep : Lockstep Related Same program other store twin)
    (count : Nat) :
    Related (program.stoppedAfter store count) (other.stoppedAfter twin count) :=
  related_getLastD (List.forall₂_take count lockstep.history) lockstep.start

theorem finish (lockstep : Lockstep Related Same program other store twin) :
    Related (program.finish store) (other.finish twin) :=
  related_getLastD lockstep.history lockstep.start

theorem mono {Weaker : Result → Other → Prop}
    (lockstep : Lockstep Related Same program other store twin)
    (weaker : ∀ result twinResult, Same result twinResult → Weaker result twinResult) :
    Lockstep Related Weaker program other store twin :=
  ⟨lockstep.start, lockstep.history, weaker _ _ lockstep.value⟩

end Lockstep

theorem lockstep_pure {result : Result} {otherResult : Other}
    (start : Related store twin) (same : Same result otherResult) :
    Lockstep Related Same (pure result) (pure otherResult) store twin :=
  ⟨start, .nil, same⟩

theorem lockstep_update {change otherChange : Store → Store} (start : Related store twin)
    (changed : Related (change store) (otherChange twin)) :
    Lockstep Related Eq (update change) (update otherChange) store twin :=
  ⟨start, .cons changed .nil, rfl⟩

end LedgerQrl.Foundation.Program
