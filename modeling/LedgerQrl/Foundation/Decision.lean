import Mathlib.Logic.Basic

namespace LedgerQrl.Foundation

/-! # Computations that decide a predicate

A computation with several kinds of errors decides a predicate when it returns
the only value that satisfies it, and fails with one particular error when no
value does. Two computations that decide the same predicate are equal. -/

variable {Error Value Next : Type} {rejection : Error}

@[simp] theorem ok_bind (value : Value) (next : Value → Except Error Next) :
    (Except.ok value >>= next) = next value := rfl

@[simp] theorem error_bind (error : Error) (next : Value → Except Error Next) :
    (Except.error error >>= next) = .error error := rfl

theorem bind_ok_iff {computation : Except Error Value} {next : Value → Except Error Next}
    {result : Next} :
    (computation >>= next) = .ok result ↔
      ∃ value, computation = .ok value ∧ next value = .ok result := by
  cases computation with
  | ok value => simp
  | error error => simp

/-- Every failure is the given one. -/
def OnlyFails (rejection : Error) (computation : Except Error Value) : Prop :=
  ∀ error, computation = .error error → error = rejection

theorem OnlyFails.ok (value : Value) : OnlyFails rejection (.ok value) := by
  intro error failed
  exact absurd failed (by simp)

theorem OnlyFails.bind {computation : Except Error Value} {next : Value → Except Error Next}
    (first : OnlyFails rejection computation)
    (each : ∀ value, computation = .ok value → OnlyFails rejection (next value)) :
    OnlyFails rejection (computation >>= next) := by
  cases computation with
  | ok value => exact each value rfl
  | error error =>
      intro error' failed
      rw [error_bind, Except.error.injEq] at failed
      exact first error' (congrArg Except.error failed)

def Decides (rejection : Error) (computation : Except Error Value)
    (holds : Value → Prop) : Prop :=
  match computation with
  | .ok value => ∀ other, holds other ↔ other = value
  | .error error => error = rejection ∧ ∀ other, ¬ holds other

namespace Decides

variable {computation : Except Error Value} {holds : Value → Prop}

theorem ok_iff (decides : Decides rejection computation holds) (value : Value) :
    computation = .ok value ↔ holds value := by
  cases computation with
  | ok result =>
      rw [decides value, Except.ok.injEq]
      exact eq_comm
  | error error =>
      simp only [reduceCtorEq, false_iff]
      exact decides.2 value

theorem error_iff (decides : Decides rejection computation holds) (error : Error) :
    computation = .error error ↔ error = rejection ∧ ∀ value, ¬ holds value := by
  cases computation with
  | ok result =>
      simp only [reduceCtorEq, false_iff]
      exact fun none => none.2 result ((decides result).mpr rfl)
  | error error' =>
      rw [Except.error.injEq]
      constructor
      · rintro rfl
        exact decides
      · rintro ⟨rfl, _⟩
        exact decides.1

theorem onlyFails (decides : Decides rejection computation holds) :
    OnlyFails rejection computation :=
  fun error failed => ((decides.error_iff error).mp failed).1

theorem intro (returns : ∀ value, computation = .ok value ↔ holds value)
    (fails : OnlyFails rejection computation) : Decides rejection computation holds := by
  cases computation with
  | ok value =>
      intro other
      rw [← returns other, Except.ok.injEq]
      exact eq_comm
  | error error =>
      refine ⟨fails error rfl, fun other found => ?_⟩
      exact absurd ((returns other).mpr found) (by simp)

theorem congr {other : Value → Prop} (decides : Decides rejection computation holds)
    (equivalent : ∀ value, holds value ↔ other value) :
    Decides rejection computation other := by
  have same : holds = other := funext fun value => propext (equivalent value)
  rwa [← same]

theorem eq {other : Except Error Value} (decides : Decides rejection computation holds)
    (otherDecides : Decides rejection other holds) : computation = other := by
  cases other with
  | ok value => exact (decides.ok_iff value).mpr ((otherDecides value).mpr rfl)
  | error error => exact (decides.error_iff error).mpr otherDecides

theorem pure (value : Value) :
    Decides rejection (.ok value) (fun other => other = value) :=
  fun _ => Iff.rfl

theorem bind {next : Value → Except Error Next} {after : Value → Next → Prop}
    (decides : Decides rejection computation holds)
    (each : ∀ value, holds value → Decides rejection (next value) (after value)) :
    Decides rejection (computation >>= next)
      (fun result => ∃ value, holds value ∧ after value result) := by
  cases computation with
  | ok value =>
      have only : ∀ other, holds other ↔ other = value := decides
      have continued := each value ((only value).mpr rfl)
      refine continued.congr fun result => ⟨fun found => ⟨value, (only value).mpr rfl, found⟩, ?_⟩
      rintro ⟨other, found, result⟩
      rwa [(only other).mp found] at result
  | error error =>
      refine ⟨decides.1, ?_⟩
      rintro result ⟨value, found, _⟩
      exact decides.2 value found

end Decides

end LedgerQrl.Foundation
