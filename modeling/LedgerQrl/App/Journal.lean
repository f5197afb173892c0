import LedgerQrl.App.Steps

namespace LedgerQrl.App

open Foundation Mldsa87 Display Transaction

/-! # The journal only grows

No program of the app takes an entry back. -/

theorem grows_perform (platform : Platform) (action : Action) :
    Program.Grows World.journal ((app platform).perform action) :=
  (follows_perform platform action).grows fun _ _ step => step.journal

/-! ## Runs -/

section Runs

variable {platform : Platform} {allowed : World → Action → Prop} {world : World}
  {Invariant : World → Prop} {Holds : Entry → List Entry → Prop}

/-- What is kept and what is added by each kind of action, for an invariant that
says nothing of an app that does not run. -/
theorem Reachable.always
    (off : ∀ world : World, world.running = false → Invariant world)
    (started : ∀ world : World, Invariant world → Always Holds world.journal →
      Invariant (appStart.finish world) ∧ Always Holds (appStart.finish world).journal)
    (served : ∀ (world final : World) (command : Command) (environment : Environment),
      Invariant world → Always Holds world.journal → world.running = true →
      allowed world (.command command environment) →
      Served platform environment (world.record (.received command)) command.request
        final → Invariant final ∧ Always Holds final.journal)
    (chosen : ∀ (world final : World) (review : Review) (confirm : Bool)
      (environment : Environment),
      Invariant world → Always Holds world.journal → world.running = true →
      world.review = some review → allowed world (.choose confirm environment) →
      Chosen platform environment (world.answering review confirm) review confirm
        final → Invariant final ∧ Always Holds final.journal)
    (toggled : ∀ (world : World) (nvm : InternalStorage), Invariant world →
      nvm.sig = world.nvm.sig → nvm.pk = world.nvm.pk →
      nvm.isSendingSignature = world.nvm.isSendingSignature →
        Invariant { world with nvm := nvm })
    (reachable : Reachable platform allowed world) :
    Invariant world ∧ Always Holds world.journal := by
  refine Machine.Reaches.always ⟨off _ rfl, always_nil⟩ (grows_perform platform)
    (fun _ => rfl) ?_ ?_ reachable
  · intro world action invariant always enabled permitted
    cases action with
    | start => exact started world invariant always
    | command command environment =>
        exact served world _ command environment invariant always enabled permitted
          (served_command command)
    | choose confirm environment =>
        obtain ⟨review, shown⟩ := Option.isSome_iff_exists.mp enabled.2
        exact chosen world _ review confirm environment invariant always enabled.1 shown
          permitted (chosen_review shown confirm)
    | toggle setting =>
        obtain ⟨nvm, finish, sig, pk, flag⟩ := finish_controlsCallback setting world
        rw [perform_toggle, finish]
        exact ⟨toggled world nvm invariant sig pk flag, always⟩
  · intro world action _ _ _ content _
    exact off _ rfl

end Runs

end LedgerQrl.App
