import LedgerQrl.App.Handlers
import LedgerQrl.Foundation.Machine

namespace LedgerQrl.App

open Foundation

/-! # The app as a system

One handler or callback runs at a time. A command may arrive while a review is
on the screen. -/

inductive Action where
  | start
  | command (command : Command) (environment : Environment)
  | choose (confirm : Bool) (environment : Environment)
  | toggle (setting : Setting)

def app (platform : Platform) : Machine World Action where
  perform action :=
    match action with
    | .start => appStart
    | .command command environment => apduDispatcher platform environment command
    | .choose confirm environment => chooseReview platform environment confirm
    | .toggle setting => controlsCallback setting
  enabled world action :=
    match action with
    | .start => world.running = false
    | .command .. => world.running = true
    | .choose .. => world.running = true ∧ world.review.isSome = true
    | .toggle _ => world.running = true
  powerOff := World.powerOff

/-- The contents between the actions of the runs of a device, from the
installation of the app. -/
abbrev Reachable (platform : Platform) (allowed : World → Action → Prop) :
    World → Prop :=
  (app platform).Reaches allowed .installed

section Perform

variable (platform : Platform)

@[simp] theorem perform_start : (app platform).perform .start = appStart := rfl

@[simp] theorem perform_command (command : Command) (environment : Environment) :
    (app platform).perform (.command command environment) =
      apduDispatcher platform environment command := rfl

@[simp] theorem perform_choose (confirm : Bool) (environment : Environment) :
    (app platform).perform (.choose confirm environment) =
      chooseReview platform environment confirm := rfl

@[simp] theorem perform_toggle (setting : Setting) :
    (app platform).perform (.toggle setting) = controlsCallback setting := rfl

end Perform

end LedgerQrl.App
