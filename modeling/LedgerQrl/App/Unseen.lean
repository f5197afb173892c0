import LedgerQrl.App.Operations
import LedgerQrl.App.Session

namespace LedgerQrl.App

open Foundation Mldsa87 Display Transaction Program

/-! # What the vectors still hold never shows

Two devices that differ only in the vectors of the signing code give the same
answers, show the same reviews and keep the same journal, whatever happens to both,
and wherever both lose power. -/

section Programs

variable {Result : Type}

theorem indifferent_onNvm {program : NvmProgram Result}
    (indifferent : Indifferent InternalStorage.shown program) :
    Indifferent World.seen (onNvm program) := by
  have masked : ∀ nvm world,
      (World.store nvm.shown (World.seen world)).seen = (World.store nvm world).seen :=
    fun _ _ => rfl
  apply indifferent_within indifferent
  · intro world twin same
    exact congrArg World.nvm same
  · intro nvm other world twin storages worlds
    rw [← masked nvm, ← masked other, storages, worlds]

theorem indifferent_record (entry : Entry) : Indifferent World.seen (record entry) :=
  indifferent_update fun _ => rfl

theorem indifferent_writeIsSendingSignature (flag : UInt8) :
    Indifferent World.seen (writeIsSendingSignature flag) :=
  indifferent_onNvm (indifferent_update fun _ => rfl)

theorem indifferent_newMldsa87FromSeed (shake : Shake) (seed : Vector UInt8 32) :
    Indifferent InternalStorage.shown (newMldsa87FromSeed shake seed) := by
  rw [newMldsa87FromSeed]
  exact indifferent_cryptoSignKeypair shake seed (some seed)

theorem kept_indifferent :
    KeptByActions fun _ program => Indifferent World.seen program where
  pure := indifferent_pure
  bind first second := first.bind second
  read masked each := repeats_read masked each
  quiet _ := indifferent_record _
  setCtx _ := indifferent_update fun _ => rfl
  display _ := indifferent_update fun _ => rfl
  lower := indifferent_writeIsSendingSignature 0
  generate shake seed := indifferent_onNvm (indifferent_newMldsa87FromSeed shake seed)
  entry := indifferent_record
  raise := indifferent_writeIsSendingSignature 1
  sign _ _ _ := indifferent_onNvm (indifferent_cryptoSignOptimized _ _ _ _ _)
  verify _ _ _ _ := indifferent_onNvm (indifferent_cryptoVerifyOptimized _ _ _ _ _)
  wipe := indifferent_onNvm indifferent_wipeNvmSecrets
  chosen _ _ := indifferent_update fun _ => rfl
  started := indifferent_update fun _ => rfl

end Programs

theorem indifferent_perform (platform : Platform) (action : Action) :
    Indifferent World.seen ((app platform).perform action) := by
  apply kept_indifferent.perform platform action
  intro setting _
  cases setting <;> exact indifferent_onNvm (indifferent_update fun _ => rfl)

/-! ## Every run -/

def World.withVectors (vectors : InternalStorage) (world : World) : World :=
  { world with
    nvm := { world.nvm with
      t1 := vectors.t1
      w1 := vectors.w1
      w0 := vectors.w0
      h := vectors.h
      y := vectors.y
      z := vectors.z
      cp := vectors.cp
      pack1 := vectors.pack1 } }

theorem seen_run (platform : Platform) {world twin : World} (same : world.seen = twin.seen)
    (happenings : List (Machine.Happening Action)) :
    ((app platform).CanRun world happenings ↔ (app platform).CanRun twin happenings) ∧
      ((app platform).run world happenings).seen =
        ((app platform).run twin happenings).seen := by
  apply Machine.seen_run (indifferent_perform platform) _ _ happenings same
  · intro world twin same
    exact congrArg World.powerOff same
  · intro world twin action same
    have running := congrArg World.running same
    have review := congrArg World.review same
    have runs : world.running = true ↔ twin.running = true :=
      Eq.to_iff (congrArg (· = true) running)
    cases action with
    | start => exact Eq.to_iff (congrArg (· = false) running)
    | command _ _ => exact runs
    | toggle _ => exact runs
    | choose _ _ =>
        exact and_congr runs
          (Eq.to_iff (congrArg (fun review => review.isSome = true) review))

/-- Whatever the vectors hold, and whatever then happens with losses of power between
any two writes, the same happens as if they held something else: every state that is
reached is also reached then, up to the vectors, by the same happenings. -/
theorem vectors_unseen (platform : Platform) (world : World) (vectors : InternalStorage) :
    (∀ happenings, ((app platform).CanRun (world.withVectors vectors) happenings ↔
        (app platform).CanRun world happenings) ∧
      ((app platform).run (world.withVectors vectors) happenings).seen =
        ((app platform).run world happenings).seen) ∧
      ∀ final, (app platform).Reaches Machine.Anything (world.withVectors vectors) final →
        ∃ happenings, (app platform).CanRun world happenings ∧
          final.seen = ((app platform).run world happenings).seen := by
  have same : (world.withVectors vectors).seen = world.seen := rfl
  constructor
  · exact seen_run platform same
  · intro final reaches
    obtain ⟨happenings, canRun, rfl⟩ := reaches.exists_run
    have both := seen_run platform same happenings
    exact ⟨happenings, both.1.mp canRun, both.2⟩

/-- A session is opened on a device with a mask in `y`, and on one without. -/
theorem vectors_unseen_opening :
    ∃ happenings, (app simplePlatform).CanRun World.started happenings ∧
      (((app simplePlatform).perform (.command (openingCommand 0) derivingEnvironment)).finish
          (World.started.withVectors { InternalStorage.zeroed with
            y := Vector.replicate 7 (Vector.replicate 256 1) })).seen =
        ((app simplePlatform).run World.started happenings).seen :=
  (vectors_unseen simplePlatform World.started _).2 _
    (.performed .start started_running trivial)

end LedgerQrl.App
