import LedgerQrl.App.Chosen
import LedgerQrl.App.Operations
import LedgerQrl.Foundation.History

namespace LedgerQrl.App

open Foundation Mldsa87 Display Transaction

/-! # Single updates of the app

What one update of the context or of the storage can do. A cut can come behind
any of them. -/

def Setting.value : Setting → InternalStorage → UInt8
  | .blindSigning, storage => storage.enableBlindSigning
  | .nonce, storage => storage.displayNonce
  | .txHash, storage => storage.displayTxHash

/-- What `controls_callback` writes. -/
def Setting.switch (setting : Setting) (storage : InternalStorage) : InternalStorage :=
  match setting with
  | .blindSigning =>
      { storage with enableBlindSigning := switched storage.enableBlindSigning }
  | .nonce => { storage with displayNonce := switched storage.displayNonce }
  | .txHash => { storage with displayTxHash := switched storage.displayTxHash }

theorem value_switch (setting other : Setting) (storage : InternalStorage) :
    other.value (setting.switch storage) =
      if setting = other then switched (other.value storage) else other.value storage := by
  cases setting <;> cases other <;> rfl

theorem sig_switch (setting : Setting) (storage : InternalStorage) :
    (setting.switch storage).sig = storage.sig := by
  cases setting <;> rfl

/-- One update, by an action that may switch some settings. -/
inductive Step (switches : Setting → Prop) : World → World → Prop where
  | started (world : World) :
      Step switches world { world with running := true, ctx := .zero }
  | setCtx (world : World) (ctx : GlobalCtx) : Step switches world { world with ctx := ctx }
  | recorded (world : World) (entry : Entry) : Step switches world (world.record entry)
  | displayed (world : World) (review : Review) : Step switches world (world.shown review)
  | chosen (world : World) (review : Review) (confirm : Bool) :
      Step switches world (world.answering review confirm)
  /-- Key generation, verification and the wipe leave the signature alone. -/
  | scratch (world : World) (nvm : InternalStorage) : lasting nvm = lasting world.nvm →
      Step switches world { world with nvm := nvm }
  /-- Signing writes the signature. -/
  | signing (world : World) (nvm : InternalStorage) : flags nvm = flags world.nvm →
      Step switches world (world.store nvm)
  | sending (world : World) (flag : UInt8) :
      Step switches world
        { world with nvm := { world.nvm with isSendingSignature := flag } }
  | switched (world : World) (setting : Setting) : switches setting →
      Step switches world { world with nvm := setting.switch world.nvm }

namespace Step

variable {switches : Setting → Prop} {before after : World}

theorem journal (step : Step switches before after) : before.journal <:+ after.journal := by
  cases step with
  | recorded entry => exact List.suffix_cons _ _
  | displayed review => exact List.suffix_cons _ _
  | chosen review confirm => exact List.suffix_cons _ _
  | signing nvm _ =>
      rw [World.store]
      split
      · exact List.suffix_rfl
      · exact List.suffix_cons _ _
  | _ => exact List.suffix_rfl

end Step

/-! ## Rules -/

section Rules

variable {switches : Setting → Prop} {Result : Type}

abbrev Follows (switches : Setting → Prop) (program : AppProgram Result) : Prop :=
  Program.Follows (Step switches) program

theorem follows_record (entry : Entry) : Follows switches (record entry) :=
  Program.follows_update fun world => .recorded world entry

theorem follows_setCtx (change : GlobalCtx → GlobalCtx) : Follows switches (setCtx change) :=
  Program.follows_update fun world => .setCtx world (change world.ctx)

theorem follows_display (review : Review) : Follows switches (display review) :=
  Program.follows_update fun world => .displayed world review

theorem follows_scratch {program : NvmProgram Result} (keeps : Keeps lasting program) :
    Follows switches (onNvm program) := by
  apply Program.follows_within (Program.follows_of_preserves keeps)
  · intro nvm world
    rfl
  · intro nvm world same
    have step : Step switches world { world with nvm := nvm } := .scratch world nvm same
    rw [World.store, if_pos (of_lasting same).1]
    exact step

theorem follows_signing {program : NvmProgram Result} (keeps : Keeps flags program) :
    Follows switches (onNvm program) := by
  apply Program.follows_within (Program.follows_of_preserves keeps)
  · intro nvm world
    rfl
  · intro nvm world same
    exact .signing world nvm same

theorem follows_write {change : InternalStorage → InternalStorage}
    (sig : ∀ storage, (change storage).sig = storage.sig)
    (step : ∀ world, Step switches world { world with nvm := change world.nvm }) :
    Follows switches (onNvm (Program.update change)) := by
  have written : Program.Follows (fun before after => after = change before)
      (Program.update change) := Program.follows_update fun _ => rfl
  apply Program.follows_within written
  · intro nvm world
    rfl
  · intro nvm world equal
    rw [equal, World.store, if_pos (sig _)]
    exact step world

theorem follows_writeIsSendingSignature (flag : UInt8) :
    Follows switches (writeIsSendingSignature flag) :=
  follows_write (fun _ => rfl) fun world => .sending world flag

theorem follows_controlsCallback (setting : Setting) (allowed : switches setting) :
    Follows switches (controlsCallback setting) := by
  have step : ∀ world, Step switches world { world with nvm := setting.switch world.nvm } :=
    fun world => .switched world setting allowed
  exact follows_write (sig_switch setting) step

end Rules

/-! ## Actions -/

theorem kept_follows {switches : Setting → Prop} :
    KeptByActions fun _ program => Follows switches program where
  pure := Program.follows_pure
  bind first second := Program.follows_bind first second
  read _ each := Program.follows_bind Program.follows_read each
  quiet _ := follows_record _
  setCtx := follows_setCtx
  display := follows_display
  lower := follows_writeIsSendingSignature 0
  generate shake seed := follows_scratch (keeps_newMldsa87FromSeed shake seed)
  entry := follows_record
  raise := follows_writeIsSendingSignature 1
  sign _ _ ctx := follows_signing (keeps_flags_signProgram ctx)
  verify _ _ ctx sig := follows_scratch (keeps_lasting_verifyProgram ctx sig)
  wipe := follows_scratch keeps_lasting_wipe
  chosen review confirm := Program.follows_update fun world => .chosen world review confirm
  started := Program.follows_update fun world => .started world

def Action.Switches : Action → Setting → Prop
  | .toggle setting, switched => setting = switched
  | _, _ => False

theorem follows_perform (platform : Platform) (action : Action) :
    Follows action.Switches ((app platform).perform action) := by
  apply kept_follows.perform platform action
  intro setting toggles
  rw [toggles]
  exact follows_controlsCallback setting rfl

end LedgerQrl.App
