import LedgerQrl.App.Served

namespace LedgerQrl.App

open Foundation Mldsa87 Display Transaction

/-! # What the answer to a review can do

Every way in which a callback can end, with the world that it leaves. -/

section Signing

variable (sign : NvmProgram ErrorCode) (verifying : Entry)
  (verify : List UInt8 → NvmProgram (ErrorCode × Bool)) (world : World)

@[simps running ctx nvm review journal]
def World.signed (writes : ℕ) : World :=
  { world with
    nvm := sign.finish world.nvm
    journal := List.replicate writes .sigWritten ++ world.journal }

theorem signAndVerify_signFails (failed : sign.value world.nvm ≠ .none) :
    ∃ writes, writes = sigChanges (sign.history world.nvm) world.nvm ∧
      (signAndVerify sign verifying verify).value world = false ∧
      (signAndVerify sign verifying verify).finish world =
        { World.signed sign world writes with
          nvm := wipeNvmSecrets.finish (sign.finish world.nvm) } := by
  have finish := finish_onNvm_eq sign world
  refine ⟨_, rfl, ?_⟩
  rw [signAndVerify, Program.value_bind, Program.finish_bind, value_onNvm, if_pos failed,
    Program.value_bind, Program.finish_bind,
    finish_onNvm (keeps_sig_of_lasting keeps_lasting_wipe), finish]
  exact ⟨rfl, rfl⟩

theorem isAccepted_of_ne {result : ErrorCode × Bool} (other : result ≠ (.none, true)) :
    isAccepted result = false := by
  obtain ⟨error, isVerified⟩ := result
  cases error with
  | none =>
      cases isVerified with
      | false => rfl
      | true => exact absurd rfl other
  | _ => rfl

@[simps running ctx nvm review journal]
def World.verified (writes : ℕ) (isVerified : Bool) : World :=
  { world with
    nvm := (verify (sign.finish world.nvm).sig.toList).finish (sign.finish world.nvm)
    journal := .verified (sign.finish world.nvm).sig isVerified :: verifying ::
      (World.signed sign world writes).journal }

theorem signAndVerify_signs (succeeded : sign.value world.nvm = .none)
    (keeps : ∀ sig, Keeps lasting (verify sig)) {result : ErrorCode × Bool}
    (outcome : (verify (sign.finish world.nvm).sig.toList).value (sign.finish world.nvm) =
      result) :
    ∃ writes, writes = sigChanges (sign.history world.nvm) world.nvm ∧
      (signAndVerify sign verifying verify).value world = isAccepted result ∧
      (signAndVerify sign verifying verify).finish world =
        { World.verified sign verifying verify world writes result.2 with
          nvm := wipeNvmSecrets.finish
            ((verify (sign.finish world.nvm).sig.toList).finish
              (sign.finish world.nvm)) } := by
  have finish := finish_onNvm_eq sign world
  refine ⟨_, rfl, ?_⟩
  have kept := fun sig => keeps_sig_of_lasting (keeps sig)
  rw [signAndVerify, Program.value_bind, Program.finish_bind, value_onNvm,
    if_neg (not_not_intro succeeded), finish]
  simp only [Program.value_bind, Program.finish_bind, Program.value_read,
    Program.finish_read, finish_record, value_onNvm, finish_onNvm (kept _), World.record,
    finish_onNvm (keeps_sig_of_lasting keeps_lasting_wipe), Program.value_pure,
    Program.finish_pure, World.verified, World.signed, and_true, outcome]

end Signing

section Chosen

variable (platform : Platform) (environment : Environment)

/-- The world in which a transaction has been approved and its signature is
about to be computed. -/
@[simps running ctx nvm review journal]
def World.signing (world : World) : World :=
  { world with
    ctx := { world.ctx with state := .approved }
    journal := .derives world.ctx.path (environment.signSeed world.ctx.path) ::
      .signs world.ctx.path world.ctx.mHash :: world.journal }

def World.unsigned (world : World) : World :=
  World.record (.answered (.status .signatureFail))
    { world with ctx := { world.ctx with state := .none } }

@[simp] theorem unsigned_nvm (world : World) : world.unsigned.nvm = world.nvm := rfl

@[simp] theorem unsigned_journal (world : World) :
    world.unsigned.journal = .answered (.status .signatureFail) :: world.journal := rfl

@[simps running ctx nvm review journal]
def World.released (world : World) : World :=
  { world.record (.answered (.signature 0 (chunkOf world.nvm.sig 0 signatureChunkSize)))
      with nvm := { world.nvm with isSendingSignature := 1 } }

def signedNvm (world : World) : InternalStorage :=
  (signProgram platform environment world.ctx).finish world.nvm

def verification (world : World) : NvmProgram (ErrorCode × Bool) :=
  verifyProgram platform environment world.ctx (signedNvm platform environment world).sig.toList

def signChanges (world : World) : ℕ :=
  sigChanges ((signProgram platform environment world.ctx).history world.nvm) world.nvm

inductive Chosen (world : World) : Review → Bool → World → Prop where
  | addressConfirmed {text : List Char} :
      Chosen world (.address text) true
        (world.record (.answered (.address
          (zondAddressPrefix :: world.ctx.address.toList))))
  | addressRejected {text : List Char} :
      Chosen world (.address text) false (world.record (.answered (.status .deny)))
  | transactionRejected {pairs : List Pair} {origin : Origin} :
      Chosen world (.transaction pairs origin) false
        (World.record (.answered (.status .deny))
          { world with ctx := { world.ctx with state := .none } })
  | signingFailed {pairs : List Pair} {origin : Origin} (writes : ℕ) :
      (signProgram platform environment world.ctx).value world.nvm ≠ .none →
      writes = signChanges platform environment world →
        Chosen world (.transaction pairs origin) true
          (World.unsigned
            { World.signed (signProgram platform environment world.ctx)
                (world.signing environment) writes with
              nvm := wipeNvmSecrets.finish (signedNvm platform environment world) })
  | verificationFailed {pairs : List Pair} {origin : Origin} (writes : ℕ) :
      (signProgram platform environment world.ctx).value world.nvm = .none →
      (verification platform environment world).value
        (signedNvm platform environment world) ≠ (.none, true) →
      writes = signChanges platform environment world →
        Chosen world (.transaction pairs origin) true
          (World.unsigned
            { World.verified (signProgram platform environment world.ctx)
                (.derives world.ctx.path (environment.verifySeed world.ctx.path))
                (verifyProgram platform environment world.ctx) (world.signing environment)
                writes
                ((verification platform environment world).value
                  (signedNvm platform environment world)).2 with
              nvm := wipeNvmSecrets.finish ((verification platform environment world).finish
                (signedNvm platform environment world)) })
  | released {pairs : List Pair} {origin : Origin} (writes : ℕ) :
      (signProgram platform environment world.ctx).value world.nvm = .none →
      (verification platform environment world).value
        (signedNvm platform environment world) = (.none, true) →
      writes = signChanges platform environment world →
        Chosen world (.transaction pairs origin) true
          (World.released
            { World.verified (signProgram platform environment world.ctx)
                (.derives world.ctx.path (environment.verifySeed world.ctx.path))
                (verifyProgram platform environment world.ctx) (world.signing environment)
                writes true with
              nvm := wipeNvmSecrets.finish ((verification platform environment world).finish
                (signedNvm platform environment world)) })

variable {platform environment}

theorem keeps_lasting_verifyProgram (ctx : GlobalCtx) (sig : List UInt8) :
    Keeps lasting (verifyProgram platform environment ctx sig) := by
  rw [verifyProgram]
  exact keeps_lasting_verify _ _ _ _ _

theorem keeps_flags_signProgram (ctx : GlobalCtx) :
    Keeps flags (signProgram platform environment ctx) := by
  rw [signProgram]
  exact keeps_flags_sign _ _ _ _ _

theorem finish_helperSendResponseSig_first (world : World) :
    (helperSendResponseSig 0).finish world = world.released := by
  rw [helperSendResponseSig, Program.finish_bind, Program.value_read, Program.finish_read,
    if_pos (show 0 < 17 by decide), if_pos rfl, Program.finish_bind, finish_answer,
    finish_writeIsSendingSignature, Nat.zero_mul]
  rfl

theorem approved_programs (platform : Platform) (environment : Environment) (ctx : GlobalCtx) :
    ({ ctx with state := .approved } : GlobalCtx).path = ctx.path ∧
      signProgram platform environment { ctx with state := .approved } =
        signProgram platform environment ctx ∧
      verifyProgram platform environment { ctx with state := .approved } =
        verifyProgram platform environment ctx := by
  refine ⟨?_, ?_, ?_⟩
  · simp only [GlobalCtx.path]
  · simp only [signProgram, GlobalCtx.path]
  · funext sig
    simp only [verifyProgram, GlobalCtx.path]

theorem finish_validateTransaction (world : World) :
    (validateTransaction platform environment true).finish world =
      if (signAndVerify (signProgram platform environment world.ctx)
          (.derives world.ctx.path (environment.verifySeed world.ctx.path))
          (verifyProgram platform environment world.ctx)).value
            (world.signing environment) = true then
        ((signAndVerify (signProgram platform environment world.ctx)
          (.derives world.ctx.path (environment.verifySeed world.ctx.path))
          (verifyProgram platform environment world.ctx)).finish
            (world.signing environment)).released
      else
        ((signAndVerify (signProgram platform environment world.ctx)
          (.derives world.ctx.path (environment.verifySeed world.ctx.path))
          (verifyProgram platform environment world.ctx)).finish
            (world.signing environment)).unsigned := by
  have same := approved_programs platform environment world.ctx
  rw [validateTransaction, if_pos rfl, Program.finish_bind, finish_setCtx,
    Program.finish_bind, cryptoSignMessage]
  simp only [Program.value_bind, Program.finish_bind, value_getCtx, finish_getCtx,
    finish_record, World.record]
  rw [same.1, same.2.1, same.2.2, Program.finish_ite, finish_helperSendResponseSig_first]
  rfl

theorem verification_eq (platform : Platform) (environment : Environment) (world : World) :
    (verifyProgram platform environment world.ctx
        ((signProgram platform environment world.ctx).finish
          (world.signing environment).nvm).sig.toList).value
      ((signProgram platform environment world.ctx).finish (world.signing environment).nvm) =
      (verification platform environment world).value
        (signedNvm platform environment world) := by
  rw [verification, signedNvm, World.signing]

theorem chosen_approved (world : World) (pairs : List Pair) (origin : Origin) :
    Chosen platform environment world (.transaction pairs origin) true
      ((validateTransaction platform environment true).finish world) := by
  rw [finish_validateTransaction]
  by_cases signed : (signProgram platform environment world.ctx).value world.nvm = .none
  · obtain ⟨writes, changes, value, finish⟩ := signAndVerify_signs
      (signProgram platform environment world.ctx)
      (.derives world.ctx.path (environment.verifySeed world.ctx.path))
      (verifyProgram platform environment world.ctx) (world.signing environment) signed
      (fun sig => keeps_lasting_verifyProgram world.ctx sig)
      (verification_eq platform environment world)
    rw [value, finish]
    by_cases verified : (verification platform environment world).value
        (signedNvm platform environment world) = (.none, true)
    · have released : Chosen platform environment world (.transaction pairs origin) true _ :=
        .released writes signed verified changes
      rw [verified, if_pos (show isAccepted (.none, true) = true from rfl)]
      exact released
    · have failed : Chosen platform environment world (.transaction pairs origin) true _ :=
        .verificationFailed writes signed verified changes
      rw [isAccepted_of_ne verified, if_neg Bool.false_ne_true]
      exact failed
  · obtain ⟨writes, changes, value, finish⟩ := signAndVerify_signFails
      (signProgram platform environment world.ctx)
      (.derives world.ctx.path (environment.verifySeed world.ctx.path))
      (verifyProgram platform environment world.ctx) (world.signing environment) signed
    have failed : Chosen platform environment world (.transaction pairs origin) true _ :=
      .signingFailed writes signed changes
    rw [value, if_neg Bool.false_ne_true, finish]
    exact failed

theorem chosen (world : World) (review : Review) (confirm : Bool) :
    Chosen platform environment world review confirm
      ((review.choice platform environment confirm).finish world) := by
  cases review with
  | address text =>
      cases confirm with
      | false => exact .addressRejected
      | true => exact .addressConfirmed
  | transaction pairs origin =>
      cases confirm with
      | false => exact .transactionRejected
      | true => exact chosen_approved world pairs origin

theorem Chosen.ctx {world final : World} {review : Review} {confirm : Bool}
    (chosen : Chosen platform environment world review confirm final) :
    ∃ state, final.ctx = { world.ctx with state := state } := by
  cases chosen with
  | addressConfirmed => exact ⟨world.ctx.state, rfl⟩
  | addressRejected => exact ⟨world.ctx.state, rfl⟩
  | transactionRejected => exact ⟨.none, rfl⟩
  | signingFailed _ _ => exact ⟨.none, rfl⟩
  | verificationFailed _ _ _ => exact ⟨.none, rfl⟩
  | released _ _ _ => exact ⟨.approved, rfl⟩

theorem Chosen.running {world final : World} {review : Review} {confirm : Bool}
    (chosen : Chosen platform environment world review confirm final) :
    final.running = world.running ∧ final.review = world.review := by
  cases chosen <;> exact ⟨rfl, rfl⟩

@[simps running ctx nvm review journal]
def World.answering (world : World) (review : Review) (confirm : Bool) : World :=
  { world with review := none, journal := .chose review confirm :: world.journal }

theorem chosen_review {world : World} {review : Review} (shown : world.review = some review)
    (confirm : Bool) :
    Chosen platform environment (world.answering review confirm) review confirm
      ((chooseReview platform environment confirm).finish world) := by
  rw [chooseReview, Program.finish_bind, Program.value_read, Program.finish_read, shown]
  dsimp only
  rw [Program.finish_bind, Program.finish_update]
  exact chosen (world.answering review confirm) review confirm

theorem finish_chooseReview_none {world : World} (none : world.review = none)
    (confirm : Bool) : (chooseReview platform environment confirm).finish world = world := by
  rw [chooseReview, Program.finish_bind, Program.value_read, Program.finish_read, none]
  rfl

/-! ## Settings and start -/

theorem finish_controlsCallback (setting : Setting) (world : World) :
    ∃ nvm, (controlsCallback setting).finish world = { world with nvm := nvm } ∧
      nvm.sig = world.nvm.sig ∧ nvm.pk = world.nvm.pk ∧
      nvm.isSendingSignature = world.nvm.isSendingSignature := by
  refine ⟨_, finish_onNvm (keeps_update fun storage => ?_) world, ?_⟩
  · cases setting <;> rfl
  · cases setting <;> exact ⟨rfl, rfl, rfl⟩

theorem finish_appStart (world : World) :
    appStart.finish world =
      { world with
        running := true
        ctx := .zero
        nvm := wipeNvmSecrets.finish world.nvm
        journal := .started :: world.journal } := by
  rw [appStart, Program.finish_bind, finish_record, Program.finish_bind,
    finish_onNvm (keeps_sig_of_lasting keeps_lasting_wipe), Program.finish_update]
  rfl

end Chosen

end LedgerQrl.App
