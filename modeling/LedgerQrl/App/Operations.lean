import LedgerQrl.App.System
import LedgerQrl.Mldsa87.Scratch

namespace LedgerQrl.App

open Foundation Mldsa87 Display Transaction

/-! # What the operations keep, every handler keeps

A property of programs that the operations of the app have, and that sequencing keeps,
is a property of every handler, of every callback and of the start. -/

/-- The device without the vectors of the signing code. -/
def World.seen (world : World) : World := { world with nvm := world.nvm.shown }

def Entry.Quiet : Entry → Prop
  | .signs .. | .sigWritten | .verified .. => False
  | _ => True

/-- A property that sequencing keeps, and that the operations have which serve requests:
these read nothing of the vectors, and they neither sign nor send a first part. -/
structure KeptByRequests (Holds : (Result : Type) → AppProgram Result → Prop) : Prop where
  pure {Result : Type} (result : Result) : Holds Result (pure result)
  bind {Result Next : Type} {program : AppProgram Result}
    {next : Result → AppProgram Next} : Holds Result program →
      (∀ result, Holds Next (next result)) → Holds Next (program >>= next)
  read {Next : Type} {next : World → AppProgram Next} :
    (∀ world, next world.seen = next world) → (∀ world, Holds Next (next world)) →
      Holds Next (Program.read >>= next)
  quiet {entry : Entry} : entry.Quiet → Holds Unit (record entry)
  setCtx (change : GlobalCtx → GlobalCtx) : Holds Unit (setCtx change)
  display (review : Review) : Holds Unit (display review)
  lower : Holds Unit (writeIsSendingSignature 0)
  generate (shake : Shake) (seed : Vector UInt8 32) :
    Holds ErrorCode (onNvm (newMldsa87FromSeed shake seed))

/-- The operations of the callbacks and of the start have the property as well. -/
structure KeptByActions (Holds : (Result : Type) → AppProgram Result → Prop) : Prop
    extends KeptByRequests Holds where
  entry (entry : Entry) : Holds Unit (record entry)
  raise : Holds Unit (writeIsSendingSignature 1)
  sign (platform : Platform) (environment : Environment) (ctx : GlobalCtx) :
    Holds ErrorCode (onNvm (signProgram platform environment ctx))
  verify (platform : Platform) (environment : Environment) (ctx : GlobalCtx)
    (sig : List UInt8) :
      Holds (ErrorCode × Bool) (onNvm (verifyProgram platform environment ctx sig))
  wipe : Holds Unit (onNvm wipeNvmSecrets)
  chosen (review : Review) (confirm : Bool) : Holds Unit (Program.update fun world =>
    { world with review := none, journal := .chose review confirm :: world.journal })
  started : Holds Unit
    (Program.update fun world => { world with running := true, ctx := .zero })

/-! ## Requests -/

theorem holds_ite {Holds : (Result : Type) → AppProgram Result → Prop} {Result : Type}
    {condition : Prop} [Decidable condition] {first second : AppProgram Result}
    (left : condition → Holds Result first) (right : ¬ condition → Holds Result second) :
    Holds Result (if condition then first else second) := by
  split
  · exact left (by assumption)
  · exact right (by assumption)

namespace KeptByRequests

variable {Holds : (Result : Type) → AppProgram Result → Prop} (kept : KeptByRequests Holds)
  (platform : Platform) (environment : Environment)

include kept

theorem getCtx : Holds GlobalCtx getCtx :=
  kept.read (fun _ => rfl) fun _ => kept.pure _

theorem answer (response : Response) : Holds Unit (answer response) :=
  kept.quiet trivial

theorem ioSendSw (status : StatusWord) : Holds Unit (ioSendSw status) :=
  kept.answer _

theorem refuse {Result : Type} (status : StatusWord) (result : Result) :
    Holds Result (do App.ioSendSw status; Pure.pure result) :=
  kept.bind (kept.ioSendSw status) fun _ => kept.pure result

theorem helperSendResponseAddress : Holds Unit helperSendResponseAddress :=
  kept.bind kept.getCtx fun _ => kept.answer _

theorem helperSendResponseSig {index : ℕ}
    (raised : index = 0 → Holds Unit (writeIsSendingSignature 1)) :
    Holds Unit (helperSendResponseSig index) := by
  have flag : Holds Unit (if index = 0 then writeIsSendingSignature 1
      else if index = 17 then writeIsSendingSignature 0 else Pure.pure ()) :=
    holds_ite raised fun _ => holds_ite (fun _ => kept.lower) fun _ => kept.pure ()
  refine kept.read (fun _ => rfl) fun world => holds_ite (fun _ => ?_) fun _ => ?_
  · exact kept.bind (kept.answer _) fun _ => flag
  · exact kept.bind (kept.answer _) fun _ => flag

theorem helperSendResponsePkChunk (index : ℕ) :
    Holds Unit (helperSendResponsePkChunk index) :=
  kept.read (fun _ => rfl) fun _ => holds_ite (fun _ => kept.ioSendSw _) fun _ => kept.answer _

theorem beginRequest (reqType : RequestType) (data : List UInt8) :
    Holds Bool (beginRequest platform reqType data) :=
  kept.bind (kept.setCtx _) fun _ =>
    holds_ite (fun _ => kept.pure _) fun _ => kept.refuse _ _

theorem addressFromBip32Path :
    Holds (Option ℕ) (addressFromBip32Path platform environment) := by
  refine kept.bind kept.getCtx fun ctx => kept.bind (kept.quiet trivial) fun _ => ?_
  cases environment.addressSeed ctx.path with
  | error error => exact kept.pure _
  | ok rawSeed =>
      refine kept.bind (kept.generate _ _) fun _ => holds_ite (fun _ => kept.pure _) fun _ => ?_
      refine kept.read (fun _ => rfl) fun _ => ?_
      exact kept.bind (kept.setCtx _) fun _ => kept.pure _

theorem uiDisplayAddress : Holds Unit (uiDisplayAddress platform) := by
  refine kept.bind kept.getCtx fun ctx => holds_ite
    (fun _ => kept.bind (kept.setCtx _) fun _ => kept.ioSendSw _) fun _ => ?_
  cases formatChecksummedAddress platform.shake.shake256 ctx.address
      (cleared (1 + addressSize * 2 + 1)) with
  | error fault => exact kept.pure ()
  | ok result =>
      obtain ⟨done, text⟩ := result
      cases done with
      | false => exact kept.ioSendSw _
      | true =>
          dsimp only
          cases shown text with
          | error fault => exact kept.pure ()
          | ok text => exact kept.display _

theorem handlerGetPublicKey (data : List UInt8) (display : Bool) :
    Holds Unit (handlerGetPublicKey platform environment data display) := by
  refine kept.bind (kept.beginRequest platform _ data) fun valid =>
    holds_ite (fun _ => ?_) fun _ => kept.pure ()
  refine kept.bind (kept.addressFromBip32Path platform environment) fun error => ?_
  cases error with
  | some error => exact kept.ioSendSw _
  | none =>
      exact holds_ite (fun _ => kept.uiDisplayAddress platform) fun _ =>
        kept.helperSendResponseAddress

theorem uiDisplayTransactionBsChoice (isBlindSigned : Bool) (tx : ZondTx) :
    Holds Unit (uiDisplayTransactionBsChoice platform environment isBlindSigned tx) := by
  refine kept.bind kept.getCtx fun ctx => holds_ite
    (fun _ => kept.bind (kept.setCtx _) fun _ => kept.ioSendSw _) fun _ => ?_
  refine kept.bind (kept.addressFromBip32Path platform environment) fun error => ?_
  cases error with
  | some error => exact kept.ioSendSw _
  | none =>
      refine kept.read (fun _ => rfl) fun world => ?_
      cases formatReview platform.shake.shake256 (reviewSettings world.nvm)
          world.ctx.address world.ctx.mHash.toList tx environment.buffers with
      | error fault => exact kept.pure ()
      | ok outcome =>
          cases outcome with
          | error status => exact kept.ioSendSw _
          | ok pairs => exact kept.display _

theorem takeChunk (data : List UInt8) (final : Bool) :
    Holds Bool (takeChunk platform data final) := by
  refine kept.bind kept.getCtx fun ctx => holds_ite (fun _ => kept.refuse _ _) fun _ =>
    holds_ite (fun _ => kept.refuse _ _) fun _ => ?_
  cases platform.sdk.move data data.length with
  | none => exact kept.refuse _ _
  | some bytes =>
      exact kept.bind (kept.setCtx _) fun _ =>
        kept.bind (kept.quiet trivial) fun _ => kept.pure _

theorem reviewTransaction : Holds Unit (reviewTransaction platform environment) := by
  refine kept.read (fun _ => rfl) fun world => ?_
  cases decodeLedgerTx platform.sizeWidth world.ctx.transaction .zero with
  | error fault => exact kept.ioSendSw _
  | ok tx =>
      exact kept.bind (kept.quiet trivial) fun _ => holds_ite (fun _ => kept.ioSendSw _)
        fun _ => kept.uiDisplayTransactionBsChoice platform environment _ tx

theorem signTxFirst (data : List UInt8) : Holds Unit (signTxFirst platform data) :=
  kept.bind (kept.beginRequest platform _ data) fun _ =>
    holds_ite (fun _ => kept.ioSendSw _) fun _ => kept.pure ()

theorem signTxMore (data : List UInt8) : Holds Unit (signTxMore platform data) :=
  kept.bind (kept.takeChunk platform data false) fun _ =>
    holds_ite (fun _ => kept.ioSendSw _) fun _ => kept.pure ()

theorem signTxLast (data : List UInt8) :
    Holds Unit (signTxLast platform environment data) :=
  kept.bind (kept.takeChunk platform data true) fun _ => holds_ite
    (fun _ => kept.bind (kept.setCtx _) fun _ => kept.bind (kept.setCtx _) fun _ =>
      kept.reviewTransaction platform environment) fun _ => kept.pure ()

theorem signTxChunk {p2 : UInt8} (positive : p2 > 0) : Holds Unit (signTxChunk p2) := by
  have later : p2.toNat ≠ 0 := Nat.ne_of_gt (UInt8.lt_iff_toNat_lt.mp positive)
  refine kept.read (fun _ => rfl) fun _ => holds_ite (fun _ => kept.ioSendSw _) fun _ => ?_
  exact holds_ite (fun _ => kept.helperSendResponseSig fun first => absurd first later)
    fun _ => kept.ioSendSw _

theorem handlerSignTx (data : List UInt8) (p1 p2 : UInt8) :
    Holds Unit (handlerSignTx platform environment data p1 p2) :=
  holds_ite (fun _ => kept.signTxFirst platform data) fun _ =>
    holds_ite (fun _ => kept.signTxMore platform data) fun _ =>
      holds_ite (fun _ => kept.signTxLast platform environment data) fun _ =>
        holds_ite (fun asks => kept.signTxChunk asks.2.1) fun _ => kept.ioSendSw _

theorem serve (request : Request) : Holds Unit (serve platform environment request) := by
  cases request with
  | refused status => exact kept.ioSendSw _
  | getVersion => exact kept.answer _
  | getAppName => exact kept.answer _
  | getPublicKey data display => exact kept.handlerGetPublicKey platform environment _ _
  | getPublicKeyChunk index => exact kept.helperSendResponsePkChunk _
  | signTx data p1 p2 => exact kept.handlerSignTx platform environment _ _ _

theorem apduDispatcher (command : Command) :
    Holds Unit (apduDispatcher platform environment command) :=
  kept.bind (kept.quiet trivial) fun _ => kept.serve platform environment _

theorem validatePubkey (choice : Bool) : Holds Unit (validatePubkey choice) :=
  holds_ite (fun _ => kept.helperSendResponseAddress) fun _ => kept.ioSendSw _

end KeptByRequests

/-! ## Callbacks and the start -/

namespace KeptByActions

variable {Holds : (Result : Type) → AppProgram Result → Prop} (kept : KeptByActions Holds)
  (platform : Platform) (environment : Environment)

include kept

theorem cryptoSignMessage : Holds Bool (cryptoSignMessage platform environment) := by
  refine kept.bind kept.getCtx fun ctx => kept.bind (kept.entry _) fun _ =>
    kept.bind (kept.entry _) fun _ => kept.bind (kept.sign platform environment ctx) fun _ =>
      holds_ite (fun _ => kept.bind kept.wipe fun _ => kept.pure _) fun _ => ?_
  refine kept.read (fun _ => rfl) fun _ => kept.bind (kept.entry _) fun _ =>
    kept.bind (kept.verify platform environment ctx _) fun _ => ?_
  exact kept.bind (kept.entry _) fun _ => kept.bind kept.wipe fun _ => kept.pure _

theorem validateTransaction (choice : Bool) :
    Holds Unit (validateTransaction platform environment choice) := by
  have refused : ∀ status, Holds Unit (do
      setCtx fun ctx => { ctx with state := .none }
      ioSendSw status) := fun status =>
    kept.bind (kept.setCtx _) fun _ => kept.ioSendSw status
  refine holds_ite (fun _ => kept.bind (kept.setCtx _) fun _ => ?_) fun _ => refused _
  exact kept.bind (kept.cryptoSignMessage platform environment) fun _ =>
    holds_ite (fun _ => kept.helperSendResponseSig fun _ => kept.raise) fun _ => refused _

theorem chooseReview (confirm : Bool) :
    Holds Unit (chooseReview platform environment confirm) := by
  refine kept.read (fun _ => rfl) fun world => ?_
  cases world.review with
  | none => exact kept.pure ()
  | some review =>
      refine kept.bind (kept.chosen review confirm) fun _ => ?_
      cases review with
      | address text => exact kept.validatePubkey confirm
      | transaction pairs origin => exact kept.validateTransaction platform environment confirm

theorem appStart : Holds Unit appStart :=
  kept.bind (kept.entry _) fun _ => kept.bind kept.wipe fun _ => kept.started

theorem perform (action : Action)
    (switched : ∀ setting, action = .toggle setting → Holds Unit (controlsCallback setting)) :
    Holds Unit ((app platform).perform action) := by
  cases action with
  | start => exact kept.appStart
  | command command environment => exact kept.apduDispatcher platform environment command
  | choose confirm environment => exact kept.chooseReview platform environment confirm
  | toggle setting => exact switched setting rfl

end KeptByActions

end LedgerQrl.App
