import LedgerQrl.App.Effects

namespace LedgerQrl.App

open Foundation Mldsa87 Display Transaction

/-! # What serving a request can do

Every way in which a request can be served, with the world that it leaves. -/

/-- The requests that clear the context, with the type and the data they carry. -/
def Request.opens : Request → Option (RequestType × List UInt8)
  | .getPublicKey data _ => some (.confirmAddress, data)
  | .signTx data p1 _ => if p1 = 0 then some (.confirmTransaction, data) else none
  | _ => none

/-- `p1 == 1`, or `p1 == 2 && p2 == 0`. -/
def CarriesChunk (p1 p2 : UInt8) : Prop := p1 = 1 ∨ p1 = 2 ∧ p2 = 0

/-- `p1 == 2 && p2 > 0 && p2 < 18`. -/
def AsksSignature (p1 p2 : UInt8) : Prop := p1 = 2 ∧ 0 < p2 ∧ p2 < 18

/-- The requests that are only answered with a status word. -/
inductive TurnedAway (world : World) : Request → StatusWord → Prop where
  | refused (status : StatusWord) : TurnedAway world (.refused status) status
  | beyond {index : ℕ} : pkChunks ≤ index →
      TurnedAway world (.getPublicKeyChunk index) .wrongDataLength
  | badState {data : List UInt8} {p1 p2 : UInt8} :
      CarriesChunk p1 p2 ∨ AsksSignature p1 p2 →
      world.ctx.reqType ≠ .confirmTransaction →
        TurnedAway world (.signTx data p1 p2) .badState
  | tooLong {data : List UInt8} {p1 p2 : UInt8} : CarriesChunk p1 p2 →
      world.ctx.reqType = .confirmTransaction →
      maxTransactionLen < world.ctx.rawTxLen + data.length →
        TurnedAway world (.signTx data p1 p2) .wrongTxLength
  | notSending {data : List UInt8} {p1 p2 : UInt8} : AsksSignature p1 p2 →
      world.ctx.reqType = .confirmTransaction → world.nvm.isSendingSignature = 0 →
        TurnedAway world (.signTx data p1 p2) .badState
  | wrongP1P2 {data : List UInt8} {p1 p2 : UInt8} :
      p1 ≠ 0 → ¬ CarriesChunk p1 p2 → ¬ AsksSignature p1 p2 →
        TurnedAway world (.signTx data p1 p2) .wrongP1P2

theorem opens_of_carriesChunk {data : List UInt8} {p1 p2 : UInt8}
    (carries : CarriesChunk p1 p2) : (Request.signTx data p1 p2).opens = none := by
  rcases carries with first | ⟨first, _⟩
  · rw [first]; rfl
  · rw [first]; rfl

theorem opens_of_asksSignature {data : List UInt8} {p1 p2 : UInt8}
    (asks : AsksSignature p1 p2) : (Request.signTx data p1 p2).opens = none := by
  rw [asks.1]
  rfl

theorem TurnedAway.opens {world : World} {request : Request} {status : StatusWord}
    (turnedAway : TurnedAway world request status) : request.opens = none := by
  cases turnedAway with
  | refused status => rfl
  | beyond _ => rfl
  | badState kind _ => exact kind.elim opens_of_carriesChunk opens_of_asksSignature
  | tooLong carries _ _ => exact opens_of_carriesChunk carries
  | notSending asks _ _ => exact opens_of_asksSignature asks
  | wrongP1P2 other _ _ => rw [Request.opens, if_neg other]

section Served

variable (platform : Platform) (environment : Environment)

@[simps running ctx nvm review journal]
def World.opened (world : World) (reqType : RequestType) (data : List UInt8) : World :=
  { world with ctx := (readRequest platform reqType data).1 }

inductive Served (world : World) : Request → World → Prop where
  | turnedAway {request : Request} {status : StatusWord} :
      TurnedAway world request status →
        Served world request (world.record (.answered (.status status)))
  | version : Served world .getVersion (world.record (.answered (.constant [2, 2, 2])))
  | appName : Served world .getAppName (world.record
      (.answered (.constant [0x51, 0x52, 0x4c, 0x20, 0x76, 0x32, 0x2e, 0x30])))
  | publicKey {index : ℕ} : index < pkChunks →
      Served world (.getPublicKeyChunk index)
        (world.record (.answered (.publicKey index (chunkOf world.nvm.pk
          (index * pkChunkSize)
          (if index < pkChunks - 1 then pkChunkSize else pkLastChunkSize)))))
  | pathRefused {request : Request} {reqType : RequestType} {data : List UInt8} :
      request.opens = some (reqType, data) →
      (readRequest platform reqType data).2 = false →
        Served world request ((world.opened platform reqType data).record
          (.answered (.status .wrongDataLength)))
  | sessionOpened {data : List UInt8} {p2 : UInt8} :
      (readRequest platform .confirmTransaction data).2 = true →
        Served world (.signTx data 0 p2)
          ((world.opened platform .confirmTransaction data).record
            (.answered (.status .ok)))
  | addressUnderivable {data : List UInt8} {display : Bool} {error : ℕ} :
      (readRequest platform .confirmAddress data).2 = true →
      environment.addressSeed (world.opened platform .confirmAddress data).ctx.path =
        .error error →
        Served world (.getPublicKey data display)
          (World.record (.answered (.status (.internal error)))
            ((world.opened platform .confirmAddress data).record
              (.derives (world.opened platform .confirmAddress data).ctx.path
                (.error error))))
  | addressAnswered {data : List UInt8} {rawSeed : Vector UInt8 64} :
      (readRequest platform .confirmAddress data).2 = true →
      environment.addressSeed (world.opened platform .confirmAddress data).ctx.path =
        .ok rawSeed →
        Served world (.getPublicKey data false)
          (((world.opened platform .confirmAddress data).addressed platform rawSeed).record
            (.answered (.address
              (zondAddressPrefix :: (addressOf platform rawSeed).toList))))
  | addressShown {data : List UInt8} {rawSeed : Vector UInt8 64} :
      (readRequest platform .confirmAddress data).2 = true →
      environment.addressSeed (world.opened platform .confirmAddress data).ctx.path =
        .ok rawSeed →
        Served world (.getPublicKey data true)
          (((world.opened platform .confirmAddress data).addressed platform rawSeed).shown
            (.address (checksummed platform.shake.shake256 (addressOf platform rawSeed))))
  | chunkTaken {data : List UInt8} {p2 : UInt8} :
      world.ctx.reqType = .confirmTransaction →
      world.ctx.rawTxLen + data.length ≤ maxTransactionLen →
        Served world (.signTx data 1 p2)
          ((world.taken data false).record (.answered (.status .ok)))
  | undecodable {data : List UInt8} {fault : Fault} :
      world.ctx.reqType = .confirmTransaction →
      world.ctx.rawTxLen + data.length ≤ maxTransactionLen →
      decodeLedgerTx platform.sizeWidth (world.ctx.appended data).transaction .zero =
        .error fault →
        Served world (.signTx data 2 0)
          ((world.digested platform data).record (.answered (.status .txParsingFail)))
  | forbidden {data : List UInt8} {tx : ZondTx} :
      world.ctx.reqType = .confirmTransaction →
      world.ctx.rawTxLen + data.length ≤ maxTransactionLen →
      decodeLedgerTx platform.sizeWidth (world.ctx.appended data).transaction .zero =
        .ok tx →
      (tx.hasData || tx.hasAccessList) = true → world.nvm.enableBlindSigning = 0 →
        Served world (.signTx data 2 0)
          ((world.examined platform data).record (.answered (.status .deny)))
  | underivable {data : List UInt8} {tx : ZondTx} {error : ℕ} :
      world.ctx.reqType = .confirmTransaction →
      world.ctx.rawTxLen + data.length ≤ maxTransactionLen →
      decodeLedgerTx platform.sizeWidth (world.ctx.appended data).transaction .zero =
        .ok tx →
      ((tx.hasData || tx.hasAccessList) = true → world.nvm.enableBlindSigning ≠ 0) →
      environment.addressSeed (world.examined platform data).ctx.path = .error error →
        Served world (.signTx data 2 0)
          (World.record (.answered (.status .displayAddressFail))
            ((world.examined platform data).record
              (.derives (world.examined platform data).ctx.path (.error error))))
  | reviewShown {data : List UInt8} {tx : ZondTx} {rawSeed : Vector UInt8 64} :
      world.ctx.reqType = .confirmTransaction →
      world.ctx.rawTxLen + data.length ≤ maxTransactionLen →
      decodeLedgerTx platform.sizeWidth (world.ctx.appended data).transaction .zero =
        .ok tx →
      ((tx.hasData || tx.hasAccessList) = true → world.nvm.enableBlindSigning ≠ 0) →
      environment.addressSeed (world.examined platform data).ctx.path = .ok rawSeed →
        Served world (.signTx data 2 0)
          (((world.examined platform data).addressed platform rawSeed).shown
            (((world.examined platform data).addressed platform rawSeed).transactionReview
              platform tx))
  | signature {data : List UInt8} {p2 : UInt8} : 0 < p2 → p2 < 17 →
      world.ctx.reqType = .confirmTransaction → world.nvm.isSendingSignature ≠ 0 →
        Served world (.signTx data 2 p2)
          (world.record (.answered (.signature p2.toNat (chunkOf world.nvm.sig
            (p2.toNat * signatureChunkSize) signatureChunkSize))))
  | lastSignature {data : List UInt8} :
      world.ctx.reqType = .confirmTransaction → world.nvm.isSendingSignature ≠ 0 →
        Served world (.signTx data 2 17)
          { world.record (.answered (.signature 17 (chunkOf world.nvm.sig
              (17 * signatureChunkSize) signatureLastChunkSize))) with
            nvm := { world.nvm with isSendingSignature := 0 } }

end Served

/-! ## Every request is served in one of these ways -/

section Serve

variable {platform : Platform} {environment : Environment} {world : World}

theorem finish_writeIsSendingSignature (flag : UInt8) (world : World) :
    (writeIsSendingSignature flag).finish world =
      { world with nvm := { world.nvm with isSendingSignature := flag } } := by
  have keeps : Keeps InternalStorage.sig (Program.update fun storage =>
      { storage with isSendingSignature := flag }) := keeps_update fun _ => rfl
  exact finish_onNvm keeps world

theorem finish_helperSendResponseSig {index : ℕ} (positive : 0 < index) (small : index < 17)
    (world : World) :
    (helperSendResponseSig index).finish world =
      world.record (.answered (.signature index
        (chunkOf world.nvm.sig (index * signatureChunkSize) signatureChunkSize))) := by
  rw [helperSendResponseSig, Program.finish_bind, Program.value_read, Program.finish_read,
    if_pos small, if_neg (Nat.ne_of_gt positive), if_neg (Nat.ne_of_lt small)]
  rfl

theorem finish_helperSendResponseSig_last (world : World) :
    (helperSendResponseSig 17).finish world =
      { world.record (.answered (.signature 17 (chunkOf world.nvm.sig
          (17 * signatureChunkSize) signatureLastChunkSize))) with
        nvm := { world.nvm with isSendingSignature := 0 } } := by
  rw [helperSendResponseSig, Program.finish_bind, Program.value_read, Program.finish_read,
    if_neg (Nat.lt_irrefl 17), if_neg (show ¬ 17 = 0 by decide), if_pos rfl,
    Program.finish_bind, finish_answer, finish_writeIsSendingSignature]
  rfl

theorem readRequest_reqType (reqType : RequestType) (data : List UInt8) :
    (readRequest platform reqType data).1.reqType = reqType := by
  rw [readRequest]
  dsimp only
  split <;> rfl

theorem readRequest_state (reqType : RequestType) (data : List UInt8) :
    (readRequest platform reqType data).1.state = .none := by
  rw [readRequest]
  dsimp only
  split <;> rfl

theorem served_getPublicKey (data : List UInt8) (display : Bool) :
    Served platform environment world (.getPublicKey data display)
      ((handlerGetPublicKey platform environment data display).finish world) := by
  rw [handlerGetPublicKey, Program.finish_bind, value_beginRequest, finish_beginRequest,
    readWorld]
  cases valid : (readRequest platform .confirmAddress data).2 with
  | false => exact .pathRefused rfl valid
  | true =>
      rw [if_pos rfl, if_pos rfl, Program.finish_bind]
      cases outcome : environment.addressSeed
          (world.opened platform .confirmAddress data).ctx.path with
      | error error =>
          obtain ⟨value, finish⟩ := addressFromBip32Path_error platform outcome
          rw [World.opened] at value finish
          rw [value, finish]
          exact .addressUnderivable valid outcome
      | ok rawSeed =>
          obtain ⟨value, finish⟩ := addressFromBip32Path_ok platform outcome
          have answered : Served platform environment world (.getPublicKey data false) _ :=
            .addressAnswered valid outcome
          have shown : Served platform environment world (.getPublicKey data true) _ :=
            .addressShown valid outcome
          rw [World.opened] at value finish answered shown
          rw [value, finish]
          cases display with
          | false => exact answered
          | true =>
              rw [if_pos rfl,
                finish_uiDisplayAddress platform (readRequest_reqType _ _)
                  (readRequest_state _ _)]
              exact shown

theorem served_first (data : List UInt8) (p2 : UInt8) :
    Served platform environment world (.signTx data 0 p2)
      ((signTxFirst platform data).finish world) := by
  rw [signTxFirst, Program.finish_bind, value_beginRequest, finish_beginRequest, readWorld]
  cases valid : (readRequest platform .confirmTransaction data).2 with
  | false => exact .pathRefused rfl valid
  | true => exact .sessionOpened valid

theorem served_more (data : List UInt8) (p2 : UInt8) :
    Served platform environment world (.signTx data 1 p2)
      ((signTxMore platform data).finish world) := by
  rw [signTxMore, Program.finish_bind]
  by_cases transaction : world.ctx.reqType = .confirmTransaction
  · by_cases fits : world.ctx.rawTxLen + data.length ≤ maxTransactionLen
    · obtain ⟨value, finish⟩ := takeChunk_fits platform false transaction fits
      rw [value, finish]
      exact .chunkTaken transaction fits
    · have long := Nat.lt_of_not_le fits
      obtain ⟨value, finish⟩ := takeChunk_tooLong platform false transaction long
      rw [value, finish]
      exact .turnedAway (.tooLong (.inl rfl) transaction long)
  · obtain ⟨value, finish⟩ := takeChunk_badState platform data false transaction
    rw [value, finish]
    exact .turnedAway (.badState (.inl (.inl rfl)) transaction)

/-! ### The last chunk -/

section Last

variable (platform) {data : List UInt8} {tx : ZondTx}

theorem finish_signTxLast (environment : Environment) {data : List UInt8}
    (transaction : world.ctx.reqType = .confirmTransaction)
    (fits : world.ctx.rawTxLen + data.length ≤ maxTransactionLen) :
    (signTxLast platform environment data).finish world =
      (reviewTransaction platform environment).finish (world.digested platform data) := by
  obtain ⟨value, finish⟩ := takeChunk_fits platform true transaction fits
  rw [signTxLast, Program.finish_bind, value, finish, if_pos rfl, Program.finish_bind,
    finish_setCtx, Program.finish_bind, finish_setCtx]
  simp only [World.taken, World.digested, GlobalCtx.appended, GlobalCtx.transaction]

theorem finish_reviewTransaction_undecodable (environment : Environment) {fault : Fault}
    (decoded : decodeLedgerTx platform.sizeWidth (world.ctx.appended data).transaction .zero =
      .error fault) :
    (reviewTransaction platform environment).finish (world.digested platform data) =
      (world.digested platform data).record (.answered (.status .txParsingFail)) := by
  have bytes : (world.digested platform data).ctx.transaction =
      (world.ctx.appended data).transaction := rfl
  rw [reviewTransaction, Program.finish_bind, Program.value_read, Program.finish_read, bytes,
    decoded]
  rfl

theorem finish_reviewTransaction_decoded (environment : Environment)
    (decoded : decodeLedgerTx platform.sizeWidth (world.ctx.appended data).transaction .zero =
      .ok tx) :
    (reviewTransaction platform environment).finish (world.digested platform data) =
      if (tx.hasData || tx.hasAccessList) = true ∧ world.nvm.enableBlindSigning = 0 then
        (world.examined platform data).record (.answered (.status .deny))
      else
        (uiDisplayTransactionBsChoice platform environment (tx.hasData || tx.hasAccessList)
          tx).finish (world.examined platform data) := by
  have bytes : (world.digested platform data).ctx.transaction =
      (world.ctx.appended data).transaction := rfl
  have storage : (world.digested platform data).nvm = world.nvm := rfl
  rw [reviewTransaction, Program.finish_bind, Program.value_read, Program.finish_read, bytes,
    storage, decoded]
  dsimp only
  rw [Program.finish_bind, finish_record, Program.finish_ite]
  rfl

variable {platform}

theorem served_review (transaction : world.ctx.reqType = .confirmTransaction)
    (fits : world.ctx.rawTxLen + data.length ≤ maxTransactionLen) :
    Served platform environment world (.signTx data 2 0)
      ((reviewTransaction platform environment).finish
        (world.digested platform data)) := by
  cases decoded : decodeLedgerTx platform.sizeWidth (world.ctx.appended data).transaction
      .zero with
  | error fault =>
      rw [finish_reviewTransaction_undecodable platform environment decoded]
      exact .undecodable transaction fits decoded
  | ok tx =>
      rw [finish_reviewTransaction_decoded platform environment decoded]
      by_cases denied : (tx.hasData || tx.hasAccessList) = true ∧
          world.nvm.enableBlindSigning = 0
      · rw [if_pos denied]
        exact .forbidden transaction fits decoded denied.1 denied.2
      · have permitted : (tx.hasData || tx.hasAccessList) = true →
            world.nvm.enableBlindSigning ≠ 0 := fun blind off => denied ⟨blind, off⟩
        have request := (examined_reqType platform world data).trans transaction
        have parsed := examined_state platform world data
        rw [if_neg denied]
        cases outcome : environment.addressSeed (world.examined platform data).ctx.path with
        | error error =>
            rw [finish_uiDisplayTransaction_error platform _ request parsed outcome]
            exact .underivable transaction fits decoded permitted outcome
        | ok rawSeed =>
            rw [finish_uiDisplayTransaction_ok platform request parsed outcome]
            exact .reviewShown transaction fits decoded permitted outcome

end Last

theorem served_last (data : List UInt8) :
    Served platform environment world (.signTx data 2 0)
      ((signTxLast platform environment data).finish world) := by
  by_cases transaction : world.ctx.reqType = .confirmTransaction
  · by_cases fits : world.ctx.rawTxLen + data.length ≤ maxTransactionLen
    · rw [finish_signTxLast platform environment transaction fits]
      exact served_review transaction fits
    · have long := Nat.lt_of_not_le fits
      obtain ⟨value, finish⟩ := takeChunk_tooLong platform true transaction long
      rw [signTxLast, Program.finish_bind, value, finish]
      exact .turnedAway (.tooLong (.inr ⟨rfl, rfl⟩) transaction long)
  · obtain ⟨value, finish⟩ := takeChunk_badState platform data true transaction
    rw [signTxLast, Program.finish_bind, value, finish]
    exact .turnedAway (.badState (.inl (.inr ⟨rfl, rfl⟩)) transaction)

theorem served_chunk (data : List UInt8) {p2 : UInt8} (positive : 0 < p2) (small : p2 < 18) :
    Served platform environment world (.signTx data 2 p2)
      ((signTxChunk p2).finish world) := by
  rw [signTxChunk, Program.finish_bind, Program.value_read, Program.finish_read]
  by_cases transaction : world.ctx.reqType = .confirmTransaction
  · rw [if_neg (not_not_intro transaction)]
    by_cases sending : world.nvm.isSendingSignature = 0
    · rw [if_neg (not_not_intro sending)]
      exact .turnedAway (.notSending ⟨rfl, positive, small⟩ transaction sending)
    · rw [if_pos sending]
      by_cases last : p2 = 17
      · subst last
        rw [show (17 : UInt8).toNat = 17 from rfl, finish_helperSendResponseSig_last]
        exact .lastSignature transaction sending
      · have before : p2 < 17 := by
          rw [UInt8.lt_iff_toNat_lt] at small ⊢
          have different : p2.toNat ≠ 17 := fun equal => last (UInt8.toNat_inj.mp equal)
          simp only [UInt8.reduceToNat] at *
          omega
        rw [finish_helperSendResponseSig (UInt8.lt_iff_toNat_lt.mp positive)
          (UInt8.lt_iff_toNat_lt.mp before)]
        exact .signature positive before transaction sending
  · rw [if_pos transaction]
    exact .turnedAway (.badState (.inr ⟨rfl, positive, small⟩) transaction)

theorem served (request : Request) :
    Served platform environment world request
      ((serve platform environment request).finish world) := by
  cases request with
  | refused status => exact .turnedAway (.refused status)
  | getVersion => exact .version
  | getAppName => exact .appName
  | getPublicKey data display => exact served_getPublicKey data display
  | getPublicKeyChunk index =>
      rw [serve, helperSendResponsePkChunk, Program.finish_bind, Program.value_read,
        Program.finish_read]
      by_cases beyond : index ≥ pkChunks
      · rw [if_pos beyond]
        exact .turnedAway (.beyond beyond)
      · rw [if_neg beyond]
        exact .publicKey (Nat.lt_of_not_le beyond)
  | signTx data p1 p2 =>
      rw [serve, handlerSignTx]
      split
      · rename_i first
        subst first
        exact served_first data p2
      · rename_i first
        split
        · rename_i more
          subst more
          exact served_more data p2
        · rename_i more
          split
          · rename_i last
            rw [last.1, last.2]
            exact served_last data
          · rename_i last
            split
            · rename_i chunk
              rw [chunk.1]
              exact served_chunk data chunk.2.1 chunk.2.2
            · rename_i chunk
              exact .turnedAway (.wrongP1P2 first
                (fun carries => carries.elim more last) chunk)

/-- A whole command. -/
theorem served_command (command : Command) :
    Served platform environment (world.record (.received command)) command.request
      ((apduDispatcher platform environment command).finish world) := by
  rw [apduDispatcher, Program.finish_bind, finish_record]
  exact served command.request

end Serve

end LedgerQrl.App
