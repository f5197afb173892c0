import LedgerQrl.App.Streaming
import LedgerQrl.Mldsa87.Correctness

namespace LedgerQrl.App

open Foundation Mldsa87 Display Transaction

/-! # A session

Commands keep the app running, and a transaction that is accepted comes to its
review. -/

section Running

variable {platform : Platform} {environment : Environment} {world final : World}

theorem Served.running {request : Request}
    (served : Served platform environment world request final) :
    final.running = world.running := by
  cases served <;> simp

theorem running_command (command : Command) (world : World) :
    ((apduDispatcher platform environment command).finish world).running =
      world.running := by
  have result : Served platform environment (world.record (.received command))
    command.request _ := served_command command
  exact result.running

theorem Reachable.command {allowed : World → Action → Prop} {environment : Environment}
    (command : Command) (reachable : Reachable platform allowed world)
    (running : world.running = true)
    (permitted : allowed world (.command command environment)) :
    Reachable platform allowed
      ((apduDispatcher platform environment command).finish world) :=
  Machine.Reaches.performed reachable
    (show (app platform).enabled world (.command command environment) from running)
    permitted

theorem Reachable.choose {allowed : World → Action → Prop} {confirm : Bool}
    (reachable : Reachable platform allowed world) (running : world.running = true)
    (shown : world.review.isSome = true)
    (permitted : allowed world (.choose confirm environment)) :
    Reachable platform allowed
      ((chooseReview platform environment confirm).finish world) :=
  Machine.Reaches.performed reachable
    (show (app platform).enabled world (.choose confirm environment) from
      ⟨running, shown⟩)
    permitted

theorem Reachable.commands (commands : List (Command × Environment)) :
    ∀ {world : World}, Reachable platform Machine.Anything world → world.running = true →
      Reachable platform Machine.Anything ((app platform).after world
          (commands.map fun pair => .command pair.1 pair.2)) ∧
        ((app platform).after world
          (commands.map fun pair => .command pair.1 pair.2)).running = true := by
  induction commands with
  | nil => intro world reachable running; exact ⟨reachable, running⟩
  | cons pair rest induction =>
      intro world reachable running
      rw [List.map_cons, Machine.after_cons]
      exact induction (reachable.performed running trivial)
        ((running_command pair.1 world).trans running)

def World.started : World := appStart.finish .installed

theorem reachable_started (platform : Platform) :
    Reachable platform Machine.Anything World.started :=
  Machine.Reaches.performed .start (show (app platform).enabled .installed .start from rfl)
    trivial

theorem started_running : World.started.running = true := by
  rw [World.started, finish_appStart]

end Running

/-! ## The last chunk of a session -/

/-- A transaction that is decoded and that the settings permit. -/
def Permitted (platform : Platform) (storage : InternalStorage) (bytes : List UInt8) : Prop :=
  ∃ tx, decodeLedgerTx platform.sizeWidth bytes .zero = .ok tx ∧
    ((tx.hasData || tx.hasAccessList) = true → storage.enableBlindSigning ≠ 0)

section Last

variable {platform : Platform} {environment : Environment} {world : World}
  {command : Command} {data : List UInt8}

theorem finish_last (request : command.request = .signTx data 2 0)
    (transaction : world.ctx.reqType = .confirmTransaction)
    (fits : world.ctx.rawTxLen + data.length ≤ maxTransactionLen) :
    (apduDispatcher platform environment command).finish world =
      (reviewTransaction platform environment).finish
        ((world.record (.received command)).digested platform data) := by
  rw [apduDispatcher, Program.finish_bind, finish_record, request]
  exact finish_signTxLast platform environment transaction fits

theorem finish_last_undecodable (platform : Platform) (environment : Environment)
    {fault : Fault}
    (request : command.request = .signTx data 2 0)
    (transaction : world.ctx.reqType = .confirmTransaction)
    (fits : world.ctx.rawTxLen + data.length ≤ maxTransactionLen)
    (decoded : decodeLedgerTx platform.sizeWidth (world.ctx.transaction ++ data) .zero =
      .error fault) :
    (apduDispatcher platform environment command).finish world =
      ((world.record (.received command)).digested platform data).record
        (.answered (.status .txParsingFail)) := by
  rw [finish_last request transaction fits]
  rw [← transaction_appended fits] at decoded
  exact finish_reviewTransaction_undecodable platform environment decoded

noncomputable def World.reviewed (platform : Platform) (command : Command)
    (data : List UInt8) (rawSeed : Vector UInt8 64) (tx : ZondTx) (world : World) : World :=
  (((world.record (.received command)).examined platform data).addressed platform
    rawSeed).shown
      ((((world.record (.received command)).examined platform data).addressed platform
        rawSeed).transactionReview platform tx)

theorem finish_last_reviewed {tx : ZondTx} {rawSeed : Vector UInt8 64}
    (request : command.request = .signTx data 2 0)
    (transaction : world.ctx.reqType = .confirmTransaction)
    (fits : world.ctx.rawTxLen + data.length ≤ maxTransactionLen)
    (decoded : decodeLedgerTx platform.sizeWidth (world.ctx.transaction ++ data) .zero =
      .ok tx)
    (plain : (tx.hasData || tx.hasAccessList) = false)
    (derived : environment.addressSeed world.ctx.path = .ok rawSeed) :
    (apduDispatcher platform environment command).finish world =
      world.reviewed platform command data rawSeed tx := by
  have received : (world.record (.received command)).ctx = world.ctx := rfl
  have decoded : decodeLedgerTx platform.sizeWidth
      ((world.record (.received command)).ctx.appended data).transaction .zero = .ok tx := by
    rw [received, transaction_appended fits]
    exact decoded
  rw [finish_last request transaction fits,
    finish_reviewTransaction_decoded platform environment decoded, plain,
    if_neg (fun denied => Bool.false_ne_true denied.1), ← plain]
  refine finish_uiDisplayTransaction_ok platform ?_ (examined_state _ _ _) ?_
  · rw [examined_reqType, received, transaction]
  · rw [examined_path, received, derived]

end Last

section Reviewed

variable (platform : Platform) (command : Command) (data : List UInt8)
  (rawSeed : Vector UInt8 64) (tx : ZondTx) (world : World)

@[simp] theorem reviewed_running :
    (world.reviewed platform command data rawSeed tx).running = world.running := by
  simp [World.reviewed]

@[simp] theorem reviewed_reqType :
    (world.reviewed platform command data rawSeed tx).ctx.reqType = world.ctx.reqType := by
  simp [World.reviewed]

@[simp] theorem reviewed_nvm :
    (world.reviewed platform command data rawSeed tx).nvm =
      keyed platform rawSeed world.nvm := by
  simp [World.reviewed]

theorem reviewed_path :
    (world.reviewed platform command data rawSeed tx).ctx.path = world.ctx.path := by
  have examined := examined_path platform (world.record (.received command)) data
  simpa [World.reviewed, GlobalCtx.path] using examined

theorem reviewed_review : ∃ pairs origin,
    (world.reviewed platform command data rawSeed tx).review =
      some (.transaction pairs origin) := ⟨_, _, rfl⟩

end Reviewed

/-! ## A session that is refused -/

/-- A command whose path is refused leaves the path in the context. -/
theorem finish_path_refused (platform : Platform) (environment : Environment)
    {world : World} {command : Command} {reqType : RequestType} {data : List UInt8}
    (opens : command.request.opens = some (reqType, data))
    (invalid : (readRequest platform reqType data).2 = false) :
    (apduDispatcher platform environment command).finish world =
      ((world.record (.received command)).opened platform reqType data).record
        (.answered (.status .wrongDataLength)) := by
  have refused : ¬ (readRequest platform reqType data).2 = true := by
    rw [invalid]
    decide
  rw [apduDispatcher, Program.finish_bind, finish_record]
  cases request : command.request with
  | getPublicKey path display =>
      rw [request] at opens
      cases opens
      rw [serve, handlerGetPublicKey, Program.finish_bind, value_beginRequest,
        finish_beginRequest, readWorld, if_neg refused, if_neg refused]
      rfl
  | signTx path p1 p2 =>
      rw [request, Request.opens] at opens
      split at opens
      · rename_i first
        cases opens
        rw [serve, handlerSignTx, if_pos first, signTxFirst, Program.finish_bind,
          value_beginRequest, finish_beginRequest, readWorld, if_neg refused,
          if_neg refused]
        rfl
      · cases opens
  | refused status => rw [request] at opens; cases opens
  | getVersion => rw [request] at opens; cases opens
  | getAppName => rw [request] at opens; cases opens
  | getPublicKeyChunk index => rw [request] at opens; cases opens

/-! ## An approval -/

section Approval

variable {platform : Platform} {environment : Environment} {world : World}
  {pairs : List Pair} {origin : Origin}

/-- Signing and verification read neither the review nor the journal. -/
theorem chosen_released (shown : world.review = some (.transaction pairs origin))
    (signs : (signProgram platform environment world.ctx).value world.nvm = .none)
    (verifies : (verification platform environment world).value
      (signedNvm platform environment world) = (.none, true)) :
    ∃ writes, (chooseReview platform environment true).finish world =
      World.released
        { World.verified (signProgram platform environment world.ctx)
            (.derives world.ctx.path (environment.verifySeed world.ctx.path))
            (verifyProgram platform environment world.ctx)
            ((world.answering (.transaction pairs origin) true).signing environment)
            writes true with
          nvm := wipeNvmSecrets.finish ((verification platform environment world).finish
            (signedNvm platform environment world)) } := by
  have result : Chosen platform environment
      (world.answering (.transaction pairs origin) true) (.transaction pairs origin) true
      ((chooseReview platform environment true).finish world) := chosen_review shown true
  generalize (chooseReview platform environment true).finish world = final at result ⊢
  cases result with
  | signingFailed writes failed => exact absurd signs failed
  | verificationFailed writes _ failed => exact absurd verifies failed
  | released writes _ _ => exact ⟨writes, rfl⟩

theorem chosen_unverified (shown : world.review = some (.transaction pairs origin))
    (signs : (signProgram platform environment world.ctx).value world.nvm = .none)
    (refused : (verification platform environment world).value
      (signedNvm platform environment world) ≠ (.none, true)) :
    ∃ writes, writes = signChanges platform environment world ∧
      (chooseReview platform environment true).finish world =
      World.unsigned
        { World.verified (signProgram platform environment world.ctx)
            (.derives world.ctx.path (environment.verifySeed world.ctx.path))
            (verifyProgram platform environment world.ctx)
            ((world.answering (.transaction pairs origin) true).signing environment)
            writes ((verification platform environment world).value
              (signedNvm platform environment world)).2 with
          nvm := wipeNvmSecrets.finish ((verification platform environment world).finish
            (signedNvm platform environment world)) } := by
  have result : Chosen platform environment
      (world.answering (.transaction pairs origin) true) (.transaction pairs origin) true
      ((chooseReview platform environment true).finish world) := chosen_review shown true
  generalize (chooseReview platform environment true).finish world = final at result ⊢
  cases result with
  | signingFailed writes failed => exact absurd signs failed
  | verificationFailed writes _ _ changes => exact ⟨writes, changes, rfl⟩
  | released writes _ verified => exact absurd verified refused

end Approval

/-! ## Signing and verification of the digest -/

section Programs

variable (platform : Platform) {environment : Environment} {ctx : GlobalCtx}

theorem toList_mHash_ne_nil (ctx : GlobalCtx) : ctx.mHash.toList ≠ [] := by
  apply List.ne_nil_of_length_pos
  rw [Vector.length_toList]
  decide

theorem signProgram_derived {rawSeed : Vector UInt8 64}
    (derived : environment.signSeed ctx.path = .ok rawSeed) :
    signProgram platform environment ctx =
      signWithSeed platform.shake (seedOfRaw rawSeed) environment.rnd ctx.mHash.toList := by
  rw [signProgram]
  apply cryptoSignOptimized_eq
  · rw [derived]
    rfl
  · exact toList_mHash_ne_nil ctx

theorem signProgram_underived {error : ℕ}
    (underived : environment.signSeed ctx.path = .error error) :
    signProgram platform environment ctx = pure .minusOne := by
  have short : ¬ Mldsa87.ctx.length > 255 := by decide
  rw [signProgram, cryptoSignOptimized, if_neg (toList_mHash_ne_nil ctx), if_neg short,
    underived]
  rfl

theorem verification_derived {world : World} {rawSeed : Vector UInt8 64}
    (derived : environment.verifySeed world.ctx.path = .ok rawSeed) :
    (verification platform environment world).value
        (signedNvm platform environment world) = (.none, true) ↔
      Spec.Verifies platform.shake (keyOf platform rawSeed).toList
        (signedNvm platform environment world).sig.toList world.ctx.mHash.toList := by
  have length : (signedNvm platform environment world).sig.toList.length = cryptoBytes :=
    Vector.length_toList
  have equation := verifyWithSeed_spec platform.shake (seedOfRaw rawSeed)
    (signedNvm platform environment world).sig.toList world.ctx.mHash.toList length
    (signedNvm platform environment world)
  rw [verification, verifyProgram, cryptoVerifyOptimized_eq platform.shake
      (fun path => (environment.verifySeed path).toOption) world.ctx.path
      (by rw [derived]; rfl) length (toList_mHash_ne_nil world.ctx),
    Program.value_bind, Program.value_pure, keyOf, toList_publicKeyBytes, ← equation]
  constructor
  · exact congrArg Prod.snd
  · intro verified
    rw [verified]

end Programs

/-! ## A device -/

/-- Hash functions with constant streams, and reads as they are documented. -/
def simplePlatform : Platform where
  shake := constantShake
  permutation := id
  sizeWidth := 32
  sdk := .standard

def derivingEnvironment : Environment where
  addressSeed _ := .ok (Vector.replicate 64 0)
  signSeed _ := .ok (Vector.replicate 64 0)
  verifySeed _ := .ok (Vector.replicate 64 0)
  rnd := Vector.replicate 32 0
  buffers :=
    { chainId := cleared _
      nonce := cleared _
      gasLimit := cleared _
      gasTipCap := cleared _
      txHash := cleared _ }

def pathBytes (index : UInt8) : List UInt8 :=
  [5, 0x80, 0, 0, 0x2c, 0x80, 0, 0, 0xee, 0x80, 0, 0, 0, 0, 0, 0, 0, 0, 0, 0, index]

def emptyTransaction : List UInt8 :=
  [0x02, 0xce, 0x80, 0x80, 0x80, 0x80, 0x80, 0x80, 0x80, 0x80, 0xc0, 0x83, 0x01, 0x00, 0x00,
    0x80]

def commandOf (ins p1 p2 : UInt8) (data : List UInt8)
    (short : data.length ≤ 255 := by decide) : Command where
  cla := 0xE0
  ins := ins
  p1 := p1
  p2 := p2
  data := some data
  short := short

theorem empty_short : ([] : List UInt8).length ≤ 255 := by decide

def openingCommand (index : UInt8) : Command :=
  commandOf 6 0 0 (pathBytes index) (by simp [pathBytes])

def wholeCommand : Command := commandOf 6 2 0 emptyTransaction

theorem readRequest_pathBytes (reqType : RequestType) :
    (readRequest simplePlatform reqType (pathBytes 0)).2 = true ∧
      (readRequest simplePlatform reqType (pathBytes 1)).2 = true := by
  cases reqType with
  | confirmAddress => decide
  | confirmTransaction => decide

theorem readRequest_openingCommand {index : UInt8} (known : index = 0 ∨ index = 1) :
    (readRequest simplePlatform .confirmTransaction (pathBytes index)).2 = true := by
  rcases known with equal | equal
  · rw [equal]
    exact (readRequest_pathBytes _).1
  · rw [equal]
    exact (readRequest_pathBytes _).2

theorem path_pathBytes (reqType : RequestType) :
    (readRequest simplePlatform reqType (pathBytes 0)).1.path ≠
      (readRequest simplePlatform reqType (pathBytes 1)).1.path := by
  cases reqType with
  | confirmAddress => decide
  | confirmTransaction => decide

theorem decode_emptyTransaction :
    ∃ tx, decodeLedgerTx 32 emptyTransaction .zero = .ok tx ∧
      (tx.hasData || tx.hasAccessList) = false := by
  have accepted : (decodeLedgerTx 32 emptyTransaction .zero).isOk = true := by decide
  cases decoded : decodeLedgerTx 32 emptyTransaction .zero with
  | error fault =>
      rw [decoded] at accepted
      exact absurd accepted (by simp [Except.isOk, Except.toBool])
  | ok tx =>
      refine ⟨tx, rfl, ?_⟩
      have plain : (decodeLedgerTx 32 emptyTransaction .zero).toOption.map
          (fun tx => tx.hasData || tx.hasAccessList) = some false := by decide
      rw [decoded] at plain
      exact Option.some.inj plain

section Device

variable {world : World}

def World.inSession (index : UInt8) (world : World) : World :=
  ((world.record (.received (openingCommand index))).opened simplePlatform
    .confirmTransaction (pathBytes index)).record (.answered (.status .ok))

theorem finish_openingCommand (environment : Environment) {index : UInt8}
    (known : index = 0 ∨ index = 1) (world : World) :
    (apduDispatcher simplePlatform environment (openingCommand index)).finish world =
      world.inSession index :=
  finish_first rfl (readRequest_openingCommand known)

theorem inSession_ctx (index : UInt8) (world : World) :
    (world.inSession index).ctx =
      (readRequest simplePlatform .confirmTransaction (pathBytes index)).1 := rfl

theorem inSession_transaction (index : UInt8) (world : World) :
    (world.inSession index).ctx.reqType = .confirmTransaction ∧
      (world.inSession index).ctx.rawTxLen = 0 ∧
      (world.inSession index).ctx.transaction = [] := by
  rw [inSession_ctx]
  exact ⟨readRequest_reqType _ _, readRequest_cleared _ _⟩

theorem finish_wholeCommand_empty {world : World}
    (type : world.ctx.reqType = .confirmTransaction) (empty : world.ctx.rawTxLen = 0)
    (none : world.ctx.transaction = []) :
    ∃ tx, decodeLedgerTx 32 emptyTransaction .zero = .ok tx ∧
      (tx.hasData || tx.hasAccessList) = false ∧
      (apduDispatcher simplePlatform derivingEnvironment wholeCommand).finish world =
        world.reviewed simplePlatform wholeCommand emptyTransaction
          (Vector.replicate 64 0) tx := by
  obtain ⟨tx, decoded, plain⟩ := decode_emptyTransaction
  refine ⟨tx, decoded, plain, finish_last_reviewed rfl type ?_ ?_ plain rfl⟩
  · rw [empty]
    decide
  · rw [none]
    exact decoded

theorem finish_wholeCommand (index : UInt8) (world : World) :
    ∃ tx, decodeLedgerTx 32 emptyTransaction .zero = .ok tx ∧
      (tx.hasData || tx.hasAccessList) = false ∧
      (apduDispatcher simplePlatform derivingEnvironment wholeCommand).finish
          (world.inSession index) =
        (world.inSession index).reviewed simplePlatform wholeCommand emptyTransaction
          (Vector.replicate 64 0) tx := by
  obtain ⟨type, empty, none⟩ := inSession_transaction index world
  exact finish_wholeCommand_empty type empty none

/-! ### Signing on the device -/

theorem signs_simple (environment : Environment) (ctx : GlobalCtx)
    {rawSeed : Vector UInt8 64} (derived : environment.signSeed ctx.path = .ok rawSeed)
    (storage : InternalStorage) :
    (signProgram simplePlatform environment ctx).value storage = .none := by
  have first := (signWithSeed_spec constantShake (seedOfRaw rawSeed) environment.rnd
    ctx.mHash.toList storage).1 0 (by decide)
    (Spec.acceptable_constantShake _ _ _) (fun j before => absurd before (by omega))
  rw [signProgram_derived simplePlatform derived]
  exact first.1

/-- Signing changes the content of the buffer. -/
theorem signChanges_simple {environment : Environment} {world : World}
    {rawSeed : Vector UInt8 64} (derived : environment.signSeed world.ctx.path = .ok rawSeed) :
    signChanges simplePlatform environment world ≠ 0 := by
  intro unchanged
  rw [signChanges, signProgram_derived simplePlatform derived] at unchanged
  have same : ∀ content ∈ (signWithSeed constantShake (seedOfRaw rawSeed) environment.rnd
      world.ctx.mHash.toList).visited world.nvm, content.sig = world.nvm.sig := by
    intro content member
    rcases List.mem_cons.mp member with start | later
    · rw [start]
    · exact sig_of_sigChanges unchanged content later
  obtain ⟨content, member, differs⟩ := sig_changes_constantShake (seedOfRaw rawSeed)
    environment.rnd world.ctx.mHash.toList world.nvm
  exact differs ((same content member).trans (same _ (Program.finish_mem_visited _ _)).symm)

theorem verifies_agreeing (platform : Platform) {environment : Environment} {world : World}
    (signs : (signProgram platform environment world.ctx).value world.nvm = .none)
    (agrees : environment.verifySeed world.ctx.path = environment.signSeed world.ctx.path) :
    (verification platform environment world).value
      (signedNvm platform environment world) = (.none, true) := by
  cases outcome : environment.signSeed world.ctx.path with
  | error error =>
      rw [signProgram_underived platform outcome] at signs
      cases signs
  | ok rawSeed =>
      rw [verification_derived platform (agrees.trans outcome), signedNvm,
        signProgram_derived platform outcome, keyOf, toList_publicKeyBytes]
      rw [signProgram_derived platform outcome] at signs
      exact verifies_signWithSeed platform.shake _ _ _ _ signs

theorem unverified_underivable (platform : Platform) {environment : Environment}
    {world : World} {error : ℕ}
    (failed : environment.verifySeed world.ctx.path = .error error) :
    ((verification platform environment world).value
      (signedNvm platform environment world)).2 = false := by
  rw [verification, verifyProgram, cryptoVerifyOptimized, failed]
  simp only [Program.value_ite, Program.value_pure, Except.toOption]
  split
  · rfl
  · split
    · rfl
    · split
      · rfl
      · split
        · rfl
        · rfl

theorem verifies_underivable (platform : Platform) {environment : Environment}
    {world : World} {error : ℕ}
    (failed : environment.verifySeed world.ctx.path = .error error) :
    (verification platform environment world).value
      (signedNvm platform environment world) ≠ (.none, true) := by
  intro verified
  have unverified := unverified_underivable platform failed
  rw [verified] at unverified
  cases unverified

theorem finish_address (platform : Platform) (environment : Environment) (world : World)
    {command : Command} {data : List UInt8} {rawSeed : Vector UInt8 64}
    (request : command.request = .getPublicKey data false)
    (valid : (readRequest platform .confirmAddress data).2 = true)
    (derived : environment.addressSeed
      (readRequest platform .confirmAddress data).1.path = .ok rawSeed) :
    (apduDispatcher platform environment command).finish world =
      (((world.record (.received command)).opened platform .confirmAddress data).addressed
        platform rawSeed).record
          (.answered (.address (zondAddressPrefix :: (addressOf platform rawSeed).toList))) := by
  have result : Served platform environment (world.record (.received command))
      command.request ((apduDispatcher platform environment command).finish world) :=
    served_command command
  generalize (apduDispatcher platform environment command).finish world = final at result ⊢
  rw [request] at result
  cases result with
  | turnedAway turned => cases turned
  | pathRefused opens refused =>
      cases opens
      rw [valid] at refused
      cases refused
  | addressUnderivable _ failed =>
      rw [World.opened_ctx, derived] at failed
      cases failed
  | addressAnswered _ outcome =>
      rw [World.opened_ctx, derived] at outcome
      cases outcome
      rfl

def addressCommand (index : UInt8) : Command :=
  commandOf 5 0 0 (pathBytes index) (by simp [pathBytes])

def toReview (index : UInt8) : List Action :=
  [.command (openingCommand index) derivingEnvironment,
    .command wholeCommand derivingEnvironment]

theorem reachable_reviewed {allowed : World → Action → Prop} (index : UInt8)
    (known : index = 0 ∨ index = 1)
    (reachable : Reachable simplePlatform allowed world) (running : world.running = true)
    (opening : allowed world (.command (openingCommand index) derivingEnvironment))
    (whole : allowed (world.inSession index) (.command wholeCommand derivingEnvironment)) :
    ∃ tx, (app simplePlatform).after world (toReview index) =
        (world.inSession index).reviewed simplePlatform wholeCommand emptyTransaction
          (Vector.replicate 64 0) tx ∧
      Reachable simplePlatform allowed
        ((world.inSession index).reviewed simplePlatform wholeCommand emptyTransaction
          (Vector.replicate 64 0) tx) := by
  obtain ⟨tx, _, _, finish⟩ := finish_wholeCommand index world
  have opened := Reachable.command (openingCommand index) reachable running opening
  rw [finish_openingCommand _ known] at opened
  have session : (world.inSession index).running = true := running
  have reviewed := Reachable.command wholeCommand opened session whole
  rw [finish] at reviewed
  refine ⟨tx, ?_, reviewed⟩
  rw [toReview, Machine.after_cons, perform_command, finish_openingCommand _ known,
    Machine.after_cons, perform_command, finish, Machine.after_nil]

theorem reviewed_simple :
    ∃ (pairs : List Pair) (origin : Origin) (world : World),
      Reachable simplePlatform Machine.Anything world ∧
        (app simplePlatform).after .installed
            [.start, .command (openingCommand 0) derivingEnvironment,
              .command wholeCommand derivingEnvironment] = world ∧
        world.running = true ∧ world.review = some (.transaction pairs origin) ∧
        world.ctx.reqType = .confirmTransaction := by
  obtain ⟨tx, _, _, finish⟩ := finish_wholeCommand 0 World.started
  have reachable := Reachable.commands [(openingCommand 0, derivingEnvironment),
    (wholeCommand, derivingEnvironment)] (reachable_started simplePlatform) started_running
  have after : (app simplePlatform).after .installed
      [.start, .command (openingCommand 0) derivingEnvironment,
        .command wholeCommand derivingEnvironment] =
      (World.started.inSession 0).reviewed simplePlatform wholeCommand emptyTransaction
        (Vector.replicate 64 0) tx := by
    rw [Machine.after_cons, Machine.after_cons, perform_command,
      finish_openingCommand _ (.inl rfl), Machine.after_cons, perform_command,
      Machine.after_nil]
    exact finish
  rw [List.map_cons, Machine.after_cons, perform_command,
    finish_openingCommand _ (.inl rfl), List.map_cons, Machine.after_cons,
    perform_command, finish] at reachable
  refine ⟨_, _, _, reachable.1, after, reachable.2, rfl, ?_⟩
  have type := (inSession_transaction 0 World.started).1
  simpa [World.reviewed] using type

/-! ### A transaction in two commands -/

def firstHalfCommand : Command := commandOf 6 1 0 (emptyTransaction.take 7)

def secondHalfCommand : Command := commandOf 6 2 0 (emptyTransaction.drop 7)

theorem delivers_whole : Delivers derivingEnvironment emptyTransaction
    [.command wholeCommand derivingEnvironment] := Delivers.last rfl

theorem delivers_halves : Delivers derivingEnvironment emptyTransaction
    [.command firstHalfCommand derivingEnvironment,
      .command secondHalfCommand derivingEnvironment] := by
  have second : Delivers derivingEnvironment (emptyTransaction.drop 7)
      [.command secondHalfCommand derivingEnvironment] := Delivers.last rfl
  have first : firstHalfCommand.request = .signTx (emptyTransaction.take 7) 1 0 := rfl
  have both : Delivers derivingEnvironment
      (emptyTransaction.take 7 ++ emptyTransaction.drop 7)
      [.command firstHalfCommand derivingEnvironment,
        .command secondHalfCommand derivingEnvironment] := Delivers.more first second
  rwa [List.take_append_drop] at both

/-- The transaction is sent whole, and in two commands. -/
theorem streaming_two_commands :
    let whole := (app simplePlatform).after World.started
      [.command (openingCommand 0) derivingEnvironment,
        .command wholeCommand derivingEnvironment]
    let cut := (app simplePlatform).after World.started
      [.command (openingCommand 0) derivingEnvironment,
        .command firstHalfCommand derivingEnvironment,
        .command secondHalfCommand derivingEnvironment]
    whole.ctx = cut.ctx ∧ whole.ctx.transaction = emptyTransaction ∧
      whole.ctx.mHash = keccak256 simplePlatform.permutation emptyTransaction ∧
      whole.journal.head? = cut.journal.head? ∧
      (acceptedChunks cut.journal).flatten = emptyTransaction ∧
      ChunkOutcome (World.started.inSession 0) (emptyTransaction.take 7) 1
        ((apduDispatcher simplePlatform derivingEnvironment firstHalfCommand).finish
          (World.started.inSession 0)) := by
  have started := reachable_started simplePlatform
  obtain ⟨assembled, chunks, cuts⟩ := streaming simplePlatform
  have both := cuts World.started World.started started started rfl (openingCommand 0)
    (openingCommand 0) (pathBytes 0) 0 0 derivingEnvironment derivingEnvironment
    derivingEnvironment derivingEnvironment emptyTransaction _ _ rfl rfl
    (readRequest_pathBytes _).1 (by decide) delivers_whole delivers_halves rfl
  obtain ⟨same, bytes, digest, answer⟩ := both
  have opened : Reachable simplePlatform Machine.Anything (World.started.inSession 0) := by
    rw [← finish_openingCommand derivingEnvironment (.inl rfl)]
    exact Reachable.command _ started started_running trivial
  have sent := (Reachable.commands [(openingCommand 0, derivingEnvironment),
    (firstHalfCommand, derivingEnvironment), (secondHalfCommand, derivingEnvironment)]
    started started_running).1
  rw [List.map_cons, List.map_cons, List.map_cons, List.map_nil] at sent
  obtain ⟨tx, after, _⟩ := reachable_reviewed 0 (.inl rfl) started started_running trivial
    trivial
  rw [toReview] at after
  have type := (inSession_transaction 0 World.started).1
  generalize (app simplePlatform).after World.started
    [.command (openingCommand 0) derivingEnvironment,
      .command wholeCommand derivingEnvironment] = whole at same bytes digest answer after ⊢
  generalize (app simplePlatform).after World.started
    [.command (openingCommand 0) derivingEnvironment,
      .command firstHalfCommand derivingEnvironment,
      .command secondHalfCommand derivingEnvironment] = cut at same answer sent ⊢
  have reviewing : whole.ctx.reqType = .confirmTransaction := by
    rw [after]
    simpa [World.reviewed] using type
  refine ⟨same, bytes, digest, answer, ?_, ?_⟩
  · have joined := (assembled cut sent (by rw [← same]; exact reviewing)).2
    rw [← joined, ← same]
    exact bytes
  · exact chunks _ opened type derivingEnvironment firstHalfCommand _ 1 0 rfl (.inl rfl)

end Device

end LedgerQrl.App
