import LedgerQrl.App.World

namespace LedgerQrl.App

open Foundation Mldsa87 Display Transaction

/-! # The handlers

The dispatcher, the handlers of the commands, the callbacks of the reviews and
the start of the app, in the order of their statements. -/

/-! ## Responses -/

def signatureChunkSize : ℕ := 258

def signatureLastChunkSize : ℕ := 241

def pkChunkSize : ℕ := 258

def pkLastChunkSize : ℕ := 12

def pkChunks : ℕ := 11

/-- `resp[i] = memory[i + offset]` for `i < count`. -/
def chunkOf {size : ℕ} (memory : Vector UInt8 size) (offset count : ℕ) : List UInt8 :=
  (memory.toList.drop offset).take count

def zondAddressPrefix : UInt8 := 0x51

def helperSendResponseAddress : AppProgram Unit := do
  let ctx ← getCtx
  answer (.address (zondAddressPrefix :: ctx.address.toList))

/-- One `nvm_write` of `is_sending_signature`. -/
def writeIsSendingSignature (flag : UInt8) : AppProgram Unit :=
  onNvm (Program.update fun storage => { storage with isSendingSignature := flag })

def helperSendResponseSig (index : ℕ) : AppProgram Unit := do
  let world ← Program.read
  if index < 17 then
    answer (.signature index
      (chunkOf world.nvm.sig (index * signatureChunkSize) signatureChunkSize))
  else
    answer (.signature index
      (chunkOf world.nvm.sig (index * signatureChunkSize) signatureLastChunkSize))
  if index = 0 then writeIsSendingSignature 1
  else if index = 17 then writeIsSendingSignature 0
  else pure ()

def helperSendResponsePkChunk (index : ℕ) : AppProgram Unit := do
  let world ← Program.read
  if index ≥ pkChunks then ioSendSw .wrongDataLength
  else
    answer (.publicKey index (chunkOf world.nvm.pk (index * pkChunkSize)
      (if index < pkChunks - 1 then pkChunkSize else pkLastChunkSize)))

/-- `MAJOR_VERSION`, `MINOR_VERSION`, `PATCH_VERSION`. -/
def handlerGetVersion : AppProgram Unit := answer (.constant [2, 2, 2])

/-- `"QRL v2.0"`. -/
def handlerGetAppName : AppProgram Unit :=
  answer (.constant [0x51, 0x52, 0x4c, 0x20, 0x76, 0x32, 0x2e, 0x30])

/-! ## Addresses -/

def cxInternalError : ℕ := 0xFFFFFF85

/-- `new_mldsa87_from_seed`; no seed is drawn. -/
@[irreducible] def newMldsa87FromSeed (shake : Shake) (seed : Vector UInt8 32) :
    NvmProgram ErrorCode :=
  cryptoSignKeypair shake seed (some seed)

/-- `SHAKE256(descriptor || pk)`, with the descriptor of ML-DSA-87. -/
def addressOfKey (shake : Shake) (pk : Vector UInt8 2592) : Vector UInt8 addressSize :=
  ⟨(shakeOnce shake.shake256 ([1, 0, 0] ++ pk.toList) addressSize).toArray,
    length_shakeOnce _ _ _⟩

def generateAddress (shake : Shake) (generate : NvmProgram ErrorCode) :
    AppProgram (Option ℕ) := do
  let mldsaErr ← onNvm generate
  if mldsaErr ≠ .none then pure (some cxInternalError)
  else do
    let world ← Program.read
    setCtx fun ctx => { ctx with address := addressOfKey shake world.nvm.pk }
    pure none

section Handlers

variable (platform : Platform) (environment : Environment)

/-- `address_from_bip32_path` into the context; an error, or none. -/
def addressFromBip32Path : AppProgram (Option ℕ) := do
  let ctx ← getCtx
  record (.derives ctx.path (environment.addressSeed ctx.path))
  match environment.addressSeed ctx.path with
  | .error error => pure (some error)
  | .ok rawSeed =>
      generateAddress platform.shake
        (newMldsa87FromSeed platform.shake (seedOfRaw rawSeed))

/-- The start of the two commands that carry a path: clear the context, read
the path and check it. The context that this leaves, and whether the path is
accepted. -/
def readRequest (reqType : RequestType) (data : List UInt8) : GlobalCtx × Bool :=
  let length := platform.sdk.readU8 data
  let ctx := { GlobalCtx.zero with reqType := reqType, bip32PathLen := length.2.1 }
  if length.1 then
    let path := platform.sdk.readBip32Path length.2.2 length.2.1 ctx.bip32Path
    let ctx := { ctx with bip32Path := path.2 }
    (ctx, path.1 && isValidZondBip32Path ctx.path)
  else (ctx, false)

/-- `false` when the command has been answered. -/
def beginRequest (reqType : RequestType) (data : List UInt8) : AppProgram Bool := do
  setCtx fun _ => (readRequest platform reqType data).1
  if (readRequest platform reqType data).2 then pure true
  else do
    ioSendSw .wrongDataLength
    pure false

def uiDisplayAddress : AppProgram Unit := do
  let ctx ← getCtx
  if ctx.reqType ≠ .confirmAddress ∨ ctx.state ≠ .none then do
    setCtx fun ctx => { ctx with state := .none }
    ioSendSw .badState
  else
    match formatChecksummedAddress platform.shake.shake256 ctx.address
        (cleared (1 + addressSize * 2 + 1)) with
    | .ok (true, text) =>
        match shown text with
        | .ok text => display (.address text)
        | .error _ => pure ()
    | .ok (false, _) => ioSendSw .displayAddressFail
    | .error _ => pure ()

def handlerGetPublicKey (data : List UInt8) (display : Bool) : AppProgram Unit := do
  let valid ← beginRequest platform .confirmAddress data
  if valid then do
    let error ← addressFromBip32Path platform environment
    match error with
    | some error => ioSendSw (.internal error)
    | none =>
        if display then uiDisplayAddress platform
        else helperSendResponseAddress
  else pure ()

/-! ## Transactions -/

def reviewSettings (storage : InternalStorage) : ReviewSettings where
  displayNonce := storage.displayNonce ≠ 0
  displayTxHash := storage.displayTxHash ≠ 0

def uiDisplayTransactionBsChoice (isBlindSigned : Bool) (tx : ZondTx) :
    AppProgram Unit := do
  let ctx ← getCtx
  if ctx.reqType ≠ .confirmTransaction ∨ ctx.state ≠ .parsed then do
    setCtx fun ctx => { ctx with state := .none }
    ioSendSw .badState
  else do
    let error ← addressFromBip32Path platform environment
    match error with
    | some _ => ioSendSw .displayAddressFail
    | none => do
        let world ← Program.read
        match formatReview platform.shake.shake256 (reviewSettings world.nvm)
            world.ctx.address world.ctx.mHash.toList tx environment.buffers with
        | .ok (.ok pairs) =>
            display (.transaction pairs
              { transaction := world.ctx.transaction
                path := world.ctx.path
                address := world.ctx.address
                blind := isBlindSigned
                blindSigning := world.nvm.enableBlindSigning ≠ 0 })
        | .ok (.error status) => ioSendSw status
        | .error _ => pure ()

/-- The branch `p1 == 0` of `handler_sign_tx`. -/
def signTxFirst (data : List UInt8) : AppProgram Unit := do
  let valid ← beginRequest platform .confirmTransaction data
  if valid then ioSendSw .ok else pure ()

/-- The start of the branches that take a chunk: `false` when the command has
been answered. -/
def takeChunk (data : List UInt8) (final : Bool) : AppProgram Bool := do
  let ctx ← getCtx
  if ctx.reqType ≠ .confirmTransaction then do
    ioSendSw .badState
    pure false
  else if ctx.rawTxLen + data.length > maxTransactionLen then do
    ioSendSw .wrongTxLength
    pure false
  else
    match platform.sdk.move data data.length with
    | none => do
        ioSendSw .txParsingFail
        pure false
    | some bytes => do
        setCtx fun ctx =>
          { ctx with
            rawTx := writeBytes ctx.rawTxLen bytes ctx.rawTx
            rawTxLen := ctx.rawTxLen + data.length }
        record (.copied bytes final)
        pure true

/-- The branch `p1 == 1`. -/
def signTxMore (data : List UInt8) : AppProgram Unit := do
  let taken ← takeChunk platform data false
  if taken then ioSendSw .ok else pure ()

/-- Decode the transaction, check it against the policy and show it. -/
def reviewTransaction : AppProgram Unit := do
  let world ← Program.read
  match decodeLedgerTx platform.sizeWidth world.ctx.transaction .zero with
  | .error _ => ioSendSw .txParsingFail
  | .ok tx => do
      record (.checked (world.nvm.enableBlindSigning ≠ 0))
      let blind := tx.hasData || tx.hasAccessList
      if blind ∧ world.nvm.enableBlindSigning = 0 then ioSendSw .deny
      else uiDisplayTransactionBsChoice platform environment blind tx

/-- The branch `p1 == 2 && p2 == 0`. -/
def signTxLast (data : List UInt8) : AppProgram Unit := do
  let taken ← takeChunk platform data true
  if taken then do
    setCtx fun ctx => { ctx with state := .parsed }
    setCtx fun ctx =>
      { ctx with mHash := keccak256 platform.permutation ctx.transaction }
    reviewTransaction platform environment
  else pure ()

/-- The branch `p1 == 2 && p2 > 0 && p2 < 18`. -/
def signTxChunk (p2 : UInt8) : AppProgram Unit := do
  let world ← Program.read
  if world.ctx.reqType ≠ .confirmTransaction then ioSendSw .badState
  else if world.nvm.isSendingSignature ≠ 0 then helperSendResponseSig p2.toNat
  else ioSendSw .badState

def handlerSignTx (data : List UInt8) (p1 p2 : UInt8) : AppProgram Unit :=
  if p1 = 0 then signTxFirst platform data
  else if p1 = 1 then signTxMore platform data
  else if p1 = 2 ∧ p2 = 0 then signTxLast platform environment data
  else if p1 = 2 ∧ p2 > 0 ∧ p2 < 18 then signTxChunk p2
  else ioSendSw .wrongP1P2

/-! ## The dispatcher -/

/-- What the dispatcher calls. -/
inductive Request where
  | refused (status : StatusWord)
  | getVersion
  | getAppName
  | getPublicKey (data : List UInt8) (display : Bool)
  | getPublicKeyChunk (index : ℕ)
  | signTx (data : List UInt8) (p1 p2 : UInt8)
deriving DecidableEq

/-- `apdu_dispatcher` up to the call of a handler. -/
def Command.request (command : Command) : Request :=
  if command.cla ≠ 0xE0 then .refused .claNotSupported
  else if command.ins = 3 then
    if command.p1 ≠ 0 ∨ command.p2 ≠ 0 then .refused .wrongP1P2 else .getVersion
  else if command.ins = 4 then
    if command.p1 ≠ 0 ∨ command.p2 ≠ 0 then .refused .wrongP1P2 else .getAppName
  else if command.ins = 5 then
    if command.p1 > 1 ∨ command.p2 > 11 then .refused .wrongP1P2
    else if command.p2 > 0 then .getPublicKeyChunk (command.p2.toNat - 1)
    else if command.data = none then .refused .wrongDataLength
    else .getPublicKey command.bytes (command.p1 ≠ 0)
  else if command.ins = 6 then
    if (command.p1 ≠ 0 ∧ command.p1 ≠ 1 ∧ command.p1 ≠ 2) ∨ command.p2 > 17 then
      .refused .wrongP1P2
    else if command.data = none ∧ command.p2 = 0 then .refused .wrongDataLength
    else .signTx command.bytes command.p1 command.p2
  else .refused .insNotSupported

def serve : Request → AppProgram Unit
  | .refused status => ioSendSw status
  | .getVersion => handlerGetVersion
  | .getAppName => handlerGetAppName
  | .getPublicKey data display => handlerGetPublicKey platform environment data display
  | .getPublicKeyChunk index => helperSendResponsePkChunk index
  | .signTx data p1 p2 => handlerSignTx platform environment data p1 p2

def apduDispatcher (command : Command) : AppProgram Unit := do
  record (.received command)
  serve platform environment command.request

/-! ## The callbacks -/

def validatePubkey (choice : Bool) : AppProgram Unit :=
  if choice then helperSendResponseAddress else ioSendSw .deny

/-- `error == CX_OK` and `is_verified`. -/
def isAccepted : ErrorCode × Bool → Bool
  | (.none, isVerified) => isVerified
  | _ => false

/-- Sign, verify the content of `N_storage.sig`, and wipe; whether both succeed. -/
def signAndVerify (sign : NvmProgram ErrorCode) (verifying : Entry)
    (verify : List UInt8 → NvmProgram (ErrorCode × Bool)) : AppProgram Bool := do
  let error ← onNvm sign
  if error ≠ .none then do
    onNvm wipeNvmSecrets
    pure false
  else do
    let world ← Program.read
    record verifying
    let result ← onNvm (verify world.nvm.sig.toList)
    record (.verified world.nvm.sig result.2)
    onNvm wipeNvmSecrets
    pure (isAccepted result)

/-- The call of `crypto_sign_optimized` with the path and the digest of the
context. -/
def signProgram (ctx : GlobalCtx) : NvmProgram ErrorCode :=
  cryptoSignOptimized platform.shake (fun path => (environment.signSeed path).toOption)
    environment.rnd ctx.path ctx.mHash.toList

/-- The call of `crypto_verify_optimized` with the path and the digest of the
context. -/
def verifyProgram (ctx : GlobalCtx) (sig : List UInt8) : NvmProgram (ErrorCode × Bool) :=
  cryptoVerifyOptimized platform.shake (fun path => (environment.verifySeed path).toOption)
    ctx.path sig ctx.mHash.toList

/-- `crypto_sign_message`: whether it returns 0. -/
def cryptoSignMessage : AppProgram Bool := do
  let ctx ← getCtx
  record (.signs ctx.path ctx.mHash)
  record (.derives ctx.path (environment.signSeed ctx.path))
  signAndVerify (signProgram platform environment ctx)
    (.derives ctx.path (environment.verifySeed ctx.path))
    (verifyProgram platform environment ctx)

def validateTransaction (choice : Bool) : AppProgram Unit :=
  if choice then do
    setCtx fun ctx => { ctx with state := .approved }
    let signed ← cryptoSignMessage platform environment
    if signed then helperSendResponseSig 0
    else do
      setCtx fun ctx => { ctx with state := .none }
      ioSendSw .signatureFail
  else do
    setCtx fun ctx => { ctx with state := .none }
    ioSendSw .deny

def Review.choice : Review → Bool → AppProgram Unit
  | .address _, confirm => validatePubkey confirm
  | .transaction .., confirm => validateTransaction platform environment confirm

/-- The user answers the review on the screen. -/
def chooseReview (confirm : Bool) : AppProgram Unit := do
  let world ← Program.read
  match world.review with
  | none => pure ()
  | some review => do
      Program.update fun world =>
        { world with review := none, journal := .chose review confirm :: world.journal }
      review.choice platform environment confirm

end Handlers

/-! ## Settings and start -/

inductive Setting where
  | blindSigning
  | nonce
  | txHash
deriving DecidableEq, Repr

/-- `switch_value = !value`. -/
def switched (value : UInt8) : UInt8 := if value = 0 then 1 else 0

def controlsCallback (setting : Setting) : AppProgram Unit :=
  onNvm (Program.update fun storage =>
    match setting with
    | .blindSigning =>
        { storage with enableBlindSigning := switched storage.enableBlindSigning }
    | .nonce => { storage with displayNonce := switched storage.displayNonce }
    | .txHash => { storage with displayTxHash := switched storage.displayTxHash })

/-- `app_main` before its loop. -/
def appStart : AppProgram Unit := do
  record .started
  onNvm wipeNvmSecrets
  Program.update fun world => { world with running := true, ctx := .zero }

end LedgerQrl.App
