import LedgerQrl.App.System
import LedgerQrl.Mldsa87.Frame
import LedgerQrl.Mldsa87.KeyGeneration

namespace LedgerQrl.App

open Foundation Mldsa87 Display Transaction

/-! # What a command does

The effect of every command, as one relation between the world before and the
world after. -/

/-! ## Single steps -/

section Steps

variable (world : World)

@[simp] theorem finish_record (entry : Entry) :
    (record entry).finish world = world.record entry := rfl

@[simp] theorem finish_answer (response : Response) :
    (answer response).finish world = world.record (.answered response) := rfl

@[simp] theorem finish_ioSendSw (status : StatusWord) :
    (ioSendSw status).finish world = world.record (.answered (.status status)) := rfl

@[simp] theorem finish_setCtx (change : GlobalCtx → GlobalCtx) :
    (setCtx change).finish world = { world with ctx := change world.ctx } := rfl

@[simp] theorem finish_getCtx : getCtx.finish world = world := rfl

@[simp] theorem value_getCtx : getCtx.value world = world.ctx := rfl

@[simp] theorem value_onNvm {Result : Type} (program : NvmProgram Result) :
    (onNvm program).value world = program.value world.nvm := rfl

end Steps

/-! ## Programs of the storage -/

section Storage

variable {Result : Type} {program : NvmProgram Result} {world content : World}

def World.Stored (world : World) (nvm : InternalStorage) (content : World) : Prop :=
  ∃ writes, content =
    { world with nvm := nvm, journal := List.replicate writes .sigWritten ++ world.journal }

theorem World.Stored.start (world : World) : world.Stored world.nvm world := ⟨0, rfl⟩

theorem World.Stored.next (part : InternalStorage) (current : World)
    (update : InternalStorage) (stored : world.Stored part current) :
    world.Stored update (current.store update) := by
  obtain ⟨writes, rfl⟩ := stored
  rw [World.store]
  split
  · exact ⟨writes, rfl⟩
  · exact ⟨writes + 1, by rw [List.replicate_succ, List.cons_append]⟩

def sigChanges : (contents : List InternalStorage) → InternalStorage → ℕ
  | [], _ => 0
  | next :: rest, storage => (if next.sig = storage.sig then 0 else 1) + sigChanges rest next

theorem sig_of_sigChanges : ∀ {contents : List InternalStorage} {storage : InternalStorage},
    sigChanges contents storage = 0 → ∀ content ∈ contents, content.sig = storage.sig
  | [], _, _, _, member => by cases member
  | next :: rest, storage, unchanged, content, member => by
      rw [sigChanges, Nat.add_eq_zero_iff] at unchanged
      have same : next.sig = storage.sig := by
        by_contra other
        rw [if_neg other] at unchanged
        exact absurd unchanged.1 Nat.one_ne_zero
      rcases List.mem_cons.mp member with equal | later
      · rw [equal, same]
      · exact (sig_of_sigChanges unchanged.2 content later).trans same

theorem last_passing : ∀ (contents : List InternalStorage) (world : World),
    (Program.passing World.store contents world).getLastD world =
      { world with
        nvm := contents.getLastD world.nvm
        journal := List.replicate (sigChanges contents world.nvm) .sigWritten ++
          world.journal }
  | [], _ => rfl
  | next :: rest, world => by
      have later := last_passing rest (world.store next)
      rw [Program.passing, List.getLastD_cons, later, List.getLastD_cons, sigChanges,
        World.store]
      dsimp only
      by_cases same : next.sig = world.nvm.sig
      · rw [if_pos same, if_pos same, Nat.zero_add]
      · rw [if_neg same, if_neg same, Nat.add_comm 1, List.replicate_succ', List.append_assoc,
          List.singleton_append]

/-- Every write that changes the signature is noted. -/
theorem finish_onNvm_eq (program : NvmProgram Result) (world : World) :
    (onNvm program).finish world =
      { world with
        nvm := program.finish world.nvm
        journal := List.replicate (sigChanges (program.history world.nvm) world.nvm)
          .sigWritten ++ world.journal } :=
  last_passing (program.history world.nvm) world

theorem stored_visited (member : content ∈ (onNvm program).visited world) :
    ∃ nvm ∈ program.visited world.nvm, world.Stored nvm content :=
  Program.within_related (World.Stored.start world)
    (fun part current update (_ : True) => World.Stored.next part current update)
    (fun _ _ => trivial) member

def World.Kept (world : World) (nvm : InternalStorage) (content : World) : Prop :=
  nvm.sig = world.nvm.sig ∧ content = { world with nvm := nvm }

theorem World.Kept.next (part : InternalStorage) (current : World)
    (update : InternalStorage) (same : update.sig = world.nvm.sig)
    (kept : world.Kept part current) : world.Kept update (current.store update) := by
  obtain ⟨before, rfl⟩ := kept
  exact ⟨same, by rw [World.store, if_pos (same.trans before.symm)]⟩

theorem finish_onNvm (keeps : Keeps InternalStorage.sig program) (world : World) :
    (onNvm program).finish world = { world with nvm := program.finish world.nvm } := by
  have kept : world.Kept (program.finish world.nvm) ((onNvm program).finish world) :=
    Program.finish_within_related ⟨rfl, rfl⟩ World.Kept.next (keeps _ world.nvm rfl)
  exact kept.2

theorem visited_onNvm (keeps : Keeps InternalStorage.sig program)
    (member : content ∈ (onNvm program).visited world) :
    ∃ nvm ∈ program.visited world.nvm, content = { world with nvm := nvm } := by
  have kept : ∃ nvm ∈ program.visited world.nvm, world.Kept nvm content :=
    Program.within_related ⟨rfl, rfl⟩ World.Kept.next (keeps _ world.nvm rfl) member
  obtain ⟨nvm, inside, _, equal⟩ := kept
  exact ⟨nvm, inside, equal⟩

end Storage

/-! ## What the functions of the storage leave alone -/

section Frames

def settings (storage : InternalStorage) : UInt8 × UInt8 × UInt8 :=
  (storage.enableBlindSigning, storage.displayNonce, storage.displayTxHash)

/-- The bytes that only the settings and the retrieval of a signature write. -/
def flags (storage : InternalStorage) : (UInt8 × UInt8 × UInt8) × UInt8 :=
  (settings storage, storage.isSendingSignature)

/-- What is left alone by everything but signing. -/
def lasting (storage : InternalStorage) :
    Vector UInt8 4627 × (UInt8 × UInt8 × UInt8) × UInt8 :=
  (storage.sig, flags storage)

theorem of_lasting {first second : InternalStorage} (same : lasting first = lasting second) :
    first.sig = second.sig ∧ flags first = flags second :=
  Prod.mk.inj same

theorem of_flags {first second : InternalStorage} (same : flags first = flags second) :
    settings first = settings second ∧
      first.isSendingSignature = second.isSendingSignature :=
  Prod.mk.inj same

theorem outsideScratch_lasting : OutsideScratch lasting where
  w1 _ _ := rfl
  w0 _ _ := rfl
  h _ _ := rfl
  y _ _ := rfl
  z _ _ := rfl
  cp _ _ := rfl
  t1 _ _ := rfl
  pack1 _ _ := rfl

theorem outsideScratch_flags : OutsideScratch flags where
  w1 _ _ := rfl
  w0 _ _ := rfl
  h _ _ := rfl
  y _ _ := rfl
  z _ _ := rfl
  cp _ _ := rfl
  t1 _ _ := rfl
  pack1 _ _ := rfl

variable {View View' Result : Type} {view : InternalStorage → View}
  {program : NvmProgram Result}

theorem keeps_map (keeps : Keeps view program) (part : View → View') :
    Keeps (fun storage => part (view storage)) program := by
  intro seen storage holds content member
  have same : view content = view storage := keeps (view storage) storage rfl content member
  exact (congrArg part same).trans holds

theorem keeps_newMldsa87FromSeed (shake : Shake) (seed : Vector UInt8 32) :
    Keeps lasting (newMldsa87FromSeed shake seed) := by
  rw [newMldsa87FromSeed]
  exact keeps_cryptoSignKeypair outsideScratch_lasting shake (fun _ _ => rfl) _ _

theorem keeps_lasting_wipe : Keeps lasting wipeNvmSecrets :=
  keeps_wipeNvmSecrets outsideScratch_lasting

theorem keeps_lasting_verify (shake : Shake) (derive : Derivation) (path : List UInt32)
    (sig message : List UInt8) :
    Keeps lasting (cryptoVerifyOptimized shake derive path sig message) :=
  keeps_cryptoVerifyOptimized outsideScratch_lasting (fun _ _ => rfl) shake derive path
    sig message

theorem keeps_flags_sign (shake : Shake) (derive : Derivation) (rnd : Vector UInt8 32)
    (path : List UInt32) (message : List UInt8) :
    Keeps flags (cryptoSignOptimized shake derive rnd path message) :=
  keeps_cryptoSignOptimized outsideScratch_flags (fun _ _ => rfl) shake derive path
    (fun _ _ => rfl) rnd message

theorem keeps_sig_of_lasting (keeps : Keeps lasting program) :
    Keeps InternalStorage.sig program :=
  keeps_map keeps Prod.fst

end Frames

/-! ## Requests with a path -/

section Requests

variable (platform : Platform) (environment : Environment) (world : World)

def readWorld (reqType : RequestType) (data : List UInt8) : World :=
  if (readRequest platform reqType data).2 then
    { world with ctx := (readRequest platform reqType data).1 }
  else
    World.record (.answered (.status .wrongDataLength))
      { world with ctx := (readRequest platform reqType data).1 }

theorem value_beginRequest (reqType : RequestType) (data : List UInt8) :
    (beginRequest platform reqType data).value world =
      (readRequest platform reqType data).2 := by
  rw [beginRequest, Program.value_bind, Program.value_ite]
  split
  · rename_i valid
    exact valid.symm
  · rename_i invalid
    exact (Bool.not_eq_true _ ▸ invalid).symm

theorem finish_beginRequest (reqType : RequestType) (data : List UInt8) :
    (beginRequest platform reqType data).finish world =
      readWorld platform world reqType data := by
  rw [beginRequest, Program.finish_bind, Program.finish_ite, readWorld]
  split <;> rfl

end Requests

/-! ## Addresses -/

section Addresses

variable (platform : Platform) (environment : Environment) (world : World)

@[irreducible] def keyed (rawSeed : Vector UInt8 64) (storage : InternalStorage) :
    InternalStorage :=
  (newMldsa87FromSeed platform.shake (seedOfRaw rawSeed)).finish storage

noncomputable def keyOf (rawSeed : Vector UInt8 64) : Vector UInt8 2592 :=
  publicKeyBytes platform.shake (seedOfRaw rawSeed)

@[simp] theorem keyed_pk (rawSeed : Vector UInt8 64) (storage : InternalStorage) :
    (keyed platform rawSeed storage).pk = keyOf platform rawSeed := by
  rw [keyed, newMldsa87FromSeed, finish_cryptoSignKeypair, keyOf]

theorem keyed_lasting (rawSeed : Vector UInt8 64) (storage : InternalStorage) :
    lasting (keyed platform rawSeed storage) = lasting storage := by
  rw [keyed]
  exact (keeps_newMldsa87FromSeed platform.shake _).finish storage

@[simp] theorem keyed_sig (rawSeed : Vector UInt8 64) (storage : InternalStorage) :
    (keyed platform rawSeed storage).sig = storage.sig :=
  (of_lasting (keyed_lasting platform rawSeed storage)).1

@[simp] theorem keyed_flags (rawSeed : Vector UInt8 64) (storage : InternalStorage) :
    flags (keyed platform rawSeed storage) = flags storage :=
  (of_lasting (keyed_lasting platform rawSeed storage)).2

@[simp] theorem keyed_settings (rawSeed : Vector UInt8 64) (storage : InternalStorage) :
    settings (keyed platform rawSeed storage) = settings storage :=
  (of_flags (keyed_flags platform rawSeed storage)).1

@[simp] theorem keyed_isSendingSignature (rawSeed : Vector UInt8 64) (storage : InternalStorage) :
    (keyed platform rawSeed storage).isSendingSignature = storage.isSendingSignature :=
  (of_flags (keyed_flags platform rawSeed storage)).2

theorem value_newMldsa87FromSeed (shake : Shake) (seed : Vector UInt8 32)
    (storage : InternalStorage) : (newMldsa87FromSeed shake seed).value storage = .none := by
  rw [newMldsa87FromSeed, cryptoSignKeypair]
  simp only [Program.value_bind, Program.value_pure]

noncomputable def addressOf (rawSeed : Vector UInt8 64) : Vector UInt8 addressSize :=
  addressOfKey platform.shake (keyOf platform rawSeed)

@[simps running ctx nvm review journal]
noncomputable def World.addressed (rawSeed : Vector UInt8 64) : World :=
  { world with
    ctx := { world.ctx with address := addressOf platform rawSeed }
    nvm := keyed platform rawSeed world.nvm
    journal := .derives world.ctx.path (.ok rawSeed) :: world.journal }

@[simps running ctx nvm review journal]
def World.shown (review : Review) : World :=
  { world with
    review := some review
    journal := .displayed review :: world.journal }

variable {environment world}

theorem addressFromBip32Path_error {error : ℕ}
    (failed : environment.addressSeed world.ctx.path = .error error) :
    (addressFromBip32Path platform environment).value world = some error ∧
      (addressFromBip32Path platform environment).finish world =
        world.record (.derives world.ctx.path (.error error)) := by
  rw [addressFromBip32Path, Program.value_bind, Program.finish_bind, value_getCtx,
    finish_getCtx, failed]
  exact ⟨rfl, rfl⟩

theorem generateAddress_effect (shake : Shake) (world : World)
    {generate : NvmProgram ErrorCode}
    (keeps : Keeps InternalStorage.sig generate)
    (succeeds : generate.value world.nvm = .none) :
    (generateAddress shake generate).value world = none ∧
      (generateAddress shake generate).finish world =
        { world with
          ctx :=
            { world.ctx with address := addressOfKey shake (generate.finish world.nvm).pk }
          nvm := generate.finish world.nvm } := by
  simp only [generateAddress, Program.value_bind, Program.finish_bind, value_onNvm,
    finish_onNvm keeps, succeeds, ne_eq, not_true_eq_false, if_false, Program.value_read,
    Program.finish_read, finish_setCtx, Program.value_pure, Program.finish_pure, true_and]

theorem addressFromBip32Path_ok {rawSeed : Vector UInt8 64}
    (derived : environment.addressSeed world.ctx.path = .ok rawSeed) :
    (addressFromBip32Path platform environment).value world = none ∧
      (addressFromBip32Path platform environment).finish world =
        world.addressed platform rawSeed := by
  have effect := generateAddress_effect platform.shake
    (world.record (.derives world.ctx.path (.ok rawSeed)))
    (keeps_sig_of_lasting (keeps_newMldsa87FromSeed platform.shake (seedOfRaw rawSeed)))
    (value_newMldsa87FromSeed _ _ _)
  have pk := keyed_pk platform rawSeed world.nvm
  rw [addressFromBip32Path, Program.value_bind, Program.finish_bind, value_getCtx,
    finish_getCtx, derived, Program.value_bind, Program.finish_bind, finish_record]
  refine ⟨effect.1, effect.2.trans ?_⟩
  rw [World.addressed, addressOf, ← pk, keyed]
  generalize newMldsa87FromSeed platform.shake (seedOfRaw rawSeed) = generate
  rfl

theorem finish_uiDisplayAddress (address : world.ctx.reqType = .confirmAddress)
    (state : world.ctx.state = .none) :
    (uiDisplayAddress platform).finish world =
      world.shown (.address (checksummed platform.shake.shake256 world.ctx.address)) := by
  obtain ⟨stored, formatted, text⟩ :=
    formatChecksummedAddress_shown platform.shake.shake256 world.ctx.address
  rw [uiDisplayAddress, Program.finish_bind, value_getCtx, finish_getCtx,
    if_neg (by simp [address, state]), formatted]
  dsimp only
  rw [text]
  rfl

variable (world) in
noncomputable def World.transactionReview (tx : ZondTx) : Review :=
  .transaction (reviewPairs platform.shake.shake256 (reviewSettings world.nvm)
      world.ctx.address world.ctx.mHash.toList tx)
    { transaction := world.ctx.transaction
      path := world.ctx.path
      address := world.ctx.address
      blind := tx.hasData || tx.hasAccessList
      blindSigning := world.nvm.enableBlindSigning ≠ 0 }

theorem finish_uiDisplayTransaction_error {tx : ZondTx} {error : ℕ} (blind : Bool)
    (transaction : world.ctx.reqType = .confirmTransaction)
    (state : world.ctx.state = .parsed)
    (failed : environment.addressSeed world.ctx.path = .error error) :
    (uiDisplayTransactionBsChoice platform environment blind tx).finish world =
      World.record (.answered (.status .displayAddressFail))
        (world.record (.derives world.ctx.path (.error error))) := by
  obtain ⟨value, finish⟩ := addressFromBip32Path_error platform failed
  rw [uiDisplayTransactionBsChoice, Program.finish_bind, value_getCtx, finish_getCtx,
    if_neg (by simp [transaction, state]), Program.finish_bind, value, finish]
  exact finish_ioSendSw _ _

theorem finish_uiDisplayTransaction_ok {tx : ZondTx} {rawSeed : Vector UInt8 64}
    (transaction : world.ctx.reqType = .confirmTransaction)
    (state : world.ctx.state = .parsed)
    (derived : environment.addressSeed world.ctx.path = .ok rawSeed) :
    (uiDisplayTransactionBsChoice platform environment (tx.hasData || tx.hasAccessList)
        tx).finish world =
      (world.addressed platform rawSeed).shown
        ((world.addressed platform rawSeed).transactionReview platform tx) := by
  obtain ⟨value, finish⟩ := addressFromBip32Path_ok platform derived
  have digest : (world.addressed platform rawSeed).ctx.mHash.toList.length = 32 :=
    Vector.length_toList
  have formatted := formatReview_eq platform.shake.shake256
    (reviewSettings (world.addressed platform rawSeed).nvm)
    (world.addressed platform rawSeed).ctx.address digest tx environment.buffers
  rw [uiDisplayTransactionBsChoice, Program.finish_bind, value_getCtx, finish_getCtx,
    if_neg (by simp [transaction, state]), Program.finish_bind, value, finish]
  clear digest
  generalize world.addressed platform rawSeed = derivedWorld at formatted ⊢
  dsimp only
  rw [Program.finish_bind, Program.value_read, Program.finish_read, formatted]
  rfl

end Addresses

/-! ## Chunks -/

section Chunks

variable (platform : Platform) {environment : Environment} {world : World}

def GlobalCtx.appended (ctx : GlobalCtx) (data : List UInt8) : GlobalCtx :=
  { ctx with
    rawTx := writeBytes ctx.rawTxLen data ctx.rawTx
    rawTxLen := ctx.rawTxLen + data.length }

section Appended

variable (ctx : GlobalCtx) (data : List UInt8)

@[simp] theorem appended_rawTxLen :
    (ctx.appended data).rawTxLen = ctx.rawTxLen + data.length := by
  rw [GlobalCtx.appended]

@[simp] theorem appended_reqType : (ctx.appended data).reqType = ctx.reqType := by
  rw [GlobalCtx.appended]

@[simp] theorem appended_state : (ctx.appended data).state = ctx.state := by
  rw [GlobalCtx.appended]

@[simp] theorem appended_mHash : (ctx.appended data).mHash = ctx.mHash := by
  rw [GlobalCtx.appended]

@[simp] theorem appended_address : (ctx.appended data).address = ctx.address := by
  rw [GlobalCtx.appended]

end Appended

def World.taken (world : World) (data : List UInt8) (final : Bool) : World :=
  { world with
    ctx := world.ctx.appended data
    journal := .copied data final :: world.journal }

section Taken

variable (world : World) (data : List UInt8) (final : Bool)

@[simp] theorem taken_running : (world.taken data final).running = world.running := by
  simp only [World.taken]

@[simp] theorem taken_ctx : (world.taken data final).ctx = world.ctx.appended data := by
  simp only [World.taken]

@[simp] theorem taken_nvm : (world.taken data final).nvm = world.nvm := by
  simp only [World.taken]

@[simp] theorem taken_review : (world.taken data final).review = world.review := by
  simp only [World.taken]

@[simp] theorem taken_journal :
    (world.taken data final).journal = .copied data final :: world.journal := by
  simp only [World.taken]

end Taken

def World.digested (world : World) (data : List UInt8) : World :=
  { world with
    ctx :=
      { world.ctx.appended data with
        state := .parsed
        mHash := keccak256 platform.permutation (world.ctx.appended data).transaction }
    journal := .copied data true :: world.journal }

section Digested

variable (world : World) (data : List UInt8)

@[simp] theorem digested_running :
    (world.digested platform data).running = world.running := by
  simp only [World.digested]

@[simp] theorem digested_nvm : (world.digested platform data).nvm = world.nvm := by
  simp only [World.digested]

@[simp] theorem digested_review :
    (world.digested platform data).review = world.review := by
  simp only [World.digested]

@[simp] theorem digested_reqType :
    (world.digested platform data).ctx.reqType = world.ctx.reqType := by
  simp only [World.digested, GlobalCtx.appended]

@[simp] theorem digested_journal :
    (world.digested platform data).journal = .copied data true :: world.journal := by
  simp only [World.digested]

end Digested

def World.examined (world : World) (data : List UInt8) : World :=
  { world.digested platform data with
    journal := .checked (world.nvm.enableBlindSigning ≠ 0) ::
      (world.digested platform data).journal }

theorem examined_path (world : World) (data : List UInt8) :
    (world.examined platform data).ctx.path = world.ctx.path := by
  simp only [GlobalCtx.path, World.examined, World.digested, GlobalCtx.appended]

@[simp] theorem examined_reqType (world : World) (data : List UInt8) :
    (world.examined platform data).ctx.reqType = world.ctx.reqType := by
  simp only [World.examined, digested_reqType]

@[simp] theorem examined_running (world : World) (data : List UInt8) :
    (world.examined platform data).running = world.running := by
  simp only [World.examined, digested_running]

@[simp] theorem examined_nvm (world : World) (data : List UInt8) :
    (world.examined platform data).nvm = world.nvm := by
  simp only [World.examined, digested_nvm]

@[simp] theorem examined_review (world : World) (data : List UInt8) :
    (world.examined platform data).review = world.review := by
  simp only [World.examined, digested_review]

@[simp] theorem examined_journal (world : World) (data : List UInt8) :
    (world.examined platform data).journal =
      .checked (world.nvm.enableBlindSigning ≠ 0) :: .copied data true ::
        world.journal := by
  simp only [World.examined, digested_journal]

theorem examined_state (world : World) (data : List UInt8) :
    (world.examined platform data).ctx.state = .parsed := rfl

theorem takeChunk_badState (data : List UInt8) (final : Bool)
    (other : world.ctx.reqType ≠ .confirmTransaction) :
    (takeChunk platform data final).value world = false ∧
      (takeChunk platform data final).finish world =
        world.record (.answered (.status .badState)) := by
  rw [takeChunk, Program.value_bind, Program.finish_bind, value_getCtx, finish_getCtx,
    if_pos other]
  exact ⟨rfl, rfl⟩

theorem takeChunk_tooLong {data : List UInt8} (final : Bool)
    (transaction : world.ctx.reqType = .confirmTransaction)
    (long : world.ctx.rawTxLen + data.length > maxTransactionLen) :
    (takeChunk platform data final).value world = false ∧
      (takeChunk platform data final).finish world =
        world.record (.answered (.status .wrongTxLength)) := by
  rw [takeChunk, Program.value_bind, Program.finish_bind, value_getCtx, finish_getCtx,
    if_neg (by simp [transaction]), if_pos long]
  exact ⟨rfl, rfl⟩

theorem takeChunk_fits {data : List UInt8} (final : Bool)
    (transaction : world.ctx.reqType = .confirmTransaction)
    (fits : world.ctx.rawTxLen + data.length ≤ maxTransactionLen) :
    (takeChunk platform data final).value world = true ∧
      (takeChunk platform data final).finish world = world.taken data final := by
  rw [takeChunk, Program.value_bind, Program.finish_bind, value_getCtx, finish_getCtx,
    if_neg (by simp [transaction]), if_neg (Nat.not_lt.mpr fits),
    platform.sdk.move_eq data _ (Nat.le_refl _)]
  simp only [Program.value_bind, Program.finish_bind, finish_setCtx, finish_record,
    Program.value_pure, Program.finish_pure, World.taken, World.record, GlobalCtx.appended,
    and_self]

end Chunks

end LedgerQrl.App
