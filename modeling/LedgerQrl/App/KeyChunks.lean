import LedgerQrl.App.Session
import LedgerQrl.App.Journal

namespace LedgerQrl.App

open Foundation Mldsa87 Display Transaction

/-! # The parts of a public key

Every derivation replaces the key in the storage, and a request for a part tests
nothing but the index. The parts belong to the requested key as long as the last
request for an address has been answered with it, by the user's confirmation where one
is asked for, and no other path has been derived since. -/

/-! ## What the journal says of keys -/

def Command.asksAddress (command : Command) : Bool :=
  command.cla == 0xE0 && command.ins == 5 && command.p2 == 0

def awaitsAddress : List Entry → Bool
  | .received command :: _ => command.asksAddress
  | _ => false

/-- The path of the last request for an address since the start, unless its path is
invalid or its derivation has failed. -/
def requestedPath : List Entry → Option (List UInt32)
  | [] => none
  | .started :: _ => none
  | .received command :: rest => if command.asksAddress then none else requestedPath rest
  | .derives path (.ok _) :: rest =>
      if awaitsAddress rest then some path else requestedPath rest
  | _ :: rest => requestedPath rest

/-- The path of the last request for an address since the start, once the request has
been answered with the address. A request that the user rejects never is, and one whose
review is on the screen is not yet. -/
def acceptedPath : List Entry → Option (List UInt32)
  | [] => none
  | .started :: _ => none
  | .received command :: rest => if command.asksAddress then none else acceptedPath rest
  | .answered (.address _) :: rest => requestedPath rest
  | _ :: rest => acceptedPath rest

example {command : Command} (asks : command.asksAddress = true) (path : List UInt32)
    (rawSeed : Vector UInt8 64) (review : Review) (older : List Entry) :
    let pending := .displayed review :: .derives path (.ok rawSeed) :: .received command :: older
    acceptedPath pending = none ∧
      acceptedPath (.answered (.status .deny) :: .chose review false :: pending) = none := by
  simp [acceptedPath, asks]

/-- The path of the last key that has been generated since the start. -/
def keyedPath (journal : List Entry) : Option (List UInt32) :=
  (journal.findSome? fun
    | .started => some none
    | .derives path (.ok _) => some (some path)
    | _ => none).join

/-- Bytes `[258 i, min (258 (i + 1), 2592))`. -/
def publicKeyPart (key : Vector UInt8 2592) (index : ℕ) : List UInt8 :=
  (key.toList.drop (index * pkChunkSize)).take pkChunkSize

/-- What a part is answered with belongs to the last request for an address, which has
been accepted, and to the last key. -/
def Entry.OfRequestedKey (platform : Platform) (rawSeedOf : List UInt32 → Vector UInt8 64) :
    Entry → List Entry → Prop
  | .answered (.publicKey index bytes), rest => ∃ path,
      acceptedPath rest = some path ∧ keyedPath rest = some path ∧ index < pkChunks ∧
        bytes = publicKeyPart (keyOf platform (rawSeedOf path)) index
  | _, _ => True

/-! ## The condition on a run -/

/-- A path always derives the same raw seed. -/
structure Environment.Derives (environment : Environment)
    (rawSeedOf : List UInt32 → Vector UInt8 64) : Prop where
  address : ∀ path rawSeed, environment.addressSeed path = .ok rawSeed →
    rawSeed = rawSeedOf path
  sign : ∀ path rawSeed, environment.signSeed path = .ok rawSeed → rawSeed = rawSeedOf path
  verify : ∀ path rawSeed, environment.verifySeed path = .ok rawSeed →
    rawSeed = rawSeedOf path

/-- One device, whose host asks for the parts of a key only when the last request
for an address since the start has been accepted, and the last key is of its path. -/
def AsksRequestedKey (rawSeedOf : List UInt32 → Vector UInt8 64) (world : World) :
    Action → Prop
  | .command command environment => environment.Derives rawSeedOf ∧
      ∀ index, command.request = .getPublicKeyChunk index → index < pkChunks →
        (acceptedPath world.journal).isSome ∧
          keyedPath world.journal = acceptedPath world.journal
  | .choose _ environment => environment.Derives rawSeedOf
  | _ => True

section Keys

variable {platform : Platform} {environment : Environment} {world final : World}
  {rawSeedOf : List UInt32 → Vector UInt8 64}

def World.KeyStored (platform : Platform) (rawSeedOf : List UInt32 → Vector UInt8 64)
    (world : World) : Prop :=
  world.running = true → ∀ path, keyedPath world.journal = some path →
    world.nvm.pk = keyOf platform (rawSeedOf path)

theorem World.KeyStored.congr {other : World} (stored : world.KeyStored platform rawSeedOf)
    (running : other.running = world.running) (pk : other.nvm.pk = world.nvm.pk)
    (keyed : keyedPath other.journal = keyedPath world.journal) :
    other.KeyStored platform rawSeedOf := by
  rw [World.KeyStored, running, pk, keyed]
  exact stored

/-! ## Derivations -/

noncomputable def keyAfter (platform : Platform) (outcome : Except ℕ (Vector UInt8 64))
    (before : Vector UInt8 2592) : Vector UInt8 2592 :=
  match outcome with
  | .ok rawSeed => keyOf platform rawSeed
  | .error _ => before

/-- A derivation generates the key of its path, or fails and leaves the key alone. -/
theorem World.KeyStored.derived {other : World} {path : List UInt32}
    {outcome : Except ℕ (Vector UInt8 64)} (stored : world.KeyStored platform rawSeedOf)
    (known : ∀ rawSeed, outcome = .ok rawSeed → rawSeed = rawSeedOf path)
    (running : other.running = world.running)
    (pk : other.nvm.pk = keyAfter platform outcome world.nvm.pk)
    (keyed : keyedPath other.journal = keyedPath (.derives path outcome :: world.journal)) :
    other.KeyStored platform rawSeedOf := by
  cases outcome with
  | error error => exact stored.congr running pk keyed
  | ok rawSeed =>
      intro _ last latest
      rw [keyed] at latest
      cases latest
      rw [pk, keyAfter, known rawSeed rfl]

theorem signProgram_pk (ctx : GlobalCtx) (storage : InternalStorage) :
    ((signProgram platform environment ctx).finish storage).pk =
      keyAfter platform (environment.signSeed ctx.path) storage.pk := by
  have signing := fun rawSeed derived => @cryptoSignOptimized_pk platform.shake
    environment.rnd ctx.mHash.toList storage
    (fun path => (environment.signSeed path).toOption) ctx.path rawSeed derived
    (toList_mHash_ne_nil ctx)
  have underived := fun none => @cryptoSignOptimized_underived platform.shake
    (fun path => (environment.signSeed path).toOption) ctx.path none environment.rnd
    ctx.mHash.toList storage
  rw [signProgram]
  cases outcome : environment.signSeed ctx.path with
  | error error => rw [underived (by rw [outcome]; rfl), keyAfter]
  | ok rawSeed => rw [signing rawSeed (by rw [outcome]; rfl), keyAfter, keyOf]

theorem verifyProgram_pk (ctx : GlobalCtx) (sig : Vector UInt8 4627)
    (storage : InternalStorage) :
    ((verifyProgram platform environment ctx sig.toList).finish storage).pk =
      keyAfter platform (environment.verifySeed ctx.path) storage.pk := by
  have verifying := fun rawSeed derived => @cryptoVerifyOptimized_pk platform.shake
    (fun path => (environment.verifySeed path).toOption) ctx.path rawSeed derived sig.toList
    ctx.mHash.toList Vector.length_toList (toList_mHash_ne_nil ctx) storage
  have underived := fun none => @cryptoVerifyOptimized_underived platform.shake
    (fun path => (environment.verifySeed path).toOption) ctx.path none sig.toList
    ctx.mHash.toList storage
  rw [verifyProgram]
  cases outcome : environment.verifySeed ctx.path with
  | error error => rw [underived (by rw [outcome]; rfl), keyAfter]
  | ok rawSeed => rw [verifying rawSeed (by rw [outcome]; rfl), keyAfter, keyOf]

theorem wipeNvmSecrets_pk (storage : InternalStorage) :
    (wipeNvmSecrets.finish storage).pk = storage.pk := by
  have outside : OutsideScratch InternalStorage.pk :=
    ⟨⟨fun _ _ => rfl, fun _ _ => rfl, fun _ _ => rfl, fun _ _ => rfl, fun _ _ => rfl,
      fun _ _ => rfl⟩, fun _ _ => rfl, fun _ _ => rfl⟩
  exact (keeps_wipeNvmSecrets outside).finish storage

/-! ## Commands -/

theorem asksAddress_of_chunk {command : Command} {index : ℕ}
    (request : command.request = .getPublicKeyChunk index) : command.asksAddress = false := by
  by_contra asks
  rw [Bool.not_eq_false, Command.asksAddress, Bool.and_eq_true, Bool.and_eq_true] at asks
  obtain ⟨⟨cla, ins⟩, p2⟩ := asks
  rw [beq_iff_eq] at cla ins p2
  simp only [Command.request, cla, ins, p2] at request
  simp at request
  split at request
  · cases request
  · split at request
    · cases request
    · cases request

theorem acceptedPath_received {command : Command} (other : command.asksAddress = false)
    (journal : List Entry) :
    acceptedPath (.received command :: journal) = acceptedPath journal := by
  rw [acceptedPath, other, if_neg Bool.false_ne_true]

theorem chunkOf_publicKey {index : ℕ} (small : index < pkChunks)
    (key : Vector UInt8 2592) :
    chunkOf key (index * pkChunkSize)
        (if index < pkChunks - 1 then pkChunkSize else pkLastChunkSize) =
      publicKeyPart key index := by
  rw [chunkOf, publicKeyPart]
  split
  · rfl
  · rename_i last
    have equal : index = 10 := by
      rw [pkChunks] at small last
      omega
    subst equal
    have length : (key.toList.drop (10 * pkChunkSize)).length = pkLastChunkSize := by
      rw [List.length_drop, Vector.length_toList]
      rfl
    rw [List.take_of_length_le length.le, List.take_of_length_le (length.le.trans (by decide))]

abbrev KeysKept (platform : Platform) (rawSeedOf : List UInt32 → Vector UInt8 64)
    (world : World) : Prop :=
  world.KeyStored platform rawSeedOf ∧
    Always (fun entry rest => entry.OfRequestedKey platform rawSeedOf rest) world.journal

theorem Served.keysKept {command : Command} (kept : KeysKept platform rawSeedOf world)
    (running : world.running = true)
    (asks : AsksRequestedKey rawSeedOf world (.command command environment))
    (served : Served platform environment (world.record (.received command))
      command.request final) : KeysKept platform rawSeedOf final := by
  obtain ⟨stored, always⟩ := kept
  obtain ⟨derives, asks⟩ := asks
  have received : (world.record (.received command)).KeyStored platform rawSeedOf :=
    stored.congr rfl rfl rfl
  generalize requested : command.request = request at served
  cases served with
  | turnedAway _ => exact ⟨received.congr rfl rfl rfl, trivial, trivial, always⟩
  | version => exact ⟨received.congr rfl rfl rfl, trivial, trivial, always⟩
  | appName => exact ⟨received.congr rfl rfl rfl, trivial, trivial, always⟩
  | @publicKey index small =>
      obtain ⟨present, agrees⟩ := asks index requested small
      obtain ⟨path, latest⟩ := Option.isSome_iff_exists.mp present
      have other := acceptedPath_received (asksAddress_of_chunk requested) world.journal
      have key := stored running path (agrees.trans latest)
      refine ⟨received.congr rfl rfl rfl, ⟨path, other.trans latest, agrees.trans latest,
        small, ?_⟩, trivial, always⟩
      rw [chunkOf_publicKey small, World.record_nvm, key]
  | pathRefused _ _ => exact ⟨received.congr rfl rfl rfl, trivial, trivial, always⟩
  | sessionOpened _ => exact ⟨received.congr rfl rfl rfl, trivial, trivial, always⟩
  | addressUnderivable _ _ =>
      exact ⟨received.congr rfl rfl rfl, trivial, trivial, trivial, always⟩
  | addressAnswered _ outcome =>
      exact ⟨received.derived (fun rawSeed equal => derives.address _ _ (outcome.trans equal))
        rfl (keyed_pk _ _ _) rfl, trivial, trivial, trivial, always⟩
  | addressShown _ outcome =>
      exact ⟨received.derived (fun rawSeed equal => derives.address _ _ (outcome.trans equal))
        rfl (keyed_pk _ _ _) rfl, trivial, trivial, trivial, always⟩
  | chunkTaken _ _ =>
      exact ⟨received.congr (by simp) (by simp) (by simp [keyedPath]), by
        simpa [Entry.OfRequestedKey] using always⟩
  | undecodable _ _ _ =>
      exact ⟨received.congr (by simp) (by simp) (by simp [keyedPath]), by
        simpa [Entry.OfRequestedKey] using always⟩
  | forbidden _ _ _ _ _ =>
      exact ⟨received.congr (by simp) (by simp) (by simp [keyedPath]), by
        simpa [Entry.OfRequestedKey] using always⟩
  | underivable _ _ _ _ _ =>
      exact ⟨received.congr (by simp) (by simp) (by simp [keyedPath]), by
        simpa [Entry.OfRequestedKey] using always⟩
  | reviewShown _ _ _ _ outcome =>
      exact ⟨received.derived (fun rawSeed equal => derives.address _ _ (outcome.trans equal))
        (by simp) (by simp [keyAfter]) (by simp [keyedPath]), by
          simpa [Entry.OfRequestedKey] using always⟩
  | signature _ _ _ _ => exact ⟨received.congr rfl rfl rfl, trivial, trivial, always⟩
  | lastSignature _ _ => exact ⟨received.congr rfl rfl rfl, trivial, trivial, always⟩

/-! ## Answers of the user -/

theorem keyedPath_sigWritten (writes : ℕ) (journal : List Entry) :
    keyedPath (List.replicate writes .sigWritten ++ journal) = keyedPath journal :=
  congrArg Option.join (findSome?_replicate_append rfl writes)

theorem always_sigWritten (platform : Platform) (rawSeedOf : List UInt32 → Vector UInt8 64)
    (writes : ℕ) {journal : List Entry}
    (always : Always (fun entry rest => entry.OfRequestedKey platform rawSeedOf rest)
      journal) :
    Always (fun entry rest => entry.OfRequestedKey platform rawSeedOf rest)
      (List.replicate writes .sigWritten ++ journal) :=
  (always_replicate_append (fun _ => trivial) writes).mpr always

theorem World.KeyStored.signed (stored : world.KeyStored platform rawSeedOf)
    (derives : environment.Derives rawSeedOf) (entry : Entry) (writes : ℕ)
    (silent : keyedPath (entry :: world.journal) = keyedPath world.journal) :
    World.KeyStored platform rawSeedOf
      { world with
        nvm := signedNvm platform environment world
        journal := List.replicate writes .sigWritten ++
          .derives world.ctx.path (environment.signSeed world.ctx.path) ::
            .signs world.ctx.path world.ctx.mHash :: entry :: world.journal } := by
  refine stored.derived (fun rawSeed => derives.sign _ rawSeed) rfl
    (signProgram_pk world.ctx world.nvm) ?_
  rw [keyedPath_sigWritten]
  cases environment.signSeed world.ctx.path with
  | error error => exact silent
  | ok rawSeed => rfl

theorem released_pk (world : World) : world.released.nvm.pk = world.nvm.pk := rfl

theorem World.KeyStored.verified (stored : world.KeyStored platform rawSeedOf)
    (derives : environment.Derives rawSeedOf) (entry : Entry) (writes : ℕ)
    (isVerified : Bool) (silent : keyedPath (entry :: world.journal) = keyedPath world.journal) :
    World.KeyStored platform rawSeedOf
      { world with
        nvm := wipeNvmSecrets.finish ((verification platform environment world).finish
          (signedNvm platform environment world))
        journal := .verified (signedNvm platform environment world).sig isVerified ::
          .derives world.ctx.path (environment.verifySeed world.ctx.path) ::
            (List.replicate writes .sigWritten ++
              .derives world.ctx.path (environment.signSeed world.ctx.path) ::
                .signs world.ctx.path world.ctx.mHash :: entry :: world.journal) } := by
  refine (stored.signed derives entry writes silent).derived
    (fun rawSeed => derives.verify world.ctx.path rawSeed) rfl ?_ ?_
  · exact (wipeNvmSecrets_pk _).trans (verifyProgram_pk world.ctx _ _)
  · rfl

theorem Chosen.keysKept {review : Review} {confirm : Bool}
    (kept : KeysKept platform rawSeedOf world) (derives : environment.Derives rawSeedOf)
    (chosen : Chosen platform environment (world.answering review confirm) review confirm
      final) : KeysKept platform rawSeedOf final := by
  obtain ⟨stored, always⟩ := kept
  have written := fun writes journal => @always_sigWritten platform rawSeedOf writes journal
  have signed := fun writes => stored.signed derives (.chose review confirm) writes rfl
  have verified := fun writes isVerified =>
    stored.verified derives (.chose review confirm) writes isVerified rfl
  cases chosen with
  | addressConfirmed => exact ⟨stored.congr rfl rfl rfl, trivial, trivial, always⟩
  | addressRejected => exact ⟨stored.congr rfl rfl rfl, trivial, trivial, always⟩
  | transactionRejected => exact ⟨stored.congr rfl rfl rfl, trivial, trivial, always⟩
  | signingFailed writes _ =>
      refine ⟨(signed writes).congr rfl (wipeNvmSecrets_pk _) rfl, trivial, ?_⟩
      exact written writes _ ⟨trivial, trivial, trivial, always⟩
  | verificationFailed writes _ _ =>
      refine ⟨(verified writes ((verification platform environment world).value
        (signedNvm platform environment world)).2).congr rfl rfl rfl, trivial, trivial,
        trivial, ?_⟩
      exact written writes _ ⟨trivial, trivial, trivial, always⟩
  | released writes _ _ =>
      refine ⟨(verified writes true).congr rfl ?_ rfl, trivial, trivial, trivial, ?_⟩
      · rw [released_pk]
        rfl
      · exact written writes _ ⟨trivial, trivial, trivial, always⟩

/-- In runs that keep to the condition, every part that is sent belongs to the
requested key. -/
theorem key_parts_of_request (platform : Platform)
    (rawSeedOf : List UInt32 → Vector UInt8 64) (world : World)
    (reachable : Reachable platform (AsksRequestedKey rawSeedOf) world) :
    Always (fun entry rest => entry.OfRequestedKey platform rawSeedOf rest)
      world.journal := by
  have kept : KeysKept platform rawSeedOf world := by
    refine Reachable.always ?_ ?_ ?_ ?_ ?_ reachable
    · intro world off running
      rw [off] at running
      cases running
    · intro world _ always
      rw [finish_appStart]
      refine ⟨fun _ path latest => ?_, trivial, always⟩
      cases latest
    · intro world final command environment stored always running asks served
      exact served.keysKept ⟨stored, always⟩ running asks
    · intro world final review confirm environment stored always _ _ derives chosen
      exact chosen.keysKept ⟨stored, always⟩ derives
    · intro world nvm stored _ pk _
      exact stored.congr rfl pk rfl
  exact kept.2

end Keys

/-! ## A request of each kind -/

/-- `GET_PUBLIC_KEY` for the first part of the key. -/
def firstPartCommand : Command := commandOf 5 0 1 [] empty_short

theorem derivingEnvironment_derives :
    derivingEnvironment.Derives fun _ => Vector.replicate 64 0 where
  address _ _ derived := (Except.ok.inj derived).symm
  sign _ _ derived := (Except.ok.inj derived).symm
  verify _ _ derived := (Except.ok.inj derived).symm

theorem finish_firstPartCommand (platform : Platform) (environment : Environment)
    (world : World) :
    (apduDispatcher platform environment firstPartCommand).finish world =
      (world.record (.received firstPartCommand)).record (.answered (.publicKey 0
        (chunkOf world.nvm.pk 0 pkChunkSize))) := by
  have request : firstPartCommand.request = .getPublicKeyChunk 0 := rfl
  rw [apduDispatcher, Program.finish_bind, finish_record, request, serve,
    helperSendResponsePkChunk, Program.finish_bind, Program.value_read,
    Program.finish_read, if_neg (show ¬ 0 ≥ pkChunks by decide),
    if_pos (show 0 < pkChunks - 1 by decide), Nat.zero_mul]
  rfl

/-- An address is asked for, then the first part of its key. -/
theorem key_parts_of_request_address :
    ∃ world : World, (∃ bytes journal, world.journal =
        .answered (.publicKey 0 bytes) :: journal) ∧
      Always (fun entry rest => entry.OfRequestedKey simplePlatform
        (fun _ => Vector.replicate 64 0) rest) world.journal := by
  have started : Reachable simplePlatform
      (AsksRequestedKey fun _ => Vector.replicate 64 0) World.started :=
    Machine.Reaches.performed .start
      (show (app simplePlatform).enabled .installed .start from rfl) trivial
  have answered := finish_address simplePlatform derivingEnvironment World.started
    (show (addressCommand 0).request = .getPublicKey (pathBytes 0) false from rfl)
    (readRequest_pathBytes _).1 rfl
  have addressed : Reachable simplePlatform _ ((apduDispatcher simplePlatform
      derivingEnvironment (addressCommand 0)).finish World.started) :=
    Reachable.command (addressCommand 0) started started_running
      ⟨derivingEnvironment_derives, fun index request => by cases request⟩
  have running : ((apduDispatcher simplePlatform derivingEnvironment
      (addressCommand 0)).finish World.started).running = true :=
    (running_command (addressCommand 0) World.started).trans started_running
  rw [answered] at addressed running
  have sent : Reachable simplePlatform _ ((apduDispatcher simplePlatform
      derivingEnvironment firstPartCommand).finish _) :=
    Reachable.command firstPartCommand addressed running
      ⟨derivingEnvironment_derives, fun _ _ _ => ⟨rfl, rfl⟩⟩
  rw [finish_firstPartCommand] at sent
  exact ⟨_, ⟨_, _, rfl⟩, key_parts_of_request simplePlatform _ _ sent⟩

/-- The first part of a key is asked for, and no address has been. -/
theorem not_key_parts_of_request :
    ∃ world : World, (app simplePlatform).after .installed
        [.start, .command firstPartCommand derivingEnvironment] = world ∧
      Reachable simplePlatform Machine.Anything world ∧
      derivingEnvironment.Derives (fun _ => Vector.replicate 64 0) ∧
      ¬ Always (fun entry rest => entry.OfRequestedKey simplePlatform
        (fun _ => Vector.replicate 64 0) rest) world.journal := by
  have finish := finish_firstPartCommand simplePlatform derivingEnvironment World.started
  have sent : Reachable simplePlatform Machine.Anything ((apduDispatcher simplePlatform
      derivingEnvironment firstPartCommand).finish World.started) :=
    Reachable.command firstPartCommand (reachable_started simplePlatform) started_running
      trivial
  have first : ((app simplePlatform).perform .start).finish .installed = World.started := rfl
  rw [finish] at sent
  refine ⟨_, ?_, sent, derivingEnvironment_derives, ?_⟩
  · rw [Machine.after_cons, first, Machine.after_cons, perform_command, Machine.after_nil,
      finish]
  · intro always
    obtain ⟨path, requested, _⟩ := always.1
    rw [World.record_journal, acceptedPath_received rfl, World.started,
      finish_appStart] at requested
    cases requested

end LedgerQrl.App
