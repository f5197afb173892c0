import LedgerQrl.App.KeyChunks
import LedgerQrl.App.Release
import LedgerQrl.Mldsa87.Verification

namespace LedgerQrl.App

open Foundation Mldsa87 Display Transaction

/-! # A signature is retrieved in its session

The parts of a signature are sent as long as a flag in the storage is set, which
neither a new session nor a restart clears. They belong to the session as long as
they are asked for before either, and the approval was for its transaction. -/

/-! ## What the journal says of a release -/

/-- The entries before the first part of the signature, as long as no command has
cleared the context since, the app has not started again, and no review of a
transaction has been answered. -/
def releasedAfter : List Entry → Option (List Entry)
  | [] => none
  | .answered (.signature 0 _) :: rest => some rest
  | .started :: _ => none
  | .chose (.transaction ..) _ :: _ => none
  | .received command :: rest =>
      if command.request.opens.isSome then none else releasedAfter rest
  | _ :: rest => releasedAfter rest

/-- Whether the review of a transaction that was answered last was approved, and
settled at that time. -/
def approvedSettled : List Entry → Bool
  | [] => false
  | .chose (.transaction ..) confirm :: rest => confirm && settled rest
  | _ :: rest => approvedSettled rest

/-- Since the last command that cleared the context, and since the start, the user has
approved a transaction that was streamed in this session, and the signature has been
computed for its digest, verified with the key of the path, and released. -/
def ReleasedInSession (platform : Platform) (sig : Vector UInt8 4627)
    (journal : List Entry) : Prop :=
  ∃ rawSeed between origin pairs before shown,
    releasedAfter journal = some (.verified sig true :: .derives origin.path (.ok rawSeed) ::
      (between ++ .signs origin.path (keccak256 platform.permutation origin.transaction) ::
        .chose (.transaction pairs origin) true :: before)) ∧
    (∀ entry ∈ between, entry = .sigWritten ∨ ∃ outcome, entry = .derives origin.path outcome) ∧
    settled before = true ∧
    underReview before = some (.transaction pairs origin, shown) ∧
    (Review.transaction pairs origin).ShownAfter platform shown ∧
    Spec.Verifies platform.shake (keyOf platform rawSeed).toList sig.toList
      (keccak256 platform.permutation origin.transaction).toList

/-- A request for a part is answered with a part of the signature released in the
session, or refused. -/
def Entry.BoundToSession (platform : Platform) : Entry → List Entry → Prop
  | .answered response, .received command :: rest => ∀ data p1 p2,
      command.request = .signTx data p1 p2 → AsksSignature p1 p2 →
        response = .status .badState ∨ ∃ sig, ReleasedInSession platform sig rest ∧
          response = .signature p2.toNat (signaturePart sig p2.toNat)
  | _, _ => True

/-- While the flag is set, a part is asked for only after a release in the session, from
an approval that was settled. -/
def AsksInSession (world : World) : Action → Prop
  | .command command _ => ∀ data p1 p2, command.request = .signTx data p1 p2 →
      AsksSignature p1 p2 → world.ctx.reqType = .confirmTransaction →
      world.nvm.isSendingSignature ≠ 0 →
        ∃ rest, releasedAfter world.journal = some rest ∧ approvedSettled rest = true
  | _ => True

/-! ## What an app that runs knows of a release -/

structure World.Binding (platform : Platform) (world : World) : Prop where
  reviewing : world.Reviewing platform
  bound : ∀ rest, releasedAfter world.journal = some rest → approvedSettled rest = true →
    ReleasedInSession platform world.nvm.sig world.journal

def World.KnowsRelease (platform : Platform) (world : World) : Prop :=
  world.running = true → world.Binding platform

section Binding

variable {platform : Platform} {environment : Environment} {world final : World}

theorem releasedAfter_opened {command : Command} {opened : RequestType × List UInt8}
    (opens : command.request.opens = some opened) (journal : List Entry) :
    releasedAfter (.received command :: journal) = none := by
  rw [releasedAfter, opens]
  rfl

theorem releasedAfter_received {command : Command} (opens : command.request.opens = none)
    (journal : List Entry) :
    releasedAfter (.received command :: journal) = releasedAfter journal := by
  rw [releasedAfter, opens]
  rfl

theorem releasedAfter_sigWritten (writes : ℕ) (journal : List Entry) :
    releasedAfter (List.replicate writes .sigWritten ++ journal) = releasedAfter journal := by
  induction writes with
  | zero => rfl
  | succ writes induction => exact induction

theorem approvedSettled_sigWritten (writes : ℕ) (journal : List Entry) :
    approvedSettled (List.replicate writes .sigWritten ++ journal) =
      approvedSettled journal := by
  induction writes with
  | zero => rfl
  | succ writes induction => exact induction

theorem releasedAfter_part {index : ℕ} (later : index ≠ 0) (bytes : List UInt8)
    (journal : List Entry) :
    releasedAfter (.answered (.signature index bytes) :: journal) =
      releasedAfter journal := by
  cases index with
  | zero => exact absurd rfl later
  | succ index => rfl

theorem World.Binding.congr {other : World} (binding : world.Binding platform)
    (reviewing : other.Reviewing platform) (sig : other.nvm.sig = world.nvm.sig)
    (released : releasedAfter other.journal = releasedAfter world.journal) :
    other.Binding platform where
  reviewing := reviewing
  bound rest after approved := by
    obtain ⟨rawSeed, between, origin, pairs, before, shown, decomposed, facts⟩ :=
      binding.bound rest (released.symm.trans after) approved
    rw [sig]
    exact ⟨rawSeed, between, origin, pairs, before, shown, released.trans decomposed, facts⟩

theorem World.Binding.of_none (reviewing : final.Reviewing platform)
    (released : releasedAfter final.journal = none) : final.Binding platform where
  reviewing := reviewing
  bound rest after := by
    rw [released] at after
    cases after

theorem Served.binding {command : Command} (binding : world.Binding platform)
    (served : Served platform environment (world.record (.received command))
      command.request final) : final.Binding platform := by
  have reviewing : final.Reviewing platform := served.reviewing binding.reviewing
  have received : command.request.opens = none →
      releasedAfter (.received command :: world.journal) = releasedAfter world.journal :=
    fun opens => releasedAfter_received opens _
  have opened : ∀ opened, command.request.opens = some opened →
      releasedAfter (.received command :: world.journal) = none :=
    fun opened opens => releasedAfter_opened opens _
  generalize command.request = request at served received opened
  cases served with
  | turnedAway turned => exact binding.congr reviewing rfl (received turned.opens)
  | version => exact binding.congr reviewing rfl (received rfl)
  | appName => exact binding.congr reviewing rfl (received rfl)
  | publicKey _ => exact binding.congr reviewing rfl (received rfl)
  | pathRefused opens _ => exact .of_none reviewing (opened _ opens)
  | sessionOpened _ => exact .of_none reviewing (opened _ rfl)
  | addressUnderivable _ _ => exact .of_none reviewing (opened _ rfl)
  | addressAnswered _ _ => exact .of_none reviewing (opened _ rfl)
  | addressShown _ _ => exact .of_none reviewing (opened _ rfl)
  | chunkTaken _ _ =>
      exact binding.congr reviewing (by simp) (by simpa [releasedAfter] using received rfl)
  | undecodable _ _ _ =>
      exact binding.congr reviewing (by simp) (by simpa [releasedAfter] using received rfl)
  | forbidden _ _ _ _ _ =>
      exact binding.congr reviewing (by simp) (by simpa [releasedAfter] using received rfl)
  | underivable _ _ _ _ _ =>
      exact binding.congr reviewing (by simp) (by simpa [releasedAfter] using received rfl)
  | reviewShown _ _ _ _ _ =>
      exact binding.congr reviewing (by simp) (by simpa [releasedAfter] using received rfl)
  | signature positive _ _ _ =>
      exact binding.congr reviewing rfl ((releasedAfter_part
        (Nat.ne_of_gt (UInt8.lt_iff_toNat_lt.mp positive)) _ _).trans (received rfl))
  | lastSignature _ _ =>
      exact binding.congr reviewing rfl
        ((releasedAfter_part (by decide) _ _).trans (received rfl))

/-- A request for a part is only ever refused with the bad state. -/
theorem TurnedAway.badState_of_asks {data : List UInt8} {p1 p2 : UInt8}
    {status : StatusWord} (turned : TurnedAway world (.signTx data p1 p2) status)
    (asks : AsksSignature p1 p2) : status = .badState := by
  cases turned with
  | badState _ _ => rfl
  | tooLong carries _ _ => exact absurd asks (not_asksSignature carries)
  | notSending _ _ _ => rfl
  | wrongP1P2 _ _ other => exact absurd asks other

theorem Served.boundToSession {command : Command} (binding : world.Binding platform)
    (always : Always (fun entry rest => entry.BoundToSession platform rest) world.journal)
    (asks : AsksInSession world (.command command environment))
    (served : Served platform environment (world.record (.received command))
      command.request final) :
    Always (fun entry rest => entry.BoundToSession platform rest) final.journal := by
  have silent : (∀ data p1 p2, command.request = .signTx data p1 p2 →
      ¬ AsksSignature p1 p2) → ∀ response,
        (Entry.answered response).BoundToSession platform
          (.received command :: world.journal) :=
    fun other response data p1 p2 request asked => absurd asked (other data p1 p2 request)
  have released : ∀ data p2, command.request = .signTx data 2 p2 → 0 < p2 ∧ p2 < 18 →
      world.ctx.reqType = .confirmTransaction → world.nvm.isSendingSignature ≠ 0 →
        (Entry.answered (.signature p2.toNat (signaturePart world.nvm.sig
          p2.toNat))).BoundToSession platform (.received command :: world.journal) := by
    intro data p2 request range transaction sending
    obtain ⟨rest, after, approved⟩ := asks data 2 p2 request ⟨rfl, range⟩ transaction sending
    intro other p1 part same _
    cases request.symm.trans same
    exact .inr ⟨_, binding.bound rest after approved, rfl⟩
  have opening : ∀ opened, command.request.opens = some opened → ∀ data p1 p2,
      command.request = .signTx data p1 p2 → ¬ AsksSignature p1 p2 := by
    intro opened opens data p1 p2 request asked
    rw [request, opens_of_asksSignature asked] at opens
    cases opens
  generalize requested : command.request = request at served silent released opening
  cases served with
  | @turnedAway _ status turned =>
      refine ⟨fun data p1 p2 asking asked => .inl ?_, trivial, always⟩
      rw [requested.symm.trans asking] at turned
      exact congrArg _ (turned.badState_of_asks asked)
  | version => exact ⟨silent (fun _ _ _ request => by cases request) _, trivial, always⟩
  | appName => exact ⟨silent (fun _ _ _ request => by cases request) _, trivial, always⟩
  | publicKey _ => exact ⟨silent (fun _ _ _ request => by cases request) _, trivial, always⟩
  | pathRefused opens _ => exact ⟨silent (opening _ opens) _, trivial, always⟩
  | sessionOpened _ => exact ⟨silent (opening _ rfl) _, trivial, always⟩
  | addressUnderivable _ _ => exact ⟨trivial, trivial, trivial, always⟩
  | addressAnswered _ _ => exact ⟨trivial, trivial, trivial, always⟩
  | addressShown _ _ => exact ⟨trivial, trivial, trivial, always⟩
  | chunkTaken _ _ => simpa [Entry.BoundToSession] using always
  | undecodable _ _ _ => simpa [Entry.BoundToSession] using always
  | forbidden _ _ _ _ _ => simpa [Entry.BoundToSession] using always
  | underivable _ _ _ _ _ => simpa [Entry.BoundToSession] using always
  | reviewShown _ _ _ _ _ => simpa [Entry.BoundToSession] using always
  | @signature data p2 positive small transaction sending =>
      exact ⟨released data p2 rfl ⟨positive, UInt8.lt_trans small (by decide)⟩ transaction
        sending, trivial, always⟩
  | @lastSignature data transaction sending =>
      have answer : (Entry.answered (.signature 17 (signaturePart world.nvm.sig
          17))).BoundToSession platform (.received command :: world.journal) :=
        released data 17 rfl (by decide) transaction sending
      rw [← chunkOf_last] at answer
      exact ⟨answer, trivial, always⟩

theorem released_sig (world : World) : world.released.nvm.sig = world.nvm.sig := rfl

/-- A release of what has been approved and verified. -/
theorem released_binding (world : World) {pairs : List Pair} {origin : Origin}
    {shown : List Entry} {sig : Vector UInt8 4627} (writes : ℕ)
    (stored : sig = (signedNvm platform environment world).sig)
    (latest : underReview world.journal = some (.transaction pairs origin, shown))
    (made : (Review.transaction pairs origin).ShownAfter platform shown)
    (path : world.ctx.path = origin.path)
    (digest : world.ctx.mHash = keccak256 platform.permutation origin.transaction)
    (still : settled world.journal = true)
    (verified : (verification platform environment world).value
      (signedNvm platform environment world) = (.none, true))
    (released : releasedAfter final.journal = some
      (.verified (signedNvm platform environment world).sig true ::
        .derives world.ctx.path (environment.verifySeed world.ctx.path) ::
          (List.replicate writes .sigWritten ++
            .derives world.ctx.path (environment.signSeed world.ctx.path) ::
              .signs world.ctx.path world.ctx.mHash ::
                .chose (.transaction pairs origin) true :: world.journal))) :
    ReleasedInSession platform sig final.journal := by
  rw [stored]
  cases outcome : environment.verifySeed world.ctx.path with
  | error error => exact absurd verified (verifies_underivable platform outcome)
  | ok rawSeed =>
      have equation := (verification_derived platform outcome).mp verified
      rw [digest, keyOf] at equation
      rw [outcome, path, digest] at released
      refine ⟨rawSeed, List.replicate writes .sigWritten ++
        [.derives origin.path (environment.signSeed origin.path)], origin, pairs,
        world.journal, shown, ?_, ?_, still, latest, made, equation⟩
      · rw [released, List.append_assoc, List.singleton_append]
      · intro entry member
        rcases List.mem_append.mp member with write | derived
        · exact .inl (List.eq_of_mem_replicate write)
        · exact .inr ⟨_, List.mem_singleton.mp derived⟩

theorem Chosen.binding {review : Review} {confirm : Bool} (binding : world.Binding platform)
    (shown : world.review = some review)
    (chosen : Chosen platform environment (world.answering review confirm) review confirm
      final) : final.Binding platform := by
  have reviewing : final.Reviewing platform := chosen.reviewing binding.reviewing
  cases chosen with
  | addressConfirmed => exact binding.congr reviewing rfl rfl
  | addressRejected => exact binding.congr reviewing rfl rfl
  | transactionRejected => exact .of_none reviewing rfl
  | signingFailed writes _ =>
      exact .of_none reviewing (releasedAfter_sigWritten writes _)
  | verificationFailed writes _ _ =>
      exact .of_none reviewing (releasedAfter_sigWritten writes _)
  | @released pairs origin writes _ verified =>
      refine ⟨reviewing, fun rest after approved => ?_⟩
      have kept := sig_after_verification platform environment
        (world.answering (.transaction pairs origin) true)
      have tail : .verified (signedNvm platform environment world).sig true ::
          .derives world.ctx.path (environment.verifySeed world.ctx.path) ::
            (List.replicate writes .sigWritten ++
              .derives world.ctx.path (environment.signSeed world.ctx.path) ::
                .signs world.ctx.path world.ctx.mHash ::
                  .chose (.transaction pairs origin) true :: world.journal) = rest := by
        rw [World.released_journal] at after
        exact Option.some.inj after
      rw [← tail] at approved after
      have still : settled world.journal = true :=
        (approvedSettled_sigWritten writes _).symm.trans approved
      obtain ⟨before, latest, made, path, digest⟩ :=
        binding.reviewing.holds _ shown still
      exact released_binding world writes ((released_sig _).trans kept) latest made path digest
        still verified after

theorem Chosen.boundToSession {review : Review} {confirm : Bool}
    (always : Always (fun entry rest => entry.BoundToSession platform rest) world.journal)
    (chosen : Chosen platform environment (world.answering review confirm) review confirm
      final) :
    Always (fun entry rest => entry.BoundToSession platform rest) final.journal := by
  have written : ∀ (writes : ℕ) {journal : List Entry},
      Always (fun entry rest => entry.BoundToSession platform rest) journal →
        Always (fun entry rest => entry.BoundToSession platform rest)
          (List.replicate writes .sigWritten ++ journal) :=
    fun writes _ => (always_replicate_append (fun _ => trivial) writes).mpr
  cases chosen with
  | addressConfirmed => exact ⟨trivial, trivial, always⟩
  | addressRejected => exact ⟨trivial, trivial, always⟩
  | transactionRejected => exact ⟨trivial, trivial, always⟩
  | signingFailed writes _ =>
      rw [unsigned_journal]
      refine ⟨?_, written writes ⟨trivial, trivial, trivial, always⟩⟩
      cases writes with
      | zero => exact trivial
      | succ writes => exact trivial
  | verificationFailed writes _ _ =>
      rw [unsigned_journal]
      exact ⟨trivial, trivial, trivial, written writes ⟨trivial, trivial, trivial, always⟩⟩
  | released writes _ _ =>
      rw [World.released_journal]
      exact ⟨trivial, trivial, trivial, written writes ⟨trivial, trivial, trivial, always⟩⟩

/-- In runs that keep to the condition, what is retrieved was signed and released in its
session. -/
theorem retrieved_in_session (platform : Platform) (world : World)
    (reachable : Reachable platform AsksInSession world) :
    Always (fun entry rest => entry.BoundToSession platform rest) world.journal := by
  have kept : world.KnowsRelease platform ∧
      Always (fun entry rest => entry.BoundToSession platform rest) world.journal := by
    refine Reachable.always ?_ ?_ ?_ ?_ ?_ reachable
    · intro world off running
      rw [off] at running
      cases running
    · intro world _ always
      rw [finish_appStart]
      refine ⟨fun _ => .of_none ⟨fun transaction => ?_, fun transaction => ?_,
        fun review _ still => ?_⟩ rfl, trivial, always⟩
      · cases transaction
      · cases transaction
      · cases still
    · intro world final command environment known always running asks served
      exact ⟨fun _ => served.binding (known running),
        served.boundToSession (known running) always asks⟩
    · intro world final review confirm environment known always running shown _ chosen
      exact ⟨fun _ => chosen.binding (known running) shown, chosen.boundToSession always⟩
    · intro world nvm known sig _ _ running
      have before := known running
      exact before.congr ⟨before.reviewing.assembled, before.reviewing.opened,
        before.reviewing.holds⟩ sig rfl
  exact kept.2

end Binding

/-! ## A retrieval of each kind -/

/-- A transaction is signed, and a part of the signature is fetched. -/
theorem retrieved_in_session_fetched :
    ∃ world : World, (∃ bytes journal, world.journal =
        .answered (.signature 1 bytes) :: journal) ∧
      Always (fun entry rest => entry.BoundToSession simplePlatform rest) world.journal := by
  have started : Reachable simplePlatform AsksInSession World.started :=
    Machine.Reaches.performed .start
      (show (app simplePlatform).enabled .installed .start from rfl) trivial
  have opening : ∀ world index,
      AsksInSession world (.command (openingCommand index) derivingEnvironment) := by
    intro world index data p1 p2 request asks
    cases request
    have more : (0 : UInt8) = 2 := asks.1
    exact absurd more (by decide)
  have whole : ∀ world, AsksInSession world (.command wholeCommand derivingEnvironment) := by
    intro world data p1 p2 request asks
    cases request
    exact absurd asks.2.1 (by decide)
  obtain ⟨final, _, released, running, transaction, sending, _, _, _, _, _, _, writes, _, _,
      _, still, journal⟩ :=
    reachable_released started started_running (opening _ 0) (whole _) fun _ => trivial
  have sent : Reachable simplePlatform AsksInSession ((apduDispatcher simplePlatform
      derivingEnvironment secondPartCommand).finish final) := by
    refine Reachable.command secondPartCommand released running fun _ _ _ _ _ _ _ => ?_
    rw [journal]
    exact ⟨_, rfl, (approvedSettled_sigWritten writes _).trans still⟩
  exact ⟨_, ⟨_, _, head_requested simplePlatform derivingEnvironment
    (show secondPartCommand.request = .signTx [] 2 1 from rfl) (by decide) (by decide)
    transaction sending⟩, retrieved_in_session simplePlatform _ sent⟩

/-- A transaction is signed, a session is opened, and a part is fetched in it. -/
theorem not_retrieved_in_session :
    ∃ world : World, (app simplePlatform).after World.started
        (toReview 0 ++ [.choose true derivingEnvironment] ++
          [.command (openingCommand 0) derivingEnvironment,
            .command secondPartCommand derivingEnvironment]) = world ∧
      Reachable simplePlatform Machine.Anything world ∧
      ¬ Always (fun entry rest => entry.BoundToSession simplePlatform rest)
        world.journal := by
  obtain ⟨first, after, released, active, _, sending, _⟩ :=
    reachable_released (reachable_started simplePlatform) started_running trivial trivial
      fun _ => trivial
  have opened : Reachable simplePlatform Machine.Anything (first.inSession 0) := by
    rw [← finish_openingCommand derivingEnvironment (.inl rfl)]
    exact Reachable.command _ released active trivial
  have running : (first.inSession 0).running = true := active
  have still : (first.inSession 0).nvm.isSendingSignature ≠ 0 := sending
  have journal := head_requested simplePlatform derivingEnvironment
    (show secondPartCommand.request = .signTx [] 2 1 from rfl) (by decide) (by decide)
    (inSession_transaction 0 first).1 still
  have sent : Reachable simplePlatform Machine.Anything ((apduDispatcher simplePlatform
      derivingEnvironment secondPartCommand).finish (first.inSession 0)) :=
    Reachable.command secondPartCommand opened running trivial
  refine ⟨_, ?_, sent, fun always => ?_⟩
  · rw [Machine.after_append, after, Machine.after_cons, perform_command,
      finish_openingCommand _ (.inl rfl), Machine.after_cons, perform_command,
      Machine.after_nil]
  · rw [journal] at always
    have none : releasedAfter (first.inSession 0).journal = none := rfl
    rcases always.1 [] 2 1 rfl ⟨rfl, by decide, by decide⟩ with refused | ⟨sig, bound, _⟩
    · cases refused
    · obtain ⟨_, _, _, _, _, _, found, _⟩ := bound
      rw [none] at found
      cases found

end LedgerQrl.App
