import LedgerQrl.App.Session
import LedgerQrl.App.Journal

namespace LedgerQrl.App

open Foundation Mldsa87 Display Transaction

/-! # The paths that keys are derived for

A command whose path is refused leaves it in the context, with the type of the
request. Only accepted paths are used as long as nothing is reviewed or approved
after such a command. -/

/-- Whether the path of the last command that carried one since the start has been
accepted. -/
def pathAccepted (platform : Platform) (journal : List Entry) : Option Bool :=
  journal.findSome? fun
    | .received command => command.request.opens.map fun opened =>
        (readRequest platform opened.1 opened.2).2
    | .started => some false
    | _ => none

/-- A derivation is for a path of five elements that is valid. -/
def Entry.PathValid : Entry → Prop
  | .derives path _ => path.length = 5 ∧ isValidZondBip32Path path = true
  | _ => True

/-- The bytes that a final chunk completes come to a derivation. -/
def ReachesDerivation (platform : Platform) (world : World) (data : List UInt8) : Prop :=
  world.ctx.reqType = .confirmTransaction ∧
    world.ctx.rawTxLen + data.length ≤ maxTransactionLen ∧
    Permitted platform world.nvm (world.ctx.transaction ++ data)

/-- Nothing comes to a derivation for a review, and no transaction is approved,
when the last path has been refused. -/
def UsesAccepted (platform : Platform) (world : World) : Action → Prop
  | .command command _ => ∀ data, command.request = .signTx data 2 0 →
      ReachesDerivation platform world data →
        pathAccepted platform world.journal = some true
  | .choose confirm _ => confirm = true →
      (∃ pairs origin, world.review = some (.transaction pairs origin)) →
        pathAccepted platform world.journal = some true
  | _ => True

def World.PathKnown (platform : Platform) (world : World) : Prop :=
  world.running = true → pathAccepted platform world.journal = some true →
    world.ctx.path.length = 5 ∧ isValidZondBip32Path world.ctx.path = true

section Paths

variable {platform : Platform} {environment : Environment} {world final : World}

theorem length_of_valid {path : List UInt32} (valid : isValidZondBip32Path path = true) :
    path.length = 5 := by
  rw [isValidZondBip32Path.eq_def] at valid
  split at valid
  · rfl
  · cases valid

theorem readRequest_valid {reqType : RequestType} {data : List UInt8}
    (accepted : (readRequest platform reqType data).2 = true) :
    (readRequest platform reqType data).1.path.length = 5 ∧
      isValidZondBip32Path (readRequest platform reqType data).1.path = true := by
  rw [readRequest] at accepted ⊢
  dsimp only at accepted ⊢
  split at accepted
  · rename_i read
    rw [if_pos read]
    have valid := (Bool.and_eq_true_iff.mp accepted).2
    exact ⟨length_of_valid valid, valid⟩
  · cases accepted

theorem pathAccepted_opened {command : Command} {reqType : RequestType} {data : List UInt8}
    (opens : command.request.opens = some (reqType, data)) (journal : List Entry) :
    pathAccepted platform (.received command :: journal) =
      some (readRequest platform reqType data).2 := by
  simp [pathAccepted, opens]

theorem pathAccepted_received {command : Command} (opens : command.request.opens = none)
    (journal : List Entry) :
    pathAccepted platform (.received command :: journal) =
      pathAccepted platform journal := by
  simp [pathAccepted, opens]

theorem digested_path (world : World) (data : List UInt8) :
    (world.digested platform data).ctx.path = world.ctx.path := by
  simp only [GlobalCtx.path, World.digested, GlobalCtx.appended]

theorem addressed_path (rawSeed : Vector UInt8 64) (world : World) :
    (world.addressed platform rawSeed).ctx.path = world.ctx.path := by
  simp only [GlobalCtx.path, World.addressed]

theorem World.PathKnown.congr {other : World} (known : world.PathKnown platform)
    (running : other.running = world.running) (path : other.ctx.path = world.ctx.path)
    (accepted : pathAccepted platform other.journal = pathAccepted platform world.journal) :
    other.PathKnown platform := by
  rw [World.PathKnown, running, path, accepted]
  exact known

abbrev PathsKept (platform : Platform) (world : World) : Prop :=
  world.PathKnown platform ∧ Always (fun entry _ => entry.PathValid) world.journal

theorem pathKnown_opened (world : World) {command : Command} {reqType : RequestType}
    {data : List UInt8}
    (opens : command.request.opens = some (reqType, data))
    (path : final.ctx.path = (readRequest platform reqType data).1.path)
    (accepted : pathAccepted platform final.journal =
      pathAccepted platform (.received command :: world.journal)) :
    final.PathKnown platform := by
  intro _ valid
  rw [accepted, pathAccepted_opened opens] at valid
  rw [path]
  exact readRequest_valid (Option.some.inj valid)

theorem Served.pathsKept {command : Command} (kept : PathsKept platform world)
    (running : world.running = true)
    (uses : UsesAccepted platform world (.command command environment))
    (served : Served platform environment (world.record (.received command))
      command.request final) : PathsKept platform final := by
  obtain ⟨known, always⟩ := kept
  have unopened : command.request.opens = none →
      (world.record (.received command)).PathKnown platform := fun opens =>
    known.congr rfl rfl (pathAccepted_received opens _)
  have valid : ∀ data tx, command.request = .signTx data 2 0 →
      world.ctx.reqType = .confirmTransaction →
      world.ctx.rawTxLen + data.length ≤ maxTransactionLen →
      decodeLedgerTx platform.sizeWidth (world.ctx.appended data).transaction .zero =
        .ok tx →
      ((tx.hasData || tx.hasAccessList) = true → world.nvm.enableBlindSigning ≠ 0) →
      world.ctx.path.length = 5 ∧ isValidZondBip32Path world.ctx.path = true := by
    intro data tx request transaction fits decoded policy
    rw [transaction_appended fits] at decoded
    exact known running (uses data request ⟨transaction, fits, tx, decoded, policy⟩)
  generalize requested : command.request = request at served unopened
  cases served with
  | turnedAway turned =>
      exact ⟨(unopened turned.opens).congr rfl rfl rfl, trivial, trivial, always⟩
  | version => exact ⟨(unopened rfl).congr rfl rfl rfl, trivial, trivial, always⟩
  | appName => exact ⟨(unopened rfl).congr rfl rfl rfl, trivial, trivial, always⟩
  | publicKey _ => exact ⟨(unopened rfl).congr rfl rfl rfl, trivial, trivial, always⟩
  | pathRefused opens _ =>
      exact ⟨pathKnown_opened world (requested ▸ opens) rfl rfl, trivial, trivial,
        always⟩
  | sessionOpened _ =>
      exact ⟨pathKnown_opened world (requested ▸ rfl) rfl rfl, trivial, trivial,
        always⟩
  | addressUnderivable accepted _ =>
      exact ⟨pathKnown_opened world (requested ▸ rfl) rfl rfl, trivial,
        readRequest_valid accepted, trivial, always⟩
  | addressAnswered accepted _ =>
      exact ⟨pathKnown_opened world (requested ▸ rfl) rfl rfl, trivial,
        readRequest_valid accepted, trivial, always⟩
  | addressShown accepted _ =>
      exact ⟨pathKnown_opened world (requested ▸ rfl) rfl rfl, trivial,
        readRequest_valid accepted, trivial, always⟩
  | chunkTaken _ _ =>
      exact ⟨(unopened rfl).congr (by simp) (by simp [appended_path])
        (by simp [pathAccepted]), by simpa [Entry.PathValid] using always⟩
  | undecodable _ _ _ =>
      exact ⟨(unopened rfl).congr (by simp) (by simp [digested_path])
        (by simp [pathAccepted]), by simpa [Entry.PathValid] using always⟩
  | forbidden _ _ _ _ _ =>
      exact ⟨(unopened rfl).congr (by simp) (by simp [examined_path])
        (by simp [pathAccepted]), by simpa [Entry.PathValid] using always⟩
  | underivable transaction fits decoded policy _ =>
      have derived := valid _ _ requested transaction fits decoded policy
      exact ⟨(unopened rfl).congr (by simp) (by simp [examined_path])
        (by simp [pathAccepted]), by
          simpa [Entry.PathValid, examined_path, derived] using always⟩
  | reviewShown transaction fits decoded policy _ =>
      have derived := valid _ _ requested transaction fits decoded policy
      exact ⟨(unopened rfl).congr (by simp)
        (by rw [World.shown_ctx, addressed_path, examined_path])
        (by simp [pathAccepted]), by
          simpa [Entry.PathValid, examined_path, derived] using always⟩
  | signature _ _ _ _ => exact ⟨(unopened rfl).congr rfl rfl rfl, trivial, trivial, always⟩
  | lastSignature _ _ => exact ⟨(unopened rfl).congr rfl rfl rfl, trivial, trivial, always⟩

theorem Chosen.path {review : Review} {confirm : Bool}
    (chosen : Chosen platform environment world review confirm final) :
    final.ctx.path = world.ctx.path := by
  obtain ⟨state, ctx⟩ := chosen.ctx
  rw [ctx]
  simp only [GlobalCtx.path]

theorem pathAccepted_chosen {review : Review} {confirm : Bool}
    (chosen : Chosen platform environment world review confirm final) :
    pathAccepted platform final.journal = pathAccepted platform world.journal := by
  cases chosen with
  | addressConfirmed => rfl
  | addressRejected => rfl
  | transactionRejected => rfl
  | signingFailed writes _ => exact findSome?_replicate_append rfl writes
  | verificationFailed writes _ _ => exact findSome?_replicate_append rfl writes
  | released writes _ _ => exact findSome?_replicate_append rfl writes

theorem Chosen.pathsKept {review : Review} {confirm : Bool}
    (kept : PathsKept platform world) (running : world.running = true)
    (shown : world.review = some review)
    (uses : UsesAccepted platform world (.choose confirm environment))
    (chosen : Chosen platform environment (world.answering review confirm) review confirm
      final) : PathsKept platform final := by
  obtain ⟨known, always⟩ := kept
  have valid : ∀ pairs origin, review = .transaction pairs origin → confirm = true →
      world.ctx.path.length = 5 ∧ isValidZondBip32Path world.ctx.path = true :=
    fun pairs origin equal confirmed =>
      known running (uses confirmed ⟨pairs, origin, equal ▸ shown⟩)
  have written : ∀ (writes : ℕ) (journal : List Entry),
      Always (fun entry _ => entry.PathValid) journal →
        Always (fun entry _ => entry.PathValid)
          (List.replicate writes .sigWritten ++ journal) :=
    fun writes _ => (always_replicate_append (fun _ => trivial) writes).mpr
  have path : final.ctx.path = world.ctx.path := chosen.path
  have same : final.running = world.running := chosen.running.1
  have silent : pathAccepted platform final.journal =
      pathAccepted platform (world.answering review confirm).journal :=
    pathAccepted_chosen chosen
  refine ⟨known.congr same path silent, ?_⟩
  cases chosen with
  | addressConfirmed => exact ⟨trivial, trivial, always⟩
  | addressRejected => exact ⟨trivial, trivial, always⟩
  | transactionRejected => exact ⟨trivial, trivial, always⟩
  | signingFailed writes _ =>
      rw [unsigned_journal]
      exact ⟨trivial, written writes _ ⟨valid _ _ rfl rfl, trivial, trivial, always⟩⟩
  | verificationFailed writes _ _ =>
      rw [unsigned_journal]
      exact ⟨trivial, trivial, valid _ _ rfl rfl,
        written writes _ ⟨valid _ _ rfl rfl, trivial, trivial, always⟩⟩
  | released writes _ _ =>
      rw [World.released_journal]
      exact ⟨trivial, trivial, valid _ _ rfl rfl,
        written writes _ ⟨valid _ _ rfl rfl, trivial, trivial, always⟩⟩

/-- In runs that keep to the condition, keys are derived for valid paths only. -/
theorem derives_valid_paths (platform : Platform) (world : World)
    (reachable : Reachable platform (UsesAccepted platform) world) :
    Always (fun entry _ => entry.PathValid) world.journal := by
  have kept : PathsKept platform world := by
    refine Reachable.always ?_ ?_ ?_ ?_ ?_ reachable
    · intro world off running
      rw [off] at running
      cases running
    · intro world _ always
      rw [finish_appStart]
      refine ⟨fun _ accepted => ?_, trivial, always⟩
      cases accepted
    · intro world final command environment known always running uses served
      exact served.pathsKept ⟨known, always⟩ running uses
    · intro world final review confirm environment known always running shown uses chosen
      exact chosen.pathsKept ⟨known, always⟩ running shown uses
    · intro world nvm known _ _ _
      exact known.congr rfl rfl rfl
  exact kept.2

end Paths

/-! ## A session of each kind -/

/-- A run to the review of a transaction keeps to the condition. -/
theorem derives_valid_paths_reviewed :
    ∃ tx, Always (fun entry _ => entry.PathValid)
      ((World.started.inSession 0).reviewed simplePlatform wholeCommand emptyTransaction
        (Vector.replicate 64 0) tx).journal := by
  obtain ⟨tx, _, _, finish⟩ := finish_wholeCommand 0 World.started
  have started : Reachable simplePlatform (UsesAccepted simplePlatform) World.started :=
    Machine.Reaches.performed .start
      (show (app simplePlatform).enabled .installed .start from rfl) trivial
  have opened : Reachable simplePlatform (UsesAccepted simplePlatform)
      (World.started.inSession 0) := by
    rw [← finish_openingCommand derivingEnvironment (.inl rfl) World.started]
    refine Reachable.command _ started started_running ?_
    intro data request
    cases request
  have running : (World.started.inSession 0).running = true := started_running
  have accepted : UsesAccepted simplePlatform (World.started.inSession 0)
    (.command wholeCommand derivingEnvironment) := fun _ _ _ => rfl
  have reviewed := Reachable.command wholeCommand opened running accepted
  rw [finish] at reviewed
  exact ⟨tx, derives_valid_paths simplePlatform _ reviewed⟩

/-- `SIGN_TX` with `P1 = 0` and a path that is cut off. -/
def truncatedCommand : Command := commandOf 6 0 0 [1]

def World.refusedPath : World :=
  ((World.started.record (.received truncatedCommand)).opened simplePlatform
    .confirmTransaction [1]).record (.answered (.status .wrongDataLength))

/-- The path is refused, and the transaction is reviewed under it. -/
theorem not_derives_valid_paths :
    ∃ tx, (app simplePlatform).after .installed
          [.start, .command truncatedCommand derivingEnvironment,
            .command wholeCommand derivingEnvironment] =
        World.refusedPath.reviewed simplePlatform wholeCommand emptyTransaction
          (Vector.replicate 64 0) tx ∧
      Reachable simplePlatform Machine.Anything
        (World.refusedPath.reviewed simplePlatform wholeCommand emptyTransaction
          (Vector.replicate 64 0) tx) ∧
      ¬ Always (fun entry _ => entry.PathValid)
        (World.refusedPath.reviewed simplePlatform wholeCommand emptyTransaction
          (Vector.replicate 64 0) tx).journal := by
  have refused : (apduDispatcher simplePlatform derivingEnvironment truncatedCommand).finish
      World.started = World.refusedPath :=
    finish_path_refused simplePlatform derivingEnvironment
      (show truncatedCommand.request.opens = some (.confirmTransaction, [1]) from rfl)
      (by decide)
  have context : World.refusedPath.ctx =
      (readRequest simplePlatform .confirmTransaction [1]).1 := rfl
  have cleared : World.refusedPath.ctx.rawTxLen = 0 ∧
      World.refusedPath.ctx.transaction = [] := by
    rw [context]
    exact readRequest_cleared _ _
  obtain ⟨tx, _, _, finish⟩ := finish_wholeCommand_empty
    (context ▸ readRequest_reqType _ _) cleared.1 cleared.2
  have reachable := Reachable.commands [(truncatedCommand, derivingEnvironment),
    (wholeCommand, derivingEnvironment)] (reachable_started simplePlatform) started_running
  rw [List.map_cons, Machine.after_cons, perform_command, refused, List.map_cons,
    Machine.after_cons, perform_command, finish] at reachable
  refine ⟨tx, ?_, reachable.1, fun always => ?_⟩
  · have first : ((app simplePlatform).perform .start).finish .installed = World.started :=
      rfl
    rw [Machine.after_cons, first, Machine.after_cons, perform_command, refused,
      Machine.after_cons, perform_command, Machine.after_nil, finish]
  · have short : World.refusedPath.ctx.path = [0] := by
      rw [context]
      decide
    have derived := always.2.1.1
    rw [examined_path, World.record_ctx, short] at derived
    exact absurd derived (by decide)

end LedgerQrl.App
