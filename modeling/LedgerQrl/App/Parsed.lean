import LedgerQrl.App.Session
import LedgerQrl.Foundation.History

namespace LedgerQrl.App

open Foundation Mldsa87 Display Transaction

/-! # What the parsed state means

The state is set before the transaction is decoded and before the policy is
checked, and no error takes it back. It means what it says as long as no final
chunk completes a transaction that is refused and nothing is appended to one that
has been parsed. -/

/-- The setting where the policy has last been checked. -/
def lastChecked (journal : List Entry) : Option Bool :=
  journal.findSome? fun
    | .checked blindSigning => some blindSigning
    | _ => none

/-- In the parsed state the buffer holds a transaction that is decoded, with its
digest, and that the policy permitted when it was checked. -/
def World.ParsedIsPermitted (platform : Platform) (world : World) : Prop :=
  world.ctx.state = .parsed →
    ∃ tx, decodeLedgerTx platform.sizeWidth world.ctx.transaction .zero = .ok tx ∧
      world.ctx.mHash = keccak256 platform.permutation world.ctx.transaction ∧
      ((tx.hasData || tx.hasAccessList) = true → lastChecked world.journal = some true)

/-- Chunks that fit append nothing to a transaction that has been parsed, and the
last one completes a transaction that is permitted. -/
def KeepsParsed (platform : Platform) (world : World) : Action → Prop
  | .command command _ => ∀ data p1 p2, command.request = .signTx data p1 p2 →
      world.ctx.reqType = .confirmTransaction →
      world.ctx.rawTxLen + data.length ≤ maxTransactionLen →
        (p1 = 1 → world.ctx.state = .parsed → data = []) ∧
          (p1 = 2 → p2 = 0 →
            Permitted platform world.nvm (world.ctx.transaction ++ data))
  | _ => True

section Parsed

variable {platform : Platform} {environment : Environment} {world final : World}

theorem World.ParsedIsPermitted.of_state (other : world.ctx.state ≠ .parsed) :
    world.ParsedIsPermitted platform :=
  fun parsed => absurd parsed other

theorem World.ParsedIsPermitted.congr {other : World}
    (permitted : world.ParsedIsPermitted platform) (ctx : other.ctx = world.ctx)
    (checked : lastChecked other.journal = lastChecked world.journal) :
    other.ParsedIsPermitted platform := by
  rw [World.ParsedIsPermitted, ctx, checked]
  exact permitted

theorem World.ParsedIsPermitted.shown (permitted : world.ParsedIsPermitted platform)
    (rawSeed : Vector UInt8 64) (review : Review) :
    ((world.addressed platform rawSeed).shown review).ParsedIsPermitted platform := by
  intro parsed
  rw [World.shown_ctx, World.addressed_ctx] at parsed
  obtain ⟨tx, decoded, digest, policy⟩ := permitted parsed
  refine ⟨tx, ?_, ?_, fun blind => ?_⟩
  · rw [World.shown_ctx, World.addressed_ctx, GlobalCtx.transaction]
    exact decoded
  · rw [World.shown_ctx, World.addressed_ctx, GlobalCtx.transaction]
    exact digest
  · rw [← policy blind]
    simp [lastChecked]

theorem opened_state (reqType : RequestType) (data : List UInt8) :
    (readRequest platform reqType data).1.state ≠ .parsed := by
  rw [readRequest_state]
  decide

theorem examined_permitted {data : List UInt8} {tx : ZondTx}
    (decoded : decodeLedgerTx platform.sizeWidth (world.ctx.appended data).transaction .zero =
      .ok tx)
    (permitted : (tx.hasData || tx.hasAccessList) = true → world.nvm.enableBlindSigning ≠ 0) :
    (world.examined platform data).ParsedIsPermitted platform := by
  intro _
  have bytes : (world.examined platform data).ctx.transaction =
      (world.ctx.appended data).transaction := rfl
  refine ⟨tx, ?_, ?_, fun blind => ?_⟩
  · rw [bytes, decoded]
  · rw [bytes, World.examined, World.digested]
  · rw [examined_journal, lastChecked, List.findSome?_cons]
    exact congrArg some (decide_eq_true (permitted blind))

theorem Served.parsedIsPermitted {command : Command}
    (permitted : world.ParsedIsPermitted platform)
    (keeps : KeepsParsed platform world (.command command environment))
    (served : Served platform environment (world.record (.received command))
      command.request final) : final.ParsedIsPermitted platform := by
  have same : ∀ response, World.ParsedIsPermitted platform
      ((world.record (.received command)).record (.answered response)) :=
    fun _ => permitted.congr rfl rfl
  have refused : ∀ {data fault}, command.request = .signTx data 2 0 →
      world.ctx.reqType = .confirmTransaction →
      world.ctx.rawTxLen + data.length ≤ maxTransactionLen →
      decodeLedgerTx platform.sizeWidth (world.ctx.appended data).transaction .zero ≠
        .error fault := by
    intro data fault request transaction fits decoded
    obtain ⟨tx, accepted, _⟩ := (keeps data 2 0 request transaction fits).2 rfl rfl
    rw [transaction_appended fits, accepted] at decoded
    cases decoded
  generalize requested : command.request = request at served
  cases served with
  | turnedAway _ => exact same _
  | version => exact same _
  | appName => exact same _
  | publicKey _ => exact same _
  | pathRefused _ _ => exact .of_state (opened_state _ _)
  | sessionOpened _ => exact .of_state (opened_state _ _)
  | addressUnderivable _ _ => exact .of_state (opened_state _ _)
  | addressAnswered _ _ => exact .of_state (opened_state _ _)
  | addressShown _ _ => exact .of_state (opened_state _ _)
  | @chunkTaken data p2 transaction fits =>
      intro parsed
      have state : world.ctx.state = .parsed := by
        rw [← appended_state world.ctx data]
        exact parsed
      have empty := (keeps data 1 p2 requested transaction fits).1 rfl state
      have unchanged : World.ParsedIsPermitted platform
          (((world.record (.received command)).taken data false).record
            (.answered (.status .ok))) :=
        permitted.congr (by
          rw [World.record_ctx, taken_ctx, empty, appended_nil, World.record_ctx])
          (by simp [lastChecked])
      exact unchanged parsed
  | undecodable transaction fits decoded =>
      exact absurd decoded (refused requested transaction fits)
  | @forbidden data tx transaction fits decoded blind off =>
      obtain ⟨other, accepted, policy⟩ :=
        (keeps data 2 0 requested transaction fits).2 rfl rfl
      have equal : tx = other := by
        have bytes : (world.ctx.appended data).transaction = world.ctx.transaction ++ data :=
          transaction_appended fits
        rw [World.record_ctx, bytes] at decoded
        exact Except.ok.inj (decoded.symm.trans accepted)
      subst equal
      exact absurd off (policy blind)
  | underivable transaction fits decoded policy _ =>
      exact (examined_permitted decoded policy).congr rfl (by simp [lastChecked])
  | reviewShown transaction fits decoded policy _ =>
      exact (examined_permitted decoded policy).shown _ _
  | signature _ _ _ _ => exact same _
  | lastSignature _ _ => exact permitted.congr rfl rfl

theorem Chosen.parsedIsPermitted {review : Review} {confirm : Bool}
    (permitted : world.ParsedIsPermitted platform)
    (chosen : Chosen platform environment (world.answering review confirm) review confirm
      final) : final.ParsedIsPermitted platform := by
  cases chosen with
  | addressConfirmed => exact permitted.congr rfl rfl
  | addressRejected => exact permitted.congr rfl rfl
  | transactionRejected => exact .of_state (fun parsed => by cases parsed)
  | signingFailed _ _ => exact .of_state (fun parsed => by cases parsed)
  | verificationFailed _ _ _ => exact .of_state (fun parsed => by cases parsed)
  | released _ _ _ => exact .of_state (fun parsed => by cases parsed)

/-- In runs that keep to the condition, the parsed state means that the
transaction has been parsed and permitted. -/
theorem parsed_is_permitted (platform : Platform) (world : World)
    (reachable : Reachable platform (KeepsParsed platform) world) :
    world.ParsedIsPermitted platform := by
  apply Machine.Reaches.invariant _ _ _ reachable
  · exact .of_state (fun parsed => by cases parsed)
  · intro world action permitted enabled keeps
    cases action with
    | start =>
        rw [perform_start, finish_appStart]
        exact .of_state (fun parsed => by cases parsed)
    | command command environment =>
        exact (served_command command).parsedIsPermitted permitted keeps
    | choose confirm environment =>
        obtain ⟨review, shown⟩ := Option.isSome_iff_exists.mp enabled.2
        exact (chosen_review shown confirm).parsedIsPermitted permitted
    | toggle setting =>
        obtain ⟨nvm, finish, _⟩ := finish_controlsCallback setting world
        rw [perform_toggle, finish]
        exact permitted.congr rfl rfl
  · intro world action _ _ _ content _
    exact .of_state (fun parsed => by cases parsed)

end Parsed

/-! ## A session of each kind -/

/-- A run to the review of a transaction keeps to the condition. -/
theorem parsed_is_permitted_reviewed :
    ∃ tx, World.ParsedIsPermitted simplePlatform
        ((World.started.inSession 0).reviewed simplePlatform wholeCommand emptyTransaction
          (Vector.replicate 64 0) tx) ∧
      ((World.started.inSession 0).reviewed simplePlatform wholeCommand emptyTransaction
          (Vector.replicate 64 0) tx).ctx.state = .parsed := by
  obtain ⟨tx, decoded, plain, finish⟩ := finish_wholeCommand 0 World.started
  obtain ⟨_, _, none⟩ := inSession_transaction 0 World.started
  have started : Reachable simplePlatform (KeepsParsed simplePlatform) World.started :=
    Machine.Reaches.performed .start
      (show (app simplePlatform).enabled .installed .start from rfl) trivial
  have opened : Reachable simplePlatform (KeepsParsed simplePlatform)
      (World.started.inSession 0) := by
    rw [← finish_openingCommand derivingEnvironment (.inl rfl) World.started]
    refine Reachable.command _ started started_running ?_
    intro data p1 p2 request
    cases request
    exact fun _ _ => ⟨fun more => absurd more (by decide),
      fun last => absurd last (by decide)⟩
  have running : (World.started.inSession 0).running = true := started_running
  have last : KeepsParsed simplePlatform (World.started.inSession 0)
      (.command wholeCommand derivingEnvironment) := by
    intro data p1 p2 request
    cases request
    intro _ _
    have permitted : Permitted simplePlatform (World.started.inSession 0).nvm
        ((World.started.inSession 0).ctx.transaction ++ emptyTransaction) := by
      rw [none]
      exact ⟨tx, decoded, fun blind => by rw [plain] at blind; cases blind⟩
    exact ⟨fun more => absurd more (by decide), fun _ _ => permitted⟩
  have reviewed := Reachable.command _ opened running last
  rw [finish] at reviewed
  exact ⟨tx, parsed_is_permitted simplePlatform _ reviewed, rfl⟩

def garbageCommand : Command := commandOf 6 2 0 [0]

def World.refusedGarbage : World :=
  (((World.started.inSession 0).record (.received garbageCommand)).digested simplePlatform
    [0]).record (.answered (.status .txParsingFail))

theorem not_parsed_is_permitted :
    Reachable simplePlatform Machine.Anything World.refusedGarbage ∧
      World.refusedGarbage.ctx.state = .parsed ∧
      ¬ World.refusedGarbage.ParsedIsPermitted simplePlatform := by
  obtain ⟨type, empty, none⟩ := inSession_transaction 0 World.started
  have room : (World.started.inSession 0).ctx.rawTxLen + [(0 : UInt8)].length ≤
      maxTransactionLen := by
    rw [empty]
    decide
  have rejected : (decodeLedgerTx 32 [0] .zero).isOk = false := by decide
  have parsed : World.refusedGarbage.ctx.state = .parsed := rfl
  have bytes : World.refusedGarbage.ctx.transaction = [0] := by
    have copied : World.refusedGarbage.ctx.transaction =
        ((World.started.inSession 0).ctx.appended [0]).transaction := rfl
    rw [copied, transaction_appended room, none, List.nil_append]
  refine ⟨?_, parsed, fun permitted => ?_⟩
  · cases decoded : decodeLedgerTx 32 [0] .zero with
    | ok tx =>
        rw [decoded] at rejected
        cases rejected
    | error fault =>
        have finish := finish_last_undecodable simplePlatform derivingEnvironment
          (show garbageCommand.request = .signTx [0] 2 0 from rfl) type room
          (by rw [none]; exact decoded)
        have reachable := Reachable.commands [(openingCommand 0, derivingEnvironment),
          (garbageCommand, derivingEnvironment)] (reachable_started simplePlatform)
          started_running
        rw [List.map_cons, Machine.after_cons, perform_command,
          finish_openingCommand _ (.inl rfl), List.map_cons, Machine.after_cons,
          perform_command, finish] at reachable
        exact reachable.1
  · obtain ⟨tx, decoded, _⟩ := permitted parsed
    have accepted : decodeLedgerTx 32 [0] .zero = .ok tx := by
      rw [← bytes]
      exact decoded
    rw [accepted] at rejected
    cases rejected

end LedgerQrl.App
