import LedgerQrl.App.Chosen
import LedgerQrl.Mldsa87.Memory

namespace LedgerQrl.App

open Foundation Mldsa87 Display Transaction

/-! # Reassembly of a transaction

The buffer holds exactly the chunks of the session, and what follows from the
last chunk does not depend on how the transaction was cut. -/

/-! ## The buffer -/

section Buffer

variable {ctx : GlobalCtx}

theorem appended_path (ctx : GlobalCtx) (data : List UInt8) :
    (ctx.appended data).path = ctx.path := by
  simp only [GlobalCtx.path, GlobalCtx.appended]

theorem transaction_appended {data : List UInt8}
    (fits : ctx.rawTxLen + data.length ≤ maxTransactionLen) :
    (ctx.appended data).transaction = ctx.transaction ++ data := by
  apply List.ext_getElem
  · simp only [GlobalCtx.transaction, GlobalCtx.appended, List.length_take,
      Vector.length_toList, List.length_append]
    omega
  · intro index leftBound rightBound
    simp only [GlobalCtx.transaction, GlobalCtx.appended, List.length_take,
      Vector.length_toList] at leftBound
    have inside : index < maxTransactionLen := by omega
    simp only [GlobalCtx.transaction, GlobalCtx.appended, List.getElem_take,
      Vector.getElem_toList, getElem_writeBytes _ _ _ inside]
    have length : (ctx.rawTx.toList.take ctx.rawTxLen).length = ctx.rawTxLen := by
      rw [List.length_take, Vector.length_toList]
      omega
    rcases Nat.lt_or_ge index ctx.rawTxLen with before | behind
    · rw [if_neg (Nat.not_le.mpr before), List.getElem_append_left (by omega),
        List.getElem_take, Vector.getElem_toList]
    · have position : index - ctx.rawTxLen < data.length := by omega
      rw [if_pos behind, List.getElem_append_right (by omega),
        List.getElem?_eq_getElem position, Option.getD_some]
      simp only [length]

theorem appended_appended (ctx : GlobalCtx) (first second : List UInt8) :
    (ctx.appended first).appended second = ctx.appended (first ++ second) := by
  simp only [GlobalCtx.appended, writeBytes_append, List.length_append, Nat.add_assoc]

theorem writeBytes_nil {size : ℕ} (offset : ℕ) (memory : Vector UInt8 size) :
    writeBytes offset [] memory = memory := by
  ext1 index bound
  rw [getElem_writeBytes _ _ _ bound]
  split
  · rfl
  · rfl

theorem appended_nil (ctx : GlobalCtx) : ctx.appended [] = ctx := by
  rw [GlobalCtx.appended, writeBytes_nil, List.length_nil, Nat.add_zero]

end Buffer

/-! ## The chunks of a session -/

/-- The chunks accepted since the last command that opened a session, in their
order. -/
def acceptedChunks : List Entry → List (List UInt8)
  | [] => []
  | .copied bytes _ :: rest => acceptedChunks rest ++ [bytes]
  | .received command :: rest =>
      if command.request.opens.isSome then [] else acceptedChunks rest
  | _ :: rest => acceptedChunks rest

theorem acceptedChunks_sigWritten (writes : ℕ) (journal : List Entry) :
    acceptedChunks (List.replicate writes .sigWritten ++ journal) =
      acceptedChunks journal := by
  induction writes with
  | zero => rfl
  | succ writes induction =>
      rw [List.replicate_succ, List.cons_append]
      exact induction

theorem acceptedChunks_received {command : Command} (opens : command.request.opens = none)
    (journal : List Entry) :
    acceptedChunks (.received command :: journal) = acceptedChunks journal := by
  rw [acceptedChunks, opens]
  rfl

theorem acceptedChunks_opened {command : Command} {opened : RequestType × List UInt8}
    (opens : command.request.opens = some opened) (journal : List Entry) :
    acceptedChunks (.received command :: journal) = [] := by
  rw [acceptedChunks, opens]
  rfl

/-- While a transaction is expected, the buffer holds the accepted chunks. -/
def World.Assembled (world : World) : Prop :=
  world.ctx.reqType = .confirmTransaction →
    world.ctx.rawTxLen ≤ maxTransactionLen ∧
      world.ctx.transaction = (acceptedChunks world.journal).flatten

section Assembled

variable {platform : Platform} {environment : Environment} {world final : World}

theorem World.Assembled.taken {data : List UInt8} (final : Bool)
    (assembled : world.Assembled) (transaction : world.ctx.reqType = .confirmTransaction)
    (fits : world.ctx.rawTxLen + data.length ≤ maxTransactionLen) :
    (world.ctx.appended data).rawTxLen ≤ maxTransactionLen ∧
      (world.ctx.appended data).transaction =
        (acceptedChunks (.copied data final :: world.journal)).flatten := by
  refine ⟨fits, ?_⟩
  rw [transaction_appended fits, (assembled transaction).2, acceptedChunks,
    List.flatten_append, List.flatten_singleton]

theorem readRequest_cleared (reqType : RequestType) (data : List UInt8) :
    (readRequest platform reqType data).1.rawTxLen = 0 ∧
      (readRequest platform reqType data).1.transaction = [] := by
  rw [readRequest]
  dsimp only
  split
  · exact ⟨rfl, by rw [GlobalCtx.transaction]; exact List.take_zero⟩
  · exact ⟨rfl, by rw [GlobalCtx.transaction]; exact List.take_zero⟩

theorem opened_assembled {command : Command} {reqType : RequestType} {data : List UInt8}
    (opens : command.request.opens = some (reqType, data)) (journal : List Entry) :
    (readRequest platform reqType data).1.rawTxLen ≤ maxTransactionLen ∧
      (readRequest platform reqType data).1.transaction =
        (acceptedChunks (.received command :: journal)).flatten := by
  obtain ⟨length, bytes⟩ : _ = 0 ∧ _ = [] := readRequest_cleared reqType data
  rw [length, bytes, acceptedChunks_opened opens]
  exact ⟨Nat.zero_le _, rfl⟩

theorem Served.assembled {command : Command} (assembled : world.Assembled)
    (served : Served platform environment (world.record (.received command))
      command.request final) : final.Assembled := by
  have received : command.request.opens = none →
      (world.record (.received command)).Assembled := by
    intro opens transaction
    rw [World.record, acceptedChunks_received opens]
    exact assembled transaction
  generalize requested : command.request = request at served received
  cases served with
  | turnedAway turned => exact received turned.opens
  | version => exact received rfl
  | appName => exact received rfl
  | publicKey _ => exact received rfl
  | pathRefused opens _ =>
      intro _
      exact opened_assembled (requested ▸ opens) world.journal
  | sessionOpened _ =>
      intro _
      exact opened_assembled (requested ▸ rfl) world.journal
  | addressUnderivable _ _ =>
      intro _
      exact opened_assembled (requested ▸ rfl) world.journal
  | addressAnswered _ _ =>
      intro _
      exact opened_assembled (requested ▸ rfl) world.journal
  | addressShown _ _ =>
      intro _
      exact opened_assembled (requested ▸ rfl) world.journal
  | chunkTaken transaction fits =>
      intro _
      exact (received rfl).taken false transaction fits
  | undecodable transaction fits _ =>
      intro _
      exact (received rfl).taken true transaction fits
  | forbidden transaction fits _ _ _ =>
      intro _
      exact (received rfl).taken true transaction fits
  | underivable transaction fits _ _ _ =>
      intro _
      exact (received rfl).taken true transaction fits
  | reviewShown transaction fits _ _ _ =>
      intro _
      exact (received rfl).taken true transaction fits
  | signature _ _ _ _ => exact received rfl
  | lastSignature _ _ => exact received rfl

theorem Chosen.acceptedChunks {review : Review} {confirm : Bool}
    (chosen : Chosen platform environment world review confirm final) :
    acceptedChunks final.journal = acceptedChunks world.journal := by
  cases chosen with
  | addressConfirmed => rfl
  | addressRejected => rfl
  | transactionRejected => rfl
  | signingFailed writes _ => exact acceptedChunks_sigWritten writes _
  | verificationFailed writes _ _ => exact acceptedChunks_sigWritten writes _
  | released writes _ _ => exact acceptedChunks_sigWritten writes _

theorem Chosen.assembled {review : Review} {confirm : Bool} (assembled : world.Assembled)
    (chosen : Chosen platform environment (world.answering review confirm) review confirm
      final) : final.Assembled := by
  obtain ⟨state, ctx⟩ := chosen.ctx
  intro transaction
  rw [chosen.acceptedChunks]
  rw [ctx] at transaction ⊢
  exact assembled transaction

/-- In every reachable world the buffer holds exactly the accepted chunks. -/
theorem reachable_assembled {allowed : World → Action → Prop}
    (reachable : Reachable platform allowed world) : world.Assembled := by
  apply Machine.Reaches.invariant _ _ _ reachable
  · intro transaction
    cases transaction
  · intro world action assembled enabled _
    cases action with
    | start =>
        rw [perform_start, finish_appStart]
        intro transaction
        cases transaction
    | command command environment =>
        exact (served_command command).assembled assembled
    | choose confirm environment =>
        obtain ⟨review, shown⟩ := Option.isSome_iff_exists.mp enabled.2
        exact (chosen_review shown confirm).assembled assembled
    | toggle setting =>
        obtain ⟨nvm, finish, _⟩ := finish_controlsCallback setting world
        rw [perform_toggle, finish]
        exact assembled
  · intro world action assembled _ _ content _ transaction
    cases transaction

end Assembled

/-! ## Chunks that are refused -/

section Refusal

variable {platform : Platform} {world : World}

theorem not_asksSignature {p1 p2 : UInt8} (carries : CarriesChunk p1 p2) :
    ¬ AsksSignature p1 p2 := by
  rintro ⟨last, positive, _⟩
  rcases carries with more | ⟨_, zero⟩
  · rw [last] at more
    cases more
  · rw [zero] at positive
    exact absurd positive (by decide)

/-- What becomes of a chunk in a world: it is refused for its length exactly when
it does not fit, and then the context stays as it is; otherwise its bytes are
appended, and if it is not the last one it is accepted. -/
structure ChunkOutcome (world : World) (data : List UInt8) (p1 : UInt8) (final : World) :
    Prop where
  refused_iff : final.journal.head? = some (.answered (.status .wrongTxLength)) ↔
    maxTransactionLen < world.ctx.rawTxLen + data.length
  refused_ctx : maxTransactionLen < world.ctx.rawTxLen + data.length → final.ctx = world.ctx
  appended : world.ctx.rawTxLen + data.length ≤ maxTransactionLen →
    final.ctx.transaction = world.ctx.transaction ++ data
  accepted : world.ctx.rawTxLen + data.length ≤ maxTransactionLen → p1 = 1 →
    final.journal.head? = some (.answered (.status .ok))

theorem chunkOutcome (environment : Environment) {command : Command}
    {data : List UInt8} {p1 p2 : UInt8} (request : command.request = .signTx data p1 p2)
    (carries : CarriesChunk p1 p2) (transaction : world.ctx.reqType = .confirmTransaction) :
    ChunkOutcome world data p1
      ((apduDispatcher platform environment command).finish world) := by
  have result : Served platform environment (world.record (.received command))
      command.request ((apduDispatcher platform environment command).finish world) :=
    served_command command
  generalize (apduDispatcher platform environment command).finish world = final at result
  have copied : world.ctx.rawTxLen + data.length ≤ maxTransactionLen →
      final.journal.head? ≠ some (.answered (.status .wrongTxLength)) →
      final.ctx.transaction = (world.ctx.appended data).transaction →
      (p1 = 1 → final.journal.head? = some (.answered (.status .ok))) →
      ChunkOutcome world data p1 final :=
    fun fits other bytes accepted =>
      { refused_iff := ⟨fun answered => absurd answered other,
          fun long => absurd fits (Nat.not_le.mpr long)⟩
        refused_ctx := fun long => absurd fits (Nat.not_le.mpr long)
        appended := fun fits => bytes.trans (transaction_appended fits)
        accepted := fun _ => accepted }
  rw [request] at result
  cases result with
  | turnedAway turned =>
      cases turned with
      | badState _ other => exact absurd transaction other
      | tooLong _ _ long =>
          exact
            { refused_iff := ⟨fun _ => long, fun _ => rfl⟩
              refused_ctx := fun _ => rfl
              appended := fun fits => absurd fits (Nat.not_le.mpr long)
              accepted := fun fits => absurd fits (Nat.not_le.mpr long) }
      | notSending asks _ _ => exact absurd asks (not_asksSignature carries)
      | wrongP1P2 _ other _ => exact absurd carries other
  | pathRefused opens _ =>
      rw [opens_of_carriesChunk carries] at opens
      cases opens
  | sessionOpened _ =>
      have opens : (Request.signTx data 0 p2).opens = none := opens_of_carriesChunk carries
      cases opens
  | chunkTaken _ fits =>
      exact copied fits (fun answered => by cases answered) rfl fun _ => rfl
  | undecodable _ fits _ =>
      exact copied fits (fun answered => by cases answered) rfl fun last => by cases last
  | forbidden _ fits _ _ _ =>
      exact copied fits (fun answered => by cases answered) rfl fun last => by cases last
  | underivable _ fits _ _ _ =>
      exact copied fits (fun answered => by cases answered) rfl fun last => by cases last
  | reviewShown _ fits _ _ _ =>
      exact copied fits (fun answered => by cases answered) rfl fun last => by cases last
  | signature positive small _ _ =>
      have within : p2 < 18 := UInt8.lt_trans small (by decide)
      exact absurd ⟨rfl, positive, within⟩ (not_asksSignature carries)
  | lastSignature _ _ => exact absurd ⟨rfl, by decide, by decide⟩ (not_asksSignature carries)

end Refusal

/-! ## The cut of a transaction does not matter -/

section Delivery

variable {platform : Platform}

/-- Commands that deliver bytes: all but the last with `P1 = 1`, the last, in
the given environment, with `P1 = 2` and `P2 = 0`. -/
inductive Delivers (environment : Environment) : List UInt8 → List Action → Prop where
  | last {command : Command} {bytes : List UInt8} :
      command.request = .signTx bytes 2 0 →
        Delivers environment bytes [.command command environment]
  | more {command : Command} {chunk bytes : List UInt8} {p2 : UInt8}
      {earlier : Environment} {actions : List Action} :
      command.request = .signTx chunk 1 p2 → Delivers environment bytes actions →
        Delivers environment (chunk ++ bytes) (.command command earlier :: actions)

theorem finish_more {environment : Environment} {world : World} {command : Command}
    {chunk : List UInt8} {p2 : UInt8} (request : command.request = .signTx chunk 1 p2)
    (transaction : world.ctx.reqType = .confirmTransaction)
    (fits : world.ctx.rawTxLen + chunk.length ≤ maxTransactionLen) :
    (apduDispatcher platform environment command).finish world =
      (((world.record (.received command)).taken chunk false).record
        (.answered (.status .ok))) := by
  obtain ⟨value, finish⟩ : _ ∧
      _ = World.taken (world.record (.received command)) chunk false :=
    takeChunk_fits platform false transaction fits
  rw [apduDispatcher, Program.finish_bind, finish_record, request, serve, handlerSignTx,
    if_neg (show ¬ (1 : UInt8) = 0 by decide), if_pos rfl, signTxMore, Program.finish_bind,
    value, finish, if_pos rfl, finish_ioSendSw]

theorem finish_first {environment : Environment} {world : World} {command : Command}
    {data : List UInt8} {p2 : UInt8} (request : command.request = .signTx data 0 p2)
    (valid : (readRequest platform .confirmTransaction data).2 = true) :
    (apduDispatcher platform environment command).finish world =
      ((world.record (.received command)).opened platform .confirmTransaction data).record
        (.answered (.status .ok)) := by
  rw [apduDispatcher, Program.finish_bind, finish_record, request, serve, handlerSignTx,
    if_pos rfl, signTxFirst, Program.finish_bind, value_beginRequest, finish_beginRequest,
    readWorld, if_pos valid, if_pos valid, finish_ioSendSw]
  rfl

theorem after_delivers {environment : Environment} {bytes : List UInt8}
    {actions : List Action} (delivers : Delivers environment bytes actions) :
    ∀ world : World, world.ctx.reqType = .confirmTransaction →
      world.ctx.rawTxLen + bytes.length ≤ maxTransactionLen →
      ∃ (before : World) (last : List UInt8),
        (app platform).after world actions =
            (signTxLast platform environment last).finish before ∧
          before.ctx.appended last = world.ctx.appended bytes ∧
          before.ctx.reqType = .confirmTransaction ∧
          before.ctx.rawTxLen + last.length ≤ maxTransactionLen ∧
          before.nvm = world.nvm := by
  induction delivers with
  | @last command bytes request =>
      intro world transaction fits
      refine ⟨world.record (.received command), bytes, ?_, rfl, transaction, fits, rfl⟩
      rw [Machine.after_cons, Machine.after_nil, perform_command, apduDispatcher,
        Program.finish_bind, finish_record, request]
      rfl
  | @more command chunk bytes p2 earlier actions request _ induction =>
      intro world transaction fits
      rw [List.length_append] at fits
      obtain ⟨before, last, after, completes, expected, room, storage⟩ := induction
        (((world.record (.received command)).taken chunk false).record
          (.answered (.status .ok)))
        (show (world.ctx.appended chunk).reqType = .confirmTransaction by
          rw [appended_reqType, transaction])
        (show (world.ctx.appended chunk).rawTxLen + bytes.length ≤ maxTransactionLen by
          rw [appended_rawTxLen]
          omega)
      refine ⟨before, last, ?_, ?_, expected, room, ?_⟩
      · rw [Machine.after_cons, perform_command, finish_more request transaction (by omega),
          after]
      · rw [completes, ← appended_appended]
        rfl
      · simpa only [World.record, World.taken] using storage

/-- A session that is opened and filled ends with a last chunk that completes the
bytes in a cleared context. -/
theorem after_session {environment last : Environment} {world : World} {opening : Command}
    {data bytes : List UInt8} {p2 : UInt8} {actions : List Action}
    (request : opening.request = .signTx data 0 p2)
    (valid : (readRequest platform .confirmTransaction data).2 = true)
    (fits : bytes.length ≤ maxTransactionLen) (delivers : Delivers last bytes actions) :
    ∃ (before : World) (chunk : List UInt8),
      (app platform).after world (.command opening environment :: actions) =
          (signTxLast platform last chunk).finish before ∧
        before.ctx.appended chunk =
          (readRequest platform .confirmTransaction data).1.appended bytes ∧
        before.ctx.reqType = .confirmTransaction ∧
        before.ctx.rawTxLen + chunk.length ≤ maxTransactionLen ∧
        before.nvm = world.nvm := by
  obtain ⟨empty, _⟩ : (readRequest platform .confirmTransaction data).1.rawTxLen = 0 ∧
    (readRequest platform .confirmTransaction data).1.transaction = [] :=
    readRequest_cleared _ _
  have type : (readRequest platform .confirmTransaction data).1.reqType =
    .confirmTransaction := readRequest_reqType _ _
  have room : (readRequest platform .confirmTransaction data).1.rawTxLen + bytes.length ≤
      maxTransactionLen := by
    omega
  rw [Machine.after_cons, perform_command, finish_first request valid]
  exact after_delivers delivers _ type room

theorem finish_signTxLast_ctx (platform : Platform) (environment : Environment)
    {world : World} {data : List UInt8}
    (transaction : world.ctx.reqType = .confirmTransaction)
    (fits : world.ctx.rawTxLen + data.length ≤ maxTransactionLen) :
    ∃ address, ((signTxLast platform environment data).finish world).ctx =
      { (world.digested platform data).ctx with address := address } := by
  have unchanged : ∀ ctx : GlobalCtx, ∃ address, ctx = { ctx with address := address } :=
    fun ctx => ⟨ctx.address, rfl⟩
  rw [finish_signTxLast platform environment transaction fits]
  cases decoded : decodeLedgerTx platform.sizeWidth (world.ctx.appended data).transaction
      .zero with
  | error fault =>
      rw [finish_reviewTransaction_undecodable platform environment decoded, World.record]
      exact unchanged _
  | ok tx =>
      rw [finish_reviewTransaction_decoded platform environment decoded]
      split
      · rw [World.record, World.examined]
        exact unchanged _
      · have request := (examined_reqType platform world data).trans transaction
        have parsed := examined_state platform world data
        cases outcome : environment.addressSeed (world.examined platform data).ctx.path with
        | error error =>
            rw [finish_uiDisplayTransaction_error platform _ request parsed outcome,
              World.record, World.record, World.examined]
            exact unchanged _
        | ok rawSeed =>
            rw [finish_uiDisplayTransaction_ok platform request parsed outcome, World.shown,
              World.addressed, World.examined]
            exact ⟨addressOf platform rawSeed, rfl⟩

theorem transactionReview_congr (platform : Platform) {first second : World}
    (ctx : first.ctx = second.ctx)
    (same : settings first.nvm = settings second.nvm) (tx : ZondTx) :
    first.transactionReview platform tx = second.transactionReview platform tx := by
  simp only [settings, Prod.mk.injEq] at same
  obtain ⟨blind, nonce, hash⟩ := same
  simp only [World.transactionReview, reviewSettings, ctx, blind, nonce, hash]

/-- The outcome of the last chunk depends on the assembled context, the settings
and the derivation. -/
theorem finish_signTxLast_congr (platform : Platform) (first second : Environment)
    {world other : World}
    {data data' : List UInt8}
    (transaction : world.ctx.reqType = .confirmTransaction)
    (fits : world.ctx.rawTxLen + data.length ≤ maxTransactionLen)
    (transaction' : other.ctx.reqType = .confirmTransaction)
    (fits' : other.ctx.rawTxLen + data'.length ≤ maxTransactionLen)
    (same : world.ctx.appended data = other.ctx.appended data')
    (alike : settings world.nvm = settings other.nvm)
    (derivations : first.addressSeed world.ctx.path = second.addressSeed world.ctx.path) :
    ((signTxLast platform first data).finish world).ctx =
        ((signTxLast platform second data').finish other).ctx ∧
      ((signTxLast platform first data).finish world).journal.head? =
        ((signTxLast platform second data').finish other).journal.head? := by
  have digested : (world.digested platform data).ctx = (other.digested platform data').ctx := by
    simp only [World.digested, same]
  have examined : (world.examined platform data).ctx = (other.examined platform data').ctx :=
    digested
  have blind : world.nvm.enableBlindSigning = other.nvm.enableBlindSigning :=
    congrArg Prod.fst alike
  rw [finish_signTxLast platform first transaction fits,
    finish_signTxLast platform second transaction' fits']
  cases decoded : decodeLedgerTx platform.sizeWidth (world.ctx.appended data).transaction
      .zero with
  | error fault =>
      rw [finish_reviewTransaction_undecodable platform first decoded,
        finish_reviewTransaction_undecodable platform second (same ▸ decoded)]
      exact ⟨digested, rfl⟩
  | ok tx =>
      rw [finish_reviewTransaction_decoded platform first decoded,
        finish_reviewTransaction_decoded platform second (same ▸ decoded), blind]
      by_cases denied : (tx.hasData || tx.hasAccessList) = true ∧
          other.nvm.enableBlindSigning = 0
      · rw [if_pos denied, if_pos denied]
        exact ⟨examined, rfl⟩
      · have request := (examined_reqType platform world data).trans transaction
        have request' := (examined_reqType platform other data').trans transaction'
        have parsed := examined_state platform world data
        have parsed' := examined_state platform other data'
        have path := examined_path platform world data
        rw [if_neg denied, if_neg denied]
        cases outcome : first.addressSeed (world.examined platform data).ctx.path with
        | error error =>
            have outcome' := outcome
            rw [path, derivations, ← path, examined] at outcome'
            rw [finish_uiDisplayTransaction_error platform _ request parsed outcome,
              finish_uiDisplayTransaction_error platform _ request' parsed' outcome']
            simp only [World.record, examined, List.head?_cons, and_self]
        | ok rawSeed =>
            have outcome' := outcome
            rw [path, derivations, ← path, examined] at outcome'
            rw [finish_uiDisplayTransaction_ok platform request parsed outcome,
              finish_uiDisplayTransaction_ok platform request' parsed' outcome']
            have addressed : ((world.examined platform data).addressed platform rawSeed).ctx =
                ((other.examined platform data').addressed platform rawSeed).ctx := by
              simp only [World.addressed, examined]
            have stored : settings ((world.examined platform data).addressed platform
                  rawSeed).nvm =
                settings ((other.examined platform data').addressed platform rawSeed).nvm := by
              simp only [World.addressed, keyed_settings, examined_nvm, alike]
            have shown := transactionReview_congr platform addressed stored tx
            simp only [World.shown, addressed, shown, List.head?_cons, and_self]

/-- Streaming reassembles the transaction, refuses exactly what does not fit, and
does not depend on the cut. -/
theorem streaming (platform : Platform) :
    (∀ world, Reachable platform Machine.Anything world →
      world.ctx.reqType = .confirmTransaction →
        world.ctx.rawTxLen ≤ maxTransactionLen ∧
          world.ctx.transaction = (acceptedChunks world.journal).flatten) ∧
    (∀ world, Reachable platform Machine.Anything world →
      world.ctx.reqType = .confirmTransaction →
      ∀ (environment : Environment) (command : Command) (data : List UInt8) (p1 p2 : UInt8),
        command.request = .signTx data p1 p2 → CarriesChunk p1 p2 →
          ChunkOutcome world data p1
            ((apduDispatcher platform environment command).finish world)) ∧
    (∀ world other, Reachable platform Machine.Anything world →
      Reachable platform Machine.Anything other →
      settings world.nvm = settings other.nvm →
      ∀ (opening opening' : Command) (data : List UInt8) (p2 p2' : UInt8)
        (first second last last' : Environment) (bytes : List UInt8)
        (actions actions' : List Action),
        opening.request = .signTx data 0 p2 → opening'.request = .signTx data 0 p2' →
        (readRequest platform .confirmTransaction data).2 = true →
        bytes.length ≤ maxTransactionLen →
        Delivers last bytes actions → Delivers last' bytes actions' →
        last.addressSeed (readRequest platform .confirmTransaction data).1.path =
          last'.addressSeed (readRequest platform .confirmTransaction data).1.path →
        let final := (app platform).after world (.command opening first :: actions)
        let final' := (app platform).after other (.command opening' second :: actions')
        final.ctx = final'.ctx ∧ final.ctx.transaction = bytes ∧
          final.ctx.mHash = keccak256 platform.permutation bytes ∧
          final.journal.head? = final'.journal.head?) := by
  refine ⟨fun world reachable => reachable_assembled reachable,
    fun world _ transaction environment command data p1 p2 request carries =>
      chunkOutcome environment request carries transaction, ?_⟩
  intro world other _ _ alike opening opening' data p2 p2' first second last last' bytes
    actions actions' request request' valid fits delivers delivers' derivations
  obtain ⟨before, chunk, after, completes, type, room, storage⟩ :
    ∃ before chunk, (app platform).after world (.command opening first :: actions) =
      (signTxLast platform last chunk).finish before ∧ _ :=
    after_session request valid fits delivers
  obtain ⟨before', chunk', after', completes', type', room', storage'⟩ :
    ∃ before chunk, (app platform).after other (.command opening' second :: actions') =
      (signTxLast platform last' chunk).finish before ∧ _ :=
    after_session request' valid fits delivers'
  have path : before.ctx.path = (readRequest platform .confirmTransaction data).1.path := by
    rw [← appended_path before.ctx chunk, completes, appended_path]
  have assembled : (before.ctx.appended chunk).transaction = bytes := by
    obtain ⟨empty, none⟩ : (readRequest platform .confirmTransaction data).1.rawTxLen = 0 ∧
      (readRequest platform .confirmTransaction data).1.transaction = [] :=
      readRequest_cleared _ _
    rw [completes, transaction_appended (by omega), none, List.nil_append]
  obtain ⟨address, ctx⟩ := finish_signTxLast_ctx platform last type room
  have outcome := finish_signTxLast_congr platform last last' type room type' room'
    (completes.trans completes'.symm) (by rw [storage, storage', alike]) (by
      rw [path, derivations])
  dsimp only
  rw [after, after']
  refine ⟨outcome.1, ?_, ?_, outcome.2⟩
  · rw [ctx]
    simp only [GlobalCtx.transaction, World.digested] at assembled ⊢
    exact assembled
  · rw [ctx, World.digested, assembled]

end Delivery

end LedgerQrl.App
