import LedgerQrl.App.Client

namespace LedgerQrl.App

open Foundation Mldsa87 Display Transaction

/-! # What the client obtains

The response to `sign_tx` as a function of the transaction, the path, the settings and
what happens outside the app. -/

/-! ## Messages -/

section Messages

variable {message : List UInt8} {maxSize : ℕ}

theorem flatMap_slice (message : List UInt8) (maxSize count : ℕ) :
    (List.range count).flatMap
      (fun index => (Payload.slice message (index * maxSize) maxSize).val) =
        message.take (count * maxSize) := by
  induction count with
  | zero => simp
  | succ count induction =>
      rw [List.range_succ, List.flatMap_append, induction, Nat.succ_mul, List.take_add]
      simp [Payload.slice]

theorem flatMap_splitMessage (positive : 0 < maxSize) (message : List UInt8) :
    (splitMessage message maxSize).flatMap Subtype.val = message := by
  rw [splitMessage, List.flatMap_map, flatMap_slice, List.take_of_length_le]
  have rounded := Nat.lt_div_mul_add positive (a := message.length + maxSize - 1)
  omega

theorem nonempty_of_mem_splitMessage {msg : Payload maxSize}
    (member : msg ∈ splitMessage message maxSize) : msg.val ≠ [] := by
  obtain ⟨index, inside, rfl⟩ := List.mem_map.mp member
  have bound := List.mem_range.mp inside
  have positive : 0 < maxSize := by
    by_contra zero
    rw [Nat.le_zero.mp (Nat.le_of_not_lt zero), Nat.div_zero] at bound
    omega
  have before : index * maxSize < message.length := by
    have least := (Nat.le_div_iff_mul_le positive).mp (Nat.succ_le_of_lt bound)
    rw [Nat.succ_mul] at least
    omega
  apply List.ne_nil_of_length_pos
  rw [Payload.slice, List.length_take, List.length_drop]
  omega

theorem splitMessage_eq_nil (positive : 0 < maxSize) :
    splitMessage message maxSize = [] ↔ message = [] := by
  constructor
  · intro none
    rw [← flatMap_splitMessage positive message, none, List.flatMap_nil]
  · intro none
    rw [none, splitMessage, List.length_nil, Nat.zero_add,
      Nat.div_eq_of_lt (Nat.sub_lt positive Nat.one_pos)]
    rfl

theorem splitMessage_last (positive : 0 < maxSize) {last : Payload maxSize}
    (split : (splitMessage message maxSize).getLast? = some last) :
    (splitMessage message maxSize).dropLast.flatMap Subtype.val ++ last.val = message ∧
      (∀ msg ∈ (splitMessage message maxSize).dropLast, msg.val ≠ []) ∧ last.val ≠ [] ∧
      (splitMessage message maxSize).length =
        (splitMessage message maxSize).dropLast.length + 1 := by
  have parts := List.dropLast_append_getLast? last split
  refine ⟨?_, fun msg member => ?_, ?_, ?_⟩
  · have whole := flatMap_splitMessage positive message
    rw [← parts, List.flatMap_append, List.flatMap_singleton] at whole
    exact whole
  · exact nonempty_of_mem_splitMessage (List.dropLast_subset _ member)
  · exact nonempty_of_mem_splitMessage (List.mem_of_getLast? split)
  · have count := congrArg List.length parts
    rw [List.length_append, List.length_singleton] at count
    exact count.symm

end Messages

/-! ## Requests of the client -/

section Requests

variable {data : Payload maxApduLen}

theorem pointer_eq_some (nonempty : data.val ≠ []) : data.pointer = some data.val := by
  rw [Payload.pointer, if_neg nonempty]

@[simp] theorem apdu_bytes (ins p1 p2 : UInt8) (data : Payload maxApduLen) :
    (apdu ins p1 p2 data).bytes = data.val := Payload.getD_pointer data

theorem request_getPublicKey (confirm : Bool) (nonempty : data.val ≠ []) :
    (apdu 5 (if confirm then 1 else 0) 0 data).request = .getPublicKey data.val confirm := by
  have present := pointer_eq_some nonempty
  cases confirm with
  | false => simp [Command.request, present]
  | true => simp [Command.request, present]

theorem request_signTx {p1 : UInt8} (known : p1 = 0 ∨ p1 = 1 ∨ p1 = 2)
    (nonempty : data.val ≠ []) : (apdu 6 p1 0 data).request = .signTx data.val p1 0 := by
  have present := pointer_eq_some nonempty
  rcases known with equal | equal | equal
  · subst equal
    simp [Command.request, present]
  · subst equal
    simp [Command.request, present]
  · subst equal
    simp [Command.request, present]

theorem request_signTxChunk {p2 : UInt8} (positive : 0 < p2) (small : p2 < 18) :
    (apdu 6 2 p2 (.empty _)).request = .signTx [] 2 p2 := by
  have bound : ¬ 17 < p2 := by
    rw [UInt8.lt_iff_toNat_lt] at small ⊢
    exact Nat.not_lt_of_le (Nat.le_of_lt_succ small)
  have later : p2 ≠ 0 := (UInt8.ne_of_lt positive).symm
  simp [Command.request, bound, later, Payload.empty]

theorem request_getPublicKeyChunk {p2 : UInt8} (positive : 0 < p2) (small : p2 < 12) :
    (apdu 5 0 p2 (.empty _)).request = .getPublicKeyChunk (p2.toNat - 1) := by
  have bound : ¬ 11 < p2 := by
    rw [UInt8.lt_iff_toNat_lt] at small ⊢
    exact Nat.not_lt_of_le (Nat.le_of_lt_succ small)
  simp [Command.request, bound, positive]

end Requests

/-! ## Exchanges -/

def Response.outcome (response : Response) (host : Host) :
    EStateM.Result Failure Host (List UInt8) :=
  if response.statusWord.code = StatusWord.ok.code then .ok response.bytes host
  else .error (.rapdu response.statusWord) host

section Exchange

variable {platform : Platform} {around : ℕ → Around} {command : Command} (host : Host)
  {served final : World} {response : Response}

theorem exchange_answered
    (finish : (apduDispatcher platform (around host.exchanges).serving command).finish
      host.world = served)
    (answered : responseTo served.journal = some response) :
    (exchange platform around command).run host =
      response.outcome { world := served, exchanges := host.exchanges + 1 } := by
  have world : exchanged platform (around host.exchanges) command host.world = served := by
    rw [exchanged, finish, answered, if_pos (Option.isSome_some)]
  simp only [EStateM.run, exchange, world, answered, Response.outcome]

theorem exchange_reviewed
    (finish : (apduDispatcher platform (around host.exchanges).serving command).finish
      host.world = served)
    (unanswered : responseTo served.journal = none)
    (chosen : (chooseReview platform (around host.exchanges).answering
      (around host.exchanges).confirm).finish served = final)
    (answered : responseTo final.journal = some response) :
    (exchange platform around command).run host =
      response.outcome { world := final, exchanges := host.exchanges + 1 } := by
  have world : exchanged platform (around host.exchanges) command host.world = final := by
    rw [exchanged, finish, unanswered, if_neg (by decide), chosen]
  simp only [EStateM.run, exchange, world, answered, Response.outcome]

end Exchange

/-! ## Chunks -/

section Chunks

variable (platform : Platform) (around : ℕ → Around)

theorem finish_tooLong (environment : Environment) {command : Command} {data : List UInt8}
    {p1 : UInt8} {world : World} (request : command.request = .signTx data p1 0)
    (carries : p1 = 1 ∨ p1 = 2) (transaction : world.ctx.reqType = .confirmTransaction)
    (long : maxTransactionLen < world.ctx.rawTxLen + data.length) :
    (apduDispatcher platform environment command).finish world =
      (world.record (.received command)).record (.answered (.status .wrongTxLength)) := by
  have served : Served platform environment (world.record (.received command))
      command.request ((apduDispatcher platform environment command).finish world) :=
    served_command command
  generalize (apduDispatcher platform environment command).finish world = final at served ⊢
  rw [request] at served
  have fits : ¬ (world.record (.received command)).ctx.rawTxLen + data.length ≤
      maxTransactionLen := Nat.not_le_of_lt long
  cases served with
  | turnedAway turned =>
      cases turned with
      | badState _ other => exact absurd transaction other
      | tooLong _ _ _ => rfl
      | notSending asks _ _ => exact absurd asks.2.1 (by decide)
      | wrongP1P2 _ other _ =>
          exact absurd (carries.imp_right fun last => ⟨last, rfl⟩) other
  | pathRefused opens _ =>
      rcases carries with more | last
      · subst more
        cases opens
      · subst last
        cases opens
  | sessionOpened _ => exact absurd carries (by decide)
  | chunkTaken _ within => exact absurd within fits
  | undecodable _ within _ => exact absurd within fits
  | forbidden _ within _ _ _ => exact absurd within fits
  | underivable _ within _ _ _ => exact absurd within fits
  | reviewShown _ within _ _ _ => exact absurd within fits
  | signature positive _ _ _ => exact absurd positive (by decide)

theorem taken_more (environment : Environment) {command : Command}
    {data : List UInt8} {world : World} (request : command.request = .signTx data 1 0)
    (transaction : world.ctx.reqType = .confirmTransaction)
    (fits : world.ctx.rawTxLen + data.length ≤ maxTransactionLen) :
    ∃ served, (apduDispatcher platform environment command).finish world = served ∧
      served.ctx = world.ctx.appended data ∧ served.nvm = world.nvm ∧
      responseTo served.journal = some (.status .ok) := by
  refine ⟨_, finish_more request transaction fits, ?_, ?_, rfl⟩
  · rw [World.record_ctx, taken_ctx, World.record_ctx]
  · rw [World.record_nvm, taken_nvm, World.record_nvm]

theorem exchangeAll_fits {messages : List (Payload maxApduLen)}
    (nonempty : ∀ msg ∈ messages, msg.val ≠ []) :
    ∀ host : Host, host.world.ctx.reqType = .confirmTransaction →
      host.world.ctx.rawTxLen + (messages.flatMap Subtype.val).length ≤ maxTransactionLen →
      ∃ world, (exchangeAll platform around 1 messages).run host =
          .ok () { world := world, exchanges := host.exchanges + messages.length } ∧
        world.ctx = host.world.ctx.appended (messages.flatMap Subtype.val) ∧
        world.nvm = host.world.nvm := by
  induction messages with
  | nil =>
      intro host _ _
      exact ⟨host.world, rfl, (appended_nil host.world.ctx).symm, rfl⟩
  | cons msg rest induction =>
      intro host transaction fits
      rw [List.flatMap_cons, List.length_append] at fits
      have request := request_signTx (.inr (.inl rfl)) (nonempty msg List.mem_cons_self)
      have room : host.world.ctx.rawTxLen + msg.val.length ≤ maxTransactionLen := by omega
      obtain ⟨served, finish, ctx, nvm, answered⟩ := taken_more platform
        (around host.exchanges).serving request transaction room
      have reqType : served.ctx.reqType = .confirmTransaction := by
        rw [ctx, appended_reqType, transaction]
      have rest_fits : served.ctx.rawTxLen + (rest.flatMap Subtype.val).length ≤
          maxTransactionLen := by
        rw [ctx, appended_rawTxLen]
        omega
      obtain ⟨world, ran, assembled, kept⟩ := induction
        (fun other member => nonempty other (List.mem_cons_of_mem _ member))
        { world := served, exchanges := host.exchanges + 1 } reqType rest_fits
      refine ⟨world, ?_, ?_, kept.trans nvm⟩
      · rw [exchangeAll, EStateM.run_bind, exchange_answered host finish answered]
        have count : host.exchanges + 1 + rest.length =
            host.exchanges + (msg :: rest).length := by
          rw [List.length_cons]
          omega
        rw [← count]
        exact ran
      · rw [assembled, ctx, List.flatMap_cons, appended_appended]

theorem exchangeAll_tooLong {messages : List (Payload maxApduLen)}
    (nonempty : ∀ msg ∈ messages, msg.val ≠ []) :
    ∀ host : Host, host.world.ctx.reqType = .confirmTransaction →
      host.world.ctx.rawTxLen ≤ maxTransactionLen →
      maxTransactionLen < host.world.ctx.rawTxLen + (messages.flatMap Subtype.val).length →
      ∃ final, (exchangeAll platform around 1 messages).run host =
        .error (.rapdu .wrongTxLength) final := by
  induction messages with
  | nil =>
      intro host _ within long
      exact absurd long (Nat.not_lt_of_le within)
  | cons msg rest induction =>
      intro host transaction _ long
      rw [List.flatMap_cons, List.length_append] at long
      have request := request_signTx (.inr (.inl rfl)) (nonempty msg List.mem_cons_self)
      rw [exchangeAll, EStateM.run_bind]
      by_cases room : host.world.ctx.rawTxLen + msg.val.length ≤ maxTransactionLen
      · obtain ⟨served, finish, ctx, nvm, answered⟩ := taken_more platform
          (around host.exchanges).serving request transaction room
        have reqType : served.ctx.reqType = .confirmTransaction := by
          rw [ctx, appended_reqType, transaction]
        have fits : served.ctx.rawTxLen ≤ maxTransactionLen := by
          rw [ctx, appended_rawTxLen]
          exact room
        have rest_long : maxTransactionLen <
            served.ctx.rawTxLen + (rest.flatMap Subtype.val).length := by
          rw [ctx, appended_rawTxLen]
          omega
        rw [exchange_answered host finish answered]
        exact induction (fun other member => nonempty other (List.mem_cons_of_mem _ member))
          { world := served, exchanges := host.exchanges + 1 } reqType fits rest_long
      · have finish : (apduDispatcher platform (around host.exchanges).serving
          (apdu 6 1 0 msg)).finish host.world = _ :=
          finish_tooLong _ _ request (.inl rfl) transaction (Nat.lt_of_not_le room)
        rw [exchange_answered host finish rfl]
        exact ⟨_, rfl⟩

end Chunks

/-! ## The approval -/

section Approval

variable {platform : Platform} {environment : Environment}

open Classical in
noncomputable def approvedSignature (platform : Platform) (environment : Environment)
    (path : List UInt32) (digest : Vector UInt8 32) : Option (List UInt8) :=
  match environment.signSeed path, environment.verifySeed path with
  | .ok signSeed, .ok verifySeed =>
      (Spec.sign platform.shake (seedOfRaw signSeed) environment.rnd digest.toList).filter
        fun sig => Spec.Verifies platform.shake (keyOf platform verifySeed).toList sig
          digest.toList
  | _, _ => none

theorem approvedSignature_signingFailed {ctx : GlobalCtx} {storage : InternalStorage}
    (failed : (signProgram platform environment ctx).value storage ≠ .none) :
    approvedSignature platform environment ctx.path ctx.mHash = none := by
  rw [approvedSignature]
  cases derived : environment.signSeed ctx.path with
  | error error => rfl
  | ok signSeed =>
      cases environment.verifySeed ctx.path with
      | error error => rfl
      | ok verifySeed =>
          rw [signProgram_derived platform derived] at failed
          cases signed : Spec.sign platform.shake (seedOfRaw signSeed) environment.rnd
              ctx.mHash.toList with
          | none =>
              dsimp only
              rw [signed, Option.filter_none]
          | some sig => exact absurd (signWithSeed_sign signed storage).1 failed

theorem sign_of_signed {world : World}
    (signs : (signProgram platform environment world.ctx).value world.nvm = .none) :
    ∃ signSeed, environment.signSeed world.ctx.path = .ok signSeed ∧
      Spec.sign platform.shake (seedOfRaw signSeed) environment.rnd world.ctx.mHash.toList =
        some (signedNvm platform environment world).sig.toList := by
  cases derived : environment.signSeed world.ctx.path with
  | error error =>
      rw [signProgram_underived platform derived] at signs
      cases signs
  | ok signSeed =>
      refine ⟨signSeed, rfl, ?_⟩
      rw [signProgram_derived platform derived] at signs
      cases signed : Spec.sign platform.shake (seedOfRaw signSeed) environment.rnd
          world.ctx.mHash.toList with
      | none =>
          rw [signWithSeed_unsigned signed] at signs
          cases signs
      | some sig =>
          rw [signedNvm, signProgram_derived platform derived,
            (signWithSeed_sign signed world.nvm).2]

theorem approvedSignature_verificationFailed {world : World}
    (signs : (signProgram platform environment world.ctx).value world.nvm = .none)
    (refused : (verification platform environment world).value
      (signedNvm platform environment world) ≠ (.none, true)) :
    approvedSignature platform environment world.ctx.path world.ctx.mHash = none := by
  obtain ⟨signSeed, derived, signed⟩ := sign_of_signed signs
  rw [approvedSignature, derived]
  cases outcome : environment.verifySeed world.ctx.path with
  | error error => rfl
  | ok verifySeed =>
      rw [ne_eq, verification_derived platform outcome] at refused
      dsimp only
      rw [signed, Option.filter_some, if_neg]
      simpa using refused

theorem approvedSignature_released {world : World}
    (signs : (signProgram platform environment world.ctx).value world.nvm = .none)
    (verifies : (verification platform environment world).value
      (signedNvm platform environment world) = (.none, true)) :
    approvedSignature platform environment world.ctx.path world.ctx.mHash =
      some (signedNvm platform environment world).sig.toList := by
  obtain ⟨signSeed, derived, signed⟩ := sign_of_signed signs
  rw [approvedSignature, derived]
  cases outcome : environment.verifySeed world.ctx.path with
  | error error =>
      exact absurd verifies (verifies_underivable platform outcome)
  | ok verifySeed =>
      rw [verification_derived platform outcome] at verifies
      dsimp only
      rw [signed, Option.filter_some, if_pos]
      simpa using verifies

end Approval

/-! ## The last chunk -/

noncomputable def answeredSignature (platform : Platform) (around : Around)
    (path : List UInt32) (digest : Vector UInt8 32) : Except StatusWord (List UInt8) :=
  if around.confirm then
    match approvedSignature platform around.answering path digest with
    | none => .error .signatureFail
    | some sig => .ok sig
  else .error .deny

noncomputable def reviewedSignature (platform : Platform) (blindSigning : Bool)
    (around : Around) (path : List UInt32) (transaction : List UInt8) :
    Except StatusWord (List UInt8) :=
  match decodeLedgerTx platform.sizeWidth transaction .zero with
  | .error _ => .error .txParsingFail
  | .ok tx =>
      if (tx.hasData || tx.hasAccessList) = true ∧ blindSigning = false then .error .deny
      else
        match around.serving.addressSeed path with
        | .error _ => .error .displayAddressFail
        | .ok _ =>
            answeredSignature platform around path
              (keccak256 platform.permutation transaction)

theorem reviewedSignature_plain {platform : Platform} {transaction : List UInt8} {tx : ZondTx}
    (decoded : decodeLedgerTx platform.sizeWidth transaction .zero = .ok tx)
    (plain : (tx.hasData || tx.hasAccessList) = false) (blindSigning : Bool)
    (around : Around) (path : List UInt32) :
    reviewedSignature platform blindSigning around path transaction =
      match around.serving.addressSeed path with
      | .error _ => .error .displayAddressFail
      | .ok _ =>
          answeredSignature platform around path
            (keccak256 platform.permutation transaction) := by
  rw [reviewedSignature, decoded]
  exact if_neg fun blind => Bool.false_ne_true (plain.symm.trans blind.1)

def World.FirstSent (world : World) (sig : List UInt8) : Prop :=
  ∃ stored : Vector UInt8 4627, stored.toList = sig ∧ world.Retrieving stored ∧
    wholeSent world.journal = some false

def Host.EndsWith (outcome : Except Failure (List UInt8))
    (result : EStateM.Result Failure Host (List UInt8)) : Prop :=
  match outcome with
  | .error failure => ∃ final, result = .error failure final
  | .ok sig => ∃ final, result = .ok (sig.take signatureChunkSize) final ∧
      final.world.FirstSent sig

section Last

variable (platform : Platform) (around : ℕ → Around)

theorem Host.EndsWith.refused {status : StatusWord}
    (refusal : status.code ≠ StatusWord.ok.code) (host : Host) :
    Host.EndsWith (.error (.rapdu status)) ((Response.status status).outcome host) := by
  rw [Response.outcome, Response.statusWord, if_neg refusal]
  exact ⟨host, rfl⟩

theorem endsWith_approval (environment : Environment) {world : World} {pairs : List Pair}
    {origin : Origin} (shown : world.review = some (.transaction pairs origin))
    (transaction : world.ctx.reqType = .confirmTransaction) (exchanges : ℕ) :
    ∃ response, responseTo ((chooseReview platform environment true).finish world).journal =
        some response ∧
      Host.EndsWith
        (match approvedSignature platform environment world.ctx.path world.ctx.mHash with
          | none => .error (.rapdu .signatureFail)
          | some sig => .ok sig)
        (response.outcome
          { world := (chooseReview platform environment true).finish world
            exchanges := exchanges }) := by
  have chosen : Chosen platform environment
      (world.answering (.transaction pairs origin) true) (.transaction pairs origin) true
      ((chooseReview platform environment true).finish world) := chosen_review shown true
  by_cases signs : (signProgram platform environment world.ctx).value world.nvm = .none
  · by_cases verifies : (verification platform environment world).value
        (signedNvm platform environment world) = (.none, true)
    · obtain ⟨reqType, stored, flag, journal, first⟩ := released_spec shown signs verifies
      rw [approvedSignature_released signs verifies]
      generalize (chooseReview platform environment true).finish world = final
        at reqType stored flag first ⊢
      refine ⟨_, by rw [first]; rfl, { world := final, exchanges := exchanges }, rfl, _, rfl,
        ⟨reqType.trans transaction, stored, .inl ⟨?_, ?_⟩⟩, ?_⟩
      · rw [first]
        rfl
      · rw [flag]
        decide
      · rw [first]
        rfl
    · obtain ⟨writes, _, finish⟩ := chosen_unverified shown signs verifies
      rw [approvedSignature_verificationFailed signs verifies, finish, unsigned_journal]
      exact ⟨_, rfl, .refused (by decide) _⟩
  · rw [approvedSignature_signingFailed signs]
    generalize (chooseReview platform environment true).finish world = final at chosen ⊢
    cases chosen with
    | signingFailed writes _ =>
        rw [unsigned_journal]
        exact ⟨_, rfl, .refused (by decide) _⟩
    | verificationFailed _ succeeded _ => exact absurd succeeded signs
    | released _ succeeded _ => exact absurd succeeded signs

/-- A transaction is under review, and its command is not answered. -/
structure World.Awaits (world : World) (path : List UInt32) (digest : Vector UInt8 32) :
    Prop where
  transaction : world.ctx.reqType = .confirmTransaction
  path : world.ctx.path = path
  digest : world.ctx.mHash = digest
  shown : ∃ pairs origin, world.review = some (.transaction pairs origin)
  unanswered : responseTo world.journal = none

theorem awaits_shown {world : World}
    (received : responseTo world.journal = none)
    (transaction : world.ctx.reqType = .confirmTransaction) (data : List UInt8)
    (rawSeed : Vector UInt8 64) (tx : ZondTx) :
    World.Awaits
      (((world.examined platform data).addressed platform rawSeed).shown
        (((world.examined platform data).addressed platform rawSeed).transactionReview
          platform tx))
      world.ctx.path
      (keccak256 platform.permutation (world.ctx.appended data).transaction) where
  transaction := by
    rw [World.shown_ctx, World.addressed_ctx, examined_reqType, transaction]
  path := by
    have path := examined_path platform world data
    rw [World.shown_ctx, World.addressed_ctx, ← path]
    simp only [GlobalCtx.path]
  digest := by
    rw [World.shown_ctx, World.addressed_ctx]
    simp only [World.examined, World.digested]
  shown := ⟨_, _, rfl⟩
  unanswered := by
    rw [World.shown_journal, World.addressed_journal, examined_journal]
    exact received

theorem endsWith_choice (around : Around) {world : World}
    {path : List UInt32} {digest : Vector UInt8 32} (awaits : world.Awaits path digest)
    (exchanges : ℕ) :
    ∃ response, responseTo ((chooseReview platform around.answering around.confirm).finish
        world).journal = some response ∧
      Host.EndsWith ((answeredSignature platform around path digest).mapError .rapdu)
        (response.outcome
          { world := (chooseReview platform around.answering around.confirm).finish world
            exchanges := exchanges }) := by
  obtain ⟨pairs, origin, shown⟩ := awaits.shown
  rw [answeredSignature]
  cases around.confirm with
  | true =>
      have ends := endsWith_approval platform around.answering shown awaits.transaction
        exchanges
      rw [if_pos rfl, ← awaits.path, ← awaits.digest]
      cases released : approvedSignature platform around.answering world.ctx.path
          world.ctx.mHash with
      | none =>
          rw [released] at ends
          exact ends
      | some sig =>
          rw [released] at ends
          exact ends
  | false =>
      have chosen : Chosen platform around.answering
          (world.answering (.transaction pairs origin) false) (.transaction pairs origin) false
          ((chooseReview platform around.answering false).finish world) :=
        chosen_review shown false
      rw [if_neg Bool.false_ne_true]
      generalize (chooseReview platform around.answering false).finish world = final
        at chosen ⊢
      cases chosen with
      | transactionRejected => exact ⟨_, rfl, .refused (by decide) _⟩

theorem exchange_last (host : Host) {msg : Payload maxApduLen} (nonempty : msg.val ≠ [])
    (transaction : host.world.ctx.reqType = .confirmTransaction)
    (fits : host.world.ctx.rawTxLen + msg.val.length ≤ maxTransactionLen) :
    Host.EndsWith
      ((reviewedSignature platform (host.world.nvm.enableBlindSigning ≠ 0)
        (around host.exchanges) host.world.ctx.path
        (host.world.ctx.transaction ++ msg.val)).mapError .rapdu)
      ((exchange platform around (apdu 6 2 0 msg)).run host) := by
  have request := request_signTx (.inr (.inr rfl)) nonempty
  have served : Served platform (around host.exchanges).serving
      (host.world.record (.received (apdu 6 2 0 msg))) (apdu 6 2 0 msg).request
      ((apduDispatcher platform (around host.exchanges).serving (apdu 6 2 0 msg)).finish
        host.world) := served_command _
  have assembled := transaction_appended fits
  generalize finish : (apduDispatcher platform (around host.exchanges).serving
    (apdu 6 2 0 msg)).finish host.world = final at served
  rw [request] at served
  rw [reviewedSignature, ← assembled]
  cases served with
  | turnedAway turned =>
      cases turned with
      | badState _ other => exact absurd transaction other
      | tooLong _ _ long => exact absurd fits (Nat.not_le_of_lt long)
      | notSending asks _ _ => exact absurd asks.2.1 (by decide)
      | wrongP1P2 _ other _ => exact absurd (.inr ⟨rfl, rfl⟩) other
  | pathRefused opens _ => cases opens
  | undecodable _ _ decoded =>
      rw [World.record_ctx] at decoded
      rw [decoded, exchange_answered host finish (by rw [World.record_journal]; rfl)]
      exact .refused (by decide) _
  | forbidden _ _ decoded opaqueData disabled =>
      rw [World.record_ctx] at decoded
      rw [World.record_nvm] at disabled
      rw [decoded, exchange_answered host finish (by rw [World.record_journal]; rfl)]
      dsimp only
      rw [if_pos ⟨opaqueData, by simpa using disabled⟩]
      exact .refused (by decide) _
  | underivable _ _ decoded permitted failed =>
      rw [World.record_ctx] at decoded
      rw [World.record_nvm] at permitted
      rw [examined_path, World.record_ctx] at failed
      rw [decoded, exchange_answered host finish (by rw [World.record_journal]; rfl)]
      dsimp only
      rw [if_neg (fun denied => by simpa using permitted denied.1 (by simpa using denied.2)),
        failed]
      exact .refused (by decide) _
  | @reviewShown _ tx rawSeed _ _ decoded permitted derived =>
      rw [World.record_ctx] at decoded
      rw [World.record_nvm] at permitted
      rw [examined_path, World.record_ctx] at derived
      have awaits := awaits_shown platform
        (show responseTo (host.world.record (.received (apdu 6 2 0 msg))).journal = none from rfl)
        transaction msg.val rawSeed tx
      obtain ⟨response, answered, ends⟩ := endsWith_choice platform
        (around host.exchanges) awaits (host.exchanges + 1)
      rw [decoded, exchange_reviewed host finish awaits.unanswered rfl answered]
      dsimp only
      rw [if_neg (fun denied => by simpa using permitted denied.1 (by simpa using denied.2)),
        derived]
      exact ends
  | signature positive _ _ _ => exact absurd positive (by decide)

end Last

/-! ## `sign_tx` -/

section SignTx

variable (platform : Platform) (around : ℕ → Around)

/-- What `sign_tx` comes to, with the whole signature in place of its first part. -/
noncomputable def signTxOutcome (blindSigning : Bool) (around : Around)
    (packed transaction : List UInt8) : Except Failure (List UInt8) :=
  if (readRequest platform .confirmTransaction packed).2 = false then
    .error (.rapdu .wrongDataLength)
  else if transaction = [] then .error .indexError
  else if maxTransactionLen < transaction.length then .error (.rapdu .wrongTxLength)
  else
    (reviewedSignature platform blindSigning around
      (readRequest platform .confirmTransaction packed).1.path transaction).mapError .rapdu

theorem readRequest_nil (reqType : RequestType) :
    (readRequest platform reqType []).2 = false := by
  rw [readRequest]
  dsimp only
  rw [if_neg]
  rw [platform.sdk.readU8_nil]
  exact Bool.false_ne_true

theorem exchange_first_refused {packed : Payload maxApduLen} (host : Host)
    (invalid : (readRequest platform .confirmTransaction packed.val).2 = false) :
    ∃ final, (exchange platform around (apdu 6 0 0 packed)).run host =
      .error (.rapdu .wrongDataLength) final := by
  by_cases empty : packed.val = []
  · have request : (apdu 6 0 0 packed).request = .refused .wrongDataLength := by
      rw [show packed = .empty _ from Subtype.ext empty]
      rfl
    have finish : (apduDispatcher platform (around host.exchanges).serving
        (apdu 6 0 0 packed)).finish host.world =
          (host.world.record (.received (apdu 6 0 0 packed))).record
            (.answered (.status .wrongDataLength)) := by
      rw [apduDispatcher, Program.finish_bind, finish_record, request, serve, finish_ioSendSw]
    rw [exchange_answered host finish rfl]
    exact ⟨_, rfl⟩
  · have opens : (apdu 6 0 0 packed).request.opens = some (.confirmTransaction, packed.val) := by
      rw [request_signTx (.inl rfl) empty]
      rfl
    have finish : (apduDispatcher platform (around host.exchanges).serving
        (apdu 6 0 0 packed)).finish host.world = _ := finish_path_refused _ _ opens invalid
    rw [exchange_answered host finish rfl]
    exact ⟨_, rfl⟩

theorem exchange_first {packed : Payload maxApduLen} (host : Host)
    (valid : (readRequest platform .confirmTransaction packed.val).2 = true) :
    ∃ world, (exchange platform around (apdu 6 0 0 packed)).run host =
        .ok [] { world := world, exchanges := host.exchanges + 1 } ∧
      world.ctx = (readRequest platform .confirmTransaction packed.val).1 ∧
      world.nvm = host.world.nvm := by
  have nonempty : packed.val ≠ [] := by
    intro empty
    rw [empty, readRequest_nil] at valid
    cases valid
  have finish : (apduDispatcher platform (around host.exchanges).serving
    (apdu 6 0 0 packed)).finish host.world = _ :=
      finish_first (request_signTx (.inl rfl) nonempty) valid
  rw [exchange_answered host finish rfl]
  exact ⟨_, rfl, by rw [World.record_ctx, World.opened_ctx],
    by rw [World.record_nvm, World.opened_nvm, World.record_nvm]⟩

theorem exchanges_endsWith {messages : List (Payload maxApduLen)} {last : Payload maxApduLen}
    (earlier : ∀ msg ∈ messages, msg.val ≠ []) (nonempty : last.val ≠ []) (host : Host)
    (transaction : host.world.ctx.reqType = .confirmTransaction)
    (cleared : host.world.ctx.rawTxLen = 0 ∧ host.world.ctx.transaction = []) :
    Host.EndsWith
      (if maxTransactionLen < (messages.flatMap Subtype.val ++ last.val).length then
        .error (.rapdu .wrongTxLength)
      else
        (reviewedSignature platform (host.world.nvm.enableBlindSigning ≠ 0)
          (around (host.exchanges + messages.length)) host.world.ctx.path
          (messages.flatMap Subtype.val ++ last.val)).mapError .rapdu)
      ((do
        exchangeAll platform around 1 messages
        exchange platform around (apdu 6 2 0 last)).run host) := by
  obtain ⟨empty, none⟩ := cleared
  rw [EStateM.run_bind, List.length_append]
  by_cases room : host.world.ctx.rawTxLen + (messages.flatMap Subtype.val).length ≤
      maxTransactionLen
  · obtain ⟨world, ran, ctx, nvm⟩ :=
      exchangeAll_fits platform around earlier host transaction room
    have reqType : world.ctx.reqType = .confirmTransaction := by
      rw [ctx, appended_reqType, transaction]
    have length : world.ctx.rawTxLen = (messages.flatMap Subtype.val).length := by
      rw [ctx, appended_rawTxLen, empty, Nat.zero_add]
    rw [ran]
    dsimp only
    by_cases fits : world.ctx.rawTxLen + last.val.length ≤ maxTransactionLen
    · have ends := exchange_last platform around
        { world := world, exchanges := host.exchanges + messages.length } nonempty reqType
        fits
      rw [if_neg (by omega)]
      simpa only [ctx, nvm, appended_path, transaction_appended room, none,
        List.nil_append] using ends
    · have request := request_signTx (.inr (.inr rfl)) nonempty
      have finish : (apduDispatcher platform (around (host.exchanges +
          messages.length)).serving (apdu 6 2 0 last)).finish world = _ :=
        finish_tooLong _ _ request (.inr rfl) reqType (Nat.lt_of_not_le fits)
      rw [if_pos (by omega), exchange_answered
        { world := world, exchanges := host.exchanges + messages.length } finish rfl]
      exact ⟨_, rfl⟩
  · obtain ⟨final, refused⟩ := exchangeAll_tooLong platform around
      earlier host transaction (by omega) (Nat.lt_of_not_le room)
    rw [refused, if_pos (by omega)]
    exact ⟨final, rfl⟩

/-- `sign_tx` comes to the same as the specification, from any state of the app. -/
theorem signTx_endsWith (packed : Payload maxApduLen) (transaction : List UInt8)
    (host : Host) :
    Host.EndsWith
      (signTxOutcome platform (host.world.nvm.enableBlindSigning ≠ 0)
        (around (host.exchanges + (splitMessage transaction maxApduLen).length)) packed.val
        transaction)
      ((signTx platform around packed transaction).run host) := by
  have positive : 0 < maxApduLen := by decide
  rw [signTx, EStateM.run_bind, signTxOutcome]
  cases valid : (readRequest platform .confirmTransaction packed.val).2 with
  | false =>
      obtain ⟨final, refused⟩ := exchange_first_refused platform around host valid
      rw [refused, if_pos rfl]
      exact ⟨final, rfl⟩
  | true =>
      obtain ⟨opened, started, ctx, nvm⟩ := exchange_first platform around host valid
      have cleared : (readRequest platform .confirmTransaction packed.val).1.rawTxLen = 0 ∧
        (readRequest platform .confirmTransaction packed.val).1.transaction = [] :=
          readRequest_cleared _ _
      have reqType : (readRequest platform .confirmTransaction packed.val).1.reqType =
        .confirmTransaction := readRequest_reqType _ _
      rw [started, if_neg (by decide)]
      dsimp only
      cases split : (splitMessage transaction maxApduLen).getLast? with
      | none =>
          have none := List.getLast?_eq_none_iff.mp split
          rw [if_pos ((splitMessage_eq_nil positive).mp none), none]
          exact ⟨_, rfl⟩
      | some last =>
          have present : transaction ≠ [] := by
            intro empty
            rw [(splitMessage_eq_nil positive).mpr empty] at split
            cases split
          obtain ⟨whole, earlier, nonempty, count⟩ := splitMessage_last positive split
          have ends := exchanges_endsWith platform around earlier nonempty
            { world := opened, exchanges := host.exchanges + 1 } (by rw [ctx, reqType])
            (by rw [ctx]; exact cleared)
          rw [if_neg present, count]
          simpa only [whole, ctx, nvm, Nat.add_assoc, Nat.add_comm 1] using ends

end SignTx

end LedgerQrl.App
