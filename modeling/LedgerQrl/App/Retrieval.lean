import LedgerQrl.App.Session

namespace LedgerQrl.App

open Foundation Mldsa87 Display Transaction

/-! # Retrieval of a released signature

Nothing but an approval writes the signature, and only its last part ends its
retrieval. The requests for its parts are served while a transaction is expected;
an approval may leave another type of request behind. -/

/-! ## The parts of a signature -/

section Parts

/-- Bytes `[258 i, min (258 (i + 1), 4627))`. -/
def signaturePart (sig : Vector UInt8 4627) (index : ℕ) : List UInt8 :=
  (sig.toList.drop (index * signatureChunkSize)).take signatureChunkSize

theorem chunkOf_last (sig : Vector UInt8 4627) :
    chunkOf sig (17 * signatureChunkSize) signatureLastChunkSize = signaturePart sig 17 := by
  have length : (sig.toList.drop (17 * signatureChunkSize)).length =
      signatureLastChunkSize := by
    rw [List.length_drop, Vector.length_toList]
    rfl
  rw [chunkOf, signaturePart, List.take_of_length_le length.le,
    List.take_of_length_le (length.le.trans (by decide))]

theorem flatMap_signaturePart (sig : Vector UInt8 4627) :
    (List.range 18).flatMap (signaturePart sig) = sig.toList := by
  have parts : ∀ count, (List.range count).flatMap (signaturePart sig) =
      sig.toList.take (count * signatureChunkSize) := by
    intro count
    induction count with
    | zero => simp
    | succ count induction =>
        rw [List.range_succ, List.flatMap_append, induction, Nat.succ_mul, List.take_add]
        simp [signaturePart]
  rw [parts, List.take_of_length_le]
  rw [Vector.length_toList]
  decide

end Parts

/-! ## What the journal says of a retrieval -/

/-- Whether the last part has been sent since the first. -/
def wholeSent (journal : List Entry) : Option Bool :=
  journal.findSome? fun
    | .answered (.signature 0 _) => some false
    | .answered (.signature 17 _) => some true
    | _ => none

def sentBytes : List Entry → List UInt8
  | [] => []
  | .answered (.signature 0 bytes) :: _ => bytes
  | .answered (.signature _ bytes) :: rest => sentBytes rest ++ bytes
  | _ :: rest => sentBytes rest

/-- Any action but a start, a command that clears the context, and an approval. -/
def Harmless : Action → Prop
  | .start => False
  | .command command _ => command.request.opens = none
  | .choose confirm _ => confirm = false
  | .toggle _ => True

/-- Requests for the parts of a signature from one on, in order. -/
inductive Asks : ℕ → List Action → Prop where
  | last {command : Command} {environment : Environment} {data : List UInt8} :
      command.request = .signTx data 2 17 → Asks 17 [.command command environment]
  | next {command : Command} {environment : Environment} {data : List UInt8} {p2 : UInt8}
      {actions : List Action} : 0 < p2 → p2 < 17 → command.request = .signTx data 2 p2 →
      Asks (p2.toNat + 1) actions →
        Asks p2.toNat (.command command environment :: actions)

/-- A signature can be fetched intact: after any harmless actions, a request for a
part is answered with that part until the last part has been sent, and is then
refused; requests in order send the whole signature. -/
structure Fetchable (platform : Platform) (released : World) (sig : Vector UInt8 4627) :
    Prop where
  part : ∀ actions, (∀ action ∈ actions, Harmless action) →
    ∀ (command : Command) (environment : Environment) (data : List UInt8) (p2 : UInt8),
      command.request = .signTx data 2 p2 → 0 < p2 → p2 < 18 →
      wholeSent ((app platform).after released actions).journal = some false →
        ((apduDispatcher platform environment command).finish
          ((app platform).after released actions)).journal.head? =
            some (.answered (.signature p2.toNat (signaturePart sig p2.toNat)))
  sent : ∀ actions, (∀ action ∈ actions, Harmless action) →
    ∀ (command : Command) (environment : Environment) (data : List UInt8) (p2 : UInt8),
      command.request = .signTx data 2 p2 → 0 < p2 → p2 < 18 →
      wholeSent ((app platform).after released actions).journal ≠ some false →
        ((apduDispatcher platform environment command).finish
          ((app platform).after released actions)).journal.head? =
            some (.answered (.status .badState))
  whole : ∀ actions, Asks 1 actions →
    sentBytes ((app platform).after released actions).journal = sig.toList

/-! ## What harmless actions keep -/

structure World.Retrieving (world : World) (sig : Vector UInt8 4627) : Prop where
  reqType : world.ctx.reqType = .confirmTransaction
  sig : world.nvm.sig = sig
  sending : wholeSent world.journal = some false ∧ world.nvm.isSendingSignature ≠ 0 ∨
    wholeSent world.journal = some true ∧ world.nvm.isSendingSignature = 0

section Harmless

variable {platform : Platform} {environment : Environment} {world final : World}
  {sig : Vector UInt8 4627}

theorem World.Retrieving.congr {other : World} (retrieving : world.Retrieving sig)
    (reqType : other.ctx.reqType = world.ctx.reqType) (stored : other.nvm.sig = world.nvm.sig)
    (flag : other.nvm.isSendingSignature = world.nvm.isSendingSignature)
    (journal : wholeSent other.journal = wholeSent world.journal) :
    other.Retrieving sig where
  reqType := reqType.trans retrieving.reqType
  sig := stored.trans retrieving.sig
  sending := by
    rw [journal, flag]
    exact retrieving.sending

theorem wholeSent_part {p2 : UInt8} (positive : 0 < p2) (small : p2 < 17)
    (bytes : List UInt8) (journal : List Entry) :
    wholeSent (.answered (.signature p2.toNat bytes) :: journal) = wholeSent journal := by
  have first : p2.toNat ≠ 0 := Nat.ne_of_gt (UInt8.lt_iff_toNat_lt.mp positive)
  have last : p2.toNat ≠ 17 := Nat.ne_of_lt (UInt8.lt_iff_toNat_lt.mp small)
  rw [wholeSent, List.findSome?_cons]
  generalize p2.toNat = index at first last
  split
  · rename_i decided
    split at decided
    · rename_i equal
      cases equal
      exact absurd rfl first
    · rename_i equal
      cases equal
      exact absurd rfl last
    · cases decided
  · rfl

theorem Served.retrieving {request : Request} (retrieving : world.Retrieving sig)
    (served : Served platform environment world request final)
    (harmless : request.opens = none) : final.Retrieving sig := by
  cases served with
  | turnedAway _ => exact retrieving.congr rfl rfl rfl rfl
  | version => exact retrieving.congr rfl rfl rfl rfl
  | appName => exact retrieving.congr rfl rfl rfl rfl
  | publicKey _ => exact retrieving.congr rfl rfl rfl rfl
  | pathRefused opens _ =>
      rw [harmless] at opens
      cases opens
  | sessionOpened _ => cases harmless
  | addressUnderivable _ _ => cases harmless
  | addressAnswered _ _ => cases harmless
  | addressShown _ _ => cases harmless
  | chunkTaken _ _ =>
      exact retrieving.congr (by simp) (by simp) (by simp) (by simp [wholeSent])
  | undecodable _ _ _ =>
      exact retrieving.congr (by simp) (by simp) (by simp) (by simp [wholeSent])
  | forbidden _ _ _ _ _ =>
      exact retrieving.congr (by simp) (by simp) (by simp) (by simp [wholeSent])
  | underivable _ _ _ _ _ =>
      exact retrieving.congr (by simp) (by simp) (by simp) (by simp [wholeSent])
  | reviewShown _ _ _ _ _ =>
      exact retrieving.congr (by simp) (by simp) (by simp)
        (by simp [wholeSent])
  | signature positive small _ _ =>
      exact retrieving.congr rfl rfl rfl (wholeSent_part positive small _ _)
  | lastSignature _ _ =>
      exact
        { reqType := retrieving.reqType
          sig := retrieving.sig
          sending := .inr ⟨rfl, rfl⟩ }

theorem Chosen.retrieving {review : Review} (retrieving : world.Retrieving sig)
    (chosen : Chosen platform environment (world.answering review false) review false
      final) : final.Retrieving sig := by
  cases chosen with
  | addressRejected => exact retrieving.congr rfl rfl rfl rfl
  | transactionRejected => exact retrieving.congr rfl rfl rfl rfl

theorem retrieving_finish {action : Action} (retrieving : world.Retrieving sig)
    (harmless : Harmless action) :
    (((app platform).perform action).finish world).Retrieving sig := by
  cases action with
  | start => cases harmless
  | command command environment =>
      have received : (world.record (.received command)).Retrieving sig :=
        retrieving.congr rfl rfl rfl rfl
      have result : Served platform environment (world.record (.received command))
        command.request _ := served_command command
      exact result.retrieving received harmless
  | choose confirm environment =>
      have rejected : confirm = false := harmless
      subst rejected
      rw [perform_choose]
      cases shown : world.review with
      | none =>
          rw [finish_chooseReview_none shown]
          exact retrieving
      | some review => exact (chosen_review shown false).retrieving retrieving
  | toggle setting =>
      obtain ⟨nvm, finish, stored, _, flag⟩ := finish_controlsCallback setting world
      rw [perform_toggle, finish]
      exact retrieving.congr rfl stored flag rfl

theorem retrieving_after (platform : Platform) {actions : List Action} :
    ∀ {world : World}, world.Retrieving sig →
      (∀ action ∈ actions, Harmless action) →
        ((app platform).after world actions).Retrieving sig := by
  induction actions with
  | nil => intro world retrieving _; exact retrieving
  | cons action rest induction =>
      intro world retrieving harmless
      rw [Machine.after_cons]
      exact induction (retrieving_finish retrieving (harmless _ List.mem_cons_self))
        fun action member => harmless action (List.mem_cons_of_mem _ member)

/-! ## Requests for parts -/

variable {command : Command} {data : List UInt8} {p2 : UInt8}

theorem finish_requested (request : command.request = .signTx data 2 p2) (positive : 0 < p2)
    (small : p2 < 18) :
    (apduDispatcher platform environment command).finish world =
      (signTxChunk p2).finish (world.record (.received command)) := by
  have later : ¬ (p2 = 0) := fun zero => by
    rw [zero] at positive
    exact absurd positive (by decide)
  rw [apduDispatcher, Program.finish_bind, finish_record, request, serve, handlerSignTx,
    if_neg (show ¬ (2 : UInt8) = 0 by decide), if_neg (show ¬ (2 : UInt8) = 1 by decide),
    if_neg (fun last => later last.2), if_pos ⟨rfl, positive, small⟩]

theorem head_requested (platform : Platform) (environment : Environment)
    (request : command.request = .signTx data 2 p2) (positive : 0 < p2)
    (small : p2 < 18) (transaction : world.ctx.reqType = .confirmTransaction)
    (sending : world.nvm.isSendingSignature ≠ 0) :
    ((apduDispatcher platform environment command).finish world).journal =
      .answered (.signature p2.toNat (signaturePart world.nvm.sig p2.toNat)) ::
        .received command :: world.journal := by
  rw [finish_requested request positive small, signTxChunk, Program.finish_bind,
    Program.value_read, Program.finish_read, World.record_ctx, World.record_nvm,
    if_neg (not_not_intro transaction), if_pos sending]
  by_cases last : p2 = 17
  · subst last
    rw [show (17 : UInt8).toNat = 17 from rfl, finish_helperSendResponseSig_last,
      ← chunkOf_last]
    rfl
  · have before : p2.toNat < 17 := by
      have different : p2.toNat ≠ 17 := fun equal => last (UInt8.toNat_inj.mp equal)
      have bound : p2.toNat < 18 := UInt8.lt_iff_toNat_lt.mp small
      omega
    rw [finish_helperSendResponseSig (UInt8.lt_iff_toNat_lt.mp positive) before]
    rfl

theorem head_refused (platform : Platform) (environment : Environment)
    (request : command.request = .signTx data 2 p2) (positive : 0 < p2)
    (small : p2 < 18) (refused : world.ctx.reqType ≠ .confirmTransaction ∨
      world.nvm.isSendingSignature = 0) :
    ((apduDispatcher platform environment command).finish world).journal =
      .answered (.status .badState) :: .received command :: world.journal := by
  rw [finish_requested request positive small, signTxChunk, Program.finish_bind,
    Program.value_read, Program.finish_read, World.record_ctx, World.record_nvm]
  by_cases transaction : world.ctx.reqType = .confirmTransaction
  · rw [if_neg (not_not_intro transaction),
      if_neg (not_not_intro (refused.resolve_left (not_not_intro transaction)))]
    rfl
  · rw [if_pos transaction]
    rfl

theorem sentBytes_part {index : ℕ} (later : index ≠ 0) (bytes : List UInt8)
    (journal : List Entry) :
    sentBytes (.answered (.signature index bytes) :: journal) =
      sentBytes journal ++ bytes := by
  cases index with
  | zero => exact absurd rfl later
  | succ index => rfl

/-- Requests in order send the parts in order. -/
theorem sentBytes_after {index : ℕ} {actions : List Action} (asks : Asks index actions) :
    ∀ world : World, world.Retrieving sig → wholeSent world.journal = some false →
      sentBytes ((app platform).after world actions).journal =
        sentBytes world.journal ++
          (List.range' index (18 - index)).flatMap (signaturePart sig) := by
  have flag : ∀ world : World, world.Retrieving sig → wholeSent world.journal = some false →
      world.nvm.isSendingSignature ≠ 0 := by
    intro world retrieving unsent
    rcases retrieving.sending with sending | sent
    · exact sending.2
    · rw [unsent] at sent
      cases sent.1
  induction asks with
  | @last command environment data request =>
      intro world retrieving unsent
      have journal := head_requested platform environment request (by decide) (by decide)
        retrieving.reqType (flag world retrieving unsent)
      rw [Machine.after_cons, Machine.after_nil, perform_command, journal,
        show (17 : UInt8).toNat = 17 from rfl, sentBytes_part (by decide), retrieving.sig]
      simp [sentBytes]
  | @next command environment data p2 actions positive small request _ induction =>
      intro world retrieving unsent
      have within : p2 < 18 := UInt8.lt_trans small (by decide)
      have later : p2.toNat ≠ 0 := Nat.ne_of_gt (UInt8.lt_iff_toNat_lt.mp positive)
      have bound : p2.toNat < 17 := UInt8.lt_iff_toNat_lt.mp small
      have journal := head_requested platform environment request positive within
        retrieving.reqType (flag world retrieving unsent)
      have asked : command.request.opens = none := by
        rw [request]
        exact opens_of_asksSignature ⟨rfl, positive, within⟩
      have kept : (((app platform).perform (.command command environment)).finish
          world).Retrieving sig := retrieving_finish retrieving asked
      have still : wholeSent (((app platform).perform (.command command environment)).finish
          world).journal = some false := by
        rw [perform_command, journal, wholeSent_part positive small]
        exact unsent
      have range : List.range' p2.toNat (18 - p2.toNat) =
          p2.toNat :: List.range' (p2.toNat + 1) (18 - (p2.toNat + 1)) := by
        rw [← List.range'_succ]
        congr 1
        omega
      rw [Machine.after_cons, induction _ kept still, perform_command, journal,
        sentBytes_part later, retrieving.sig, range, List.flatMap_cons, List.append_assoc]
      simp [sentBytes]

/-! ## After an approval -/

variable {pairs : List Pair} {origin : Origin}

theorem sig_after_verification (platform : Platform) (environment : Environment)
    (world : World) :
    (wipeNvmSecrets.finish ((verification platform environment world).finish
      (signedNvm platform environment world))).sig =
        (signedNvm platform environment world).sig := by
  have verified : ((verification platform environment world).finish
      (signedNvm platform environment world)).sig =
        (signedNvm platform environment world).sig :=
    (keeps_sig_of_lasting (keeps_lasting_verifyProgram world.ctx _)).finish _
  exact ((keeps_sig_of_lasting keeps_lasting_wipe).finish _).trans verified

theorem flag_after_verification (platform : Platform) (environment : Environment)
    (world : World) :
    (wipeNvmSecrets.finish ((verification platform environment world).finish
      (signedNvm platform environment world))).isSendingSignature =
        world.nvm.isSendingSignature := by
  have signs : Keeps flags (signProgram platform environment world.ctx) :=
    keeps_flags_signProgram world.ctx
  have verifies : Keeps lasting (verification platform environment world) :=
    keeps_lasting_verifyProgram world.ctx _
  have signed : flags (signedNvm platform environment world) = flags world.nvm :=
    signs.finish world.nvm
  have verified := (of_lasting (verifies.finish (signedNvm platform environment world))).2
  have wiped := (of_lasting (keeps_lasting_wipe.finish
    ((verification platform environment world).finish
      (signedNvm platform environment world)))).2
  exact (of_flags (wiped.trans (verified.trans signed))).2

theorem released_spec (shown : world.review = some (.transaction pairs origin))
    (signs : (signProgram platform environment world.ctx).value world.nvm = .none)
    (verifies : (verification platform environment world).value
      (signedNvm platform environment world) = (.none, true)) :
    let released := (chooseReview platform environment true).finish world
    released.ctx.reqType = world.ctx.reqType ∧
      released.nvm.sig = (signedNvm platform environment world).sig ∧
      released.nvm.isSendingSignature = 1 ∧
      ∃ journal, released.journal = .answered (.signature 0
        (signaturePart (signedNvm platform environment world).sig 0)) :: journal := by
  obtain ⟨writes, finish⟩ := chosen_released shown signs verifies
  have wiped := sig_after_verification platform environment world
  -- The storage is compared by name only: comparing by evaluation runs the programs.
  generalize wipeNvmSecrets.finish ((verification platform environment world).finish
    (signedNvm platform environment world)) = nvm at finish wiped
  dsimp only
  rw [finish]
  refine ⟨?_, ?_, ?_, ?_⟩
  · simp
  · simp only [World.released_nvm]
    exact wiped
  · rw [World.released_nvm]
  · rw [World.released_journal]
    dsimp only
    rw [wiped]
    exact ⟨_, rfl⟩

/-- When another request has replaced the session, no part can be fetched. -/
theorem not_fetchable_of_reqType (shown : world.review = some (.transaction pairs origin))
    (signs : (signProgram platform environment world.ctx).value world.nvm = .none)
    (verifies : (verification platform environment world).value
      (signedNvm platform environment world) = (.none, true))
    (other : world.ctx.reqType ≠ .confirmTransaction) :
    ¬ Fetchable platform ((chooseReview platform environment true).finish world)
        (signedNvm platform environment world).sig := by
  obtain ⟨reqType, _, _, journal, first⟩ := released_spec shown signs verifies
  intro fetchable
  have sent := fetchable.part [] (fun action member => by cases member)
    (commandOf 6 2 1 []) environment [] 1 rfl (by decide) (by decide) (by
      rw [Machine.after_nil, first]
      rfl)
  have refused := head_refused platform environment
    (show (commandOf 6 2 1 []).request = .signTx [] 2 1 from rfl) (by decide) (by decide)
    (.inl (fun transaction => other (reqType.symm.trans transaction)))
  rw [Machine.after_nil, refused] at sent
  cases sent

/-- A released signature can be fetched intact exactly when the approval left a
transaction expected. -/
theorem fetchable_iff (platform : Platform) (environment : Environment) (world : World)
    (pairs : List Pair) (origin : Origin)
    (shown : world.review = some (.transaction pairs origin))
    (signs : (signProgram platform environment world.ctx).value world.nvm = .none)
    (verifies : (verification platform environment world).value
      (signedNvm platform environment world) = (.none, true)) :
    Fetchable platform ((chooseReview platform environment true).finish world)
        (signedNvm platform environment world).sig ↔
      world.ctx.reqType = .confirmTransaction := by
  obtain ⟨reqType, stored, flag, journal, first⟩ := released_spec shown signs verifies
  have unsent : wholeSent
      ((chooseReview platform environment true).finish world).journal = some false := by
    rw [first]
    rfl
  constructor
  · intro fetchable
    by_contra other
    exact not_fetchable_of_reqType shown signs verifies other fetchable
  · intro transaction
    have retrieving : World.Retrieving ((chooseReview platform environment true).finish world)
        (signedNvm platform environment world).sig :=
      { reqType := reqType.trans transaction
        sig := stored
        sending := .inl ⟨unsent, by rw [flag]; decide⟩ }
    refine ⟨?_, ?_, ?_⟩
    · intro actions harmless command environment data p2 request positive small sending
      have after := retrieving_after platform retrieving harmless
      have flag := after.sending.resolve_right fun sent => by
        rw [sending] at sent
        cases sent.1
      rw [head_requested platform environment request positive small after.reqType flag.2,
        after.sig]
      rfl
    · intro actions harmless command environment data p2 request positive small sentAll
      have after := retrieving_after platform retrieving harmless
      have flag := after.sending.resolve_left fun sending => sentAll sending.1
      rw [head_refused platform environment request positive small (.inr flag.2)]
      rfl
    · intro actions asks
      rw [sentBytes_after asks _ retrieving unsent, first, sentBytes,
        ← flatMap_signaturePart, List.range_eq_range']
      rfl

end Harmless

/-! ## An approval of each kind -/

def fetchFrom (environment : Environment) (index count : ℕ) : List Action :=
  (List.range' index count).map fun part =>
    .command (commandOf 6 2 (UInt8.ofNat part) [] empty_short) environment

theorem request_fetch {p2 : UInt8} (small : p2 ≤ 17) :
    (commandOf 6 2 p2 [] empty_short).request = .signTx [] 2 p2 := by
  have within : ¬ 17 < p2 := UInt8.not_lt.mpr small
  simp [Command.request, commandOf, Command.bytes, within]

theorem asks_fetchFrom (environment : Environment) (count : ℕ) :
    ∀ index, 0 < index → index + count = 17 →
      Asks index (fetchFrom environment index (count + 1)) := by
  induction count with
  | zero =>
      intro index _ last
      subst last
      exact Asks.last (request_fetch (by decide))
  | succ count induction =>
      intro index positive ends
      have same : (UInt8.ofNat index).toNat = index :=
        Nat.mod_eq_of_lt (show index < 256 by omega)
      have first : 0 < UInt8.ofNat index := by
        rw [UInt8.lt_iff_toNat_lt, same]
        exact positive
      have small : UInt8.ofNat index < 17 := by
        rw [UInt8.lt_iff_toNat_lt, same]
        exact (by omega : index < 17)
      have rest : Asks ((UInt8.ofNat index).toNat + 1)
          (fetchFrom environment (index + 1) (count + 1)) := by
        rw [same]
        exact induction (index + 1) (Nat.succ_pos index) (by omega)
      have asks : Asks (UInt8.ofNat index).toNat
          (.command _ environment :: fetchFrom environment (index + 1) (count + 1)) :=
        Asks.next first small (request_fetch (UInt8.le_of_lt small)) rest
      rw [same] at asks
      exact asks

/-- The review of a transaction is approved as it was shown, and the parts are
fetched. -/
theorem fetchable_iff_simple :
    ∃ world released : World, ∃ sig : Vector UInt8 4627,
      (app simplePlatform).after .installed
        [.start, .command (openingCommand 0) derivingEnvironment,
          .command wholeCommand derivingEnvironment] = world ∧
      released = (chooseReview simplePlatform derivingEnvironment true).finish world ∧
      sig = (signedNvm simplePlatform derivingEnvironment world).sig ∧
      Fetchable simplePlatform released sig ∧
      sentBytes ((app simplePlatform).after released
        (fetchFrom derivingEnvironment 1 17)).journal = sig.toList := by
  obtain ⟨pairs, origin, world, _, after, _, shown, type⟩ := reviewed_simple
  have signs := signs_simple derivingEnvironment world.ctx rfl world.nvm
  have fetchable := (fetchable_iff simplePlatform derivingEnvironment world pairs origin shown
    signs (verifies_agreeing simplePlatform signs rfl)).mpr type
  exact ⟨world, _, _, after, rfl, rfl, fetchable,
    fetchable.whole _ (asks_fetchFrom derivingEnvironment 16 1 (by decide) rfl)⟩

def hardenedPathBytes : List UInt8 :=
  [5, 0x80, 0, 0, 0x2c, 0x80, 0, 0, 0xee, 0x80, 0, 0, 0, 0, 0, 0, 0, 0x80, 0, 0, 0]

/-- `GET_PUBLIC_KEY` with a path that the app does not accept. -/
def hardenedCommand : Command := commandOf 5 0 0 hardenedPathBytes

/-- A transaction is reviewed, a request for an address is refused, and the review
approved. -/
theorem not_fetchable :
    ∃ world : World, Reachable simplePlatform Machine.Anything world ∧
      (app simplePlatform).after .installed
          [.start, .command (openingCommand 0) derivingEnvironment,
            .command wholeCommand derivingEnvironment,
            .command hardenedCommand derivingEnvironment] = world ∧
      world.journal.head? = some (.answered (.status .wrongDataLength)) ∧
      (∃ pairs origin, world.review = some (.transaction pairs origin)) ∧
      (signProgram simplePlatform derivingEnvironment world.ctx).value world.nvm = .none ∧
      (verification simplePlatform derivingEnvironment world).value
        (signedNvm simplePlatform derivingEnvironment world) = (.none, true) ∧
      ¬ Fetchable simplePlatform
        ((chooseReview simplePlatform derivingEnvironment true).finish world)
        (signedNvm simplePlatform derivingEnvironment world).sig := by
  obtain ⟨pairs, origin, world, reachable, after, running, shown, _⟩ := reviewed_simple
  have opens : hardenedCommand.request.opens = some (.confirmAddress, hardenedPathBytes) :=
    rfl
  have finish : (apduDispatcher simplePlatform derivingEnvironment hardenedCommand).finish
      world = _ := finish_path_refused simplePlatform derivingEnvironment opens (by decide)
  have later : Reachable simplePlatform Machine.Anything
      ((apduDispatcher simplePlatform derivingEnvironment hardenedCommand).finish world) :=
    Reachable.command _ reachable running trivial
  have sequence : (app simplePlatform).after .installed
      [.start, .command (openingCommand 0) derivingEnvironment,
        .command wholeCommand derivingEnvironment,
        .command hardenedCommand derivingEnvironment] =
      (apduDispatcher simplePlatform derivingEnvironment hardenedCommand).finish world := by
    have parts := Machine.after_append (app simplePlatform) World.installed
      [.start, .command (openingCommand 0) derivingEnvironment,
        .command wholeCommand derivingEnvironment]
      [.command hardenedCommand derivingEnvironment]
    rw [after, Machine.after_cons, Machine.after_nil, perform_command] at parts
    exact parts
  rw [finish] at later sequence
  have type : (((world.record (.received hardenedCommand)).opened simplePlatform
      .confirmAddress hardenedPathBytes).record
        (.answered (.status .wrongDataLength))).ctx.reqType ≠ .confirmTransaction := by
    simp [readRequest_reqType]
  have answered : (((world.record (.received hardenedCommand)).opened simplePlatform
      .confirmAddress hardenedPathBytes).record
        (.answered (.status .wrongDataLength))).journal.head? =
          some (.answered (.status .wrongDataLength)) := rfl
  have still : (((world.record (.received hardenedCommand)).opened simplePlatform
      .confirmAddress hardenedPathBytes).record
        (.answered (.status .wrongDataLength))).review =
          some (.transaction pairs origin) := shown
  generalize ((world.record (.received hardenedCommand)).opened simplePlatform
    .confirmAddress hardenedPathBytes).record (.answered (.status .wrongDataLength)) =
      final at later sequence type answered still
  have signs := signs_simple derivingEnvironment final.ctx rfl final.nvm
  have verifies := verifies_agreeing simplePlatform signs rfl
  exact ⟨final, later, sequence, answered, ⟨pairs, origin, still⟩, signs, verifies,
    not_fetchable_of_reqType still signs verifies type⟩

end LedgerQrl.App
