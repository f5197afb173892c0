import LedgerQrl.App.Paths

namespace LedgerQrl.App

open Foundation Mldsa87 Display Transaction

/-! # What is approved is what is signed

The callbacks read the context again, and commands that arrive while a review is on
the screen rewrite it. An approval is for what the review shows as long as no such
command has cleared the context or completed a transaction since. -/

/-! ## What the journal says of a review -/

def underReview : List Entry → Option (Review × List Entry)
  | [] => none
  | .displayed review :: rest => some (review, rest)
  | _ :: rest => underReview rest

/-- Since a review was displayed, no command has cleared the context, and no last
chunk has been copied. -/
def settled : List Entry → Bool
  | [] => false
  | .displayed _ :: _ => true
  | .started :: _ => false
  | .copied _ true :: _ => false
  | .received command :: rest =>
      if command.request.opens.isSome then false else settled rest
  | _ :: rest => settled rest

def openedBy : List Entry → Option RequestType
  | [] => none
  | .started :: _ => none
  | .received command :: rest =>
      match command.request.opens with
      | some opened => some opened.1
      | none => openedBy rest
  | _ :: rest => openedBy rest

/-- What a review was made from. The address is that of the key of the path, and the
transaction is the one that was streamed in the session, decoded and permitted. -/
def Review.ShownAfter (platform : Platform) : Review → List Entry → Prop
  | .address text, journal => ∃ path rawSeed earlier,
      journal = .derives path (.ok rawSeed) :: earlier ∧
        text = checksummed platform.shake.shake256 (addressOf platform rawSeed)
  | .transaction pairs origin, journal =>
      ∃ tx settings rawSeed blindSigning data command earlier,
        journal = .derives origin.path (.ok rawSeed) :: .checked blindSigning ::
          .copied data true :: .received command :: earlier ∧
        openedBy journal = some .confirmTransaction ∧
        origin.transaction = (acceptedChunks journal).flatten ∧
        origin.address = addressOf platform rawSeed ∧
        decodeLedgerTx platform.sizeWidth origin.transaction .zero = .ok tx ∧
        pairs = reviewPairs platform.shake.shake256 settings origin.address
          (keccak256 platform.permutation origin.transaction).toList tx ∧
        ((tx.hasData || tx.hasAccessList) = true → blindSigning = true)

/-- A transaction is signed, and an address answered, as the approved review has
shown it. -/
def Entry.AsReviewed (platform : Platform) : Entry → List Entry → Prop
  | .signs path message, rest => ∃ pairs origin before shown,
      rest = .chose (.transaction pairs origin) true :: before ∧
        underReview before = some (.transaction pairs origin, shown) ∧
        (Review.transaction pairs origin).ShownAfter platform shown ∧
        path = origin.path ∧
        message = keccak256 platform.permutation origin.transaction
  | .answered (.address bytes), .chose (.address text) true :: before =>
      ∃ (address : Vector UInt8 addressSize) (shown : List Entry),
        underReview before = some (.address text, shown) ∧
          (Review.address text).ShownAfter platform shown ∧
          text = checksummed platform.shake.shake256 address ∧
          bytes = zondAddressPrefix :: address.toList
  | _, _ => True

/-- Reviews are approved only as long as what they were made from is settled. -/
def ApprovesSettled (world : World) : Action → Prop
  | .choose confirm _ => confirm = true → settled world.journal = true
  | _ => True

/-! ## While a review is settled -/

/-- The context still holds what a review shows. -/
def GlobalCtx.Holds (platform : Platform) (ctx : GlobalCtx) : Review → Prop
  | .address text => text = checksummed platform.shake.shake256 ctx.address
  | .transaction _ origin =>
      ctx.path = origin.path ∧ ctx.mHash = keccak256 platform.permutation origin.transaction

structure World.Reviewing (platform : Platform) (world : World) : Prop where
  assembled : world.Assembled
  opened : world.ctx.reqType = .confirmTransaction →
    openedBy world.journal = some .confirmTransaction
  holds : ∀ review, world.review = some review → settled world.journal = true →
    ∃ shown, underReview world.journal = some (review, shown) ∧
      review.ShownAfter platform shown ∧ world.ctx.Holds platform review

section Reviewing

variable {platform : Platform} {environment : Environment} {world final : World}

theorem settled_opened {command : Command} {opened : RequestType × List UInt8}
    (opens : command.request.opens = some opened) (journal : List Entry) :
    settled (.received command :: journal) = false := by
  rw [settled, opens]
  rfl

theorem settled_received {command : Command} (opens : command.request.opens = none)
    (journal : List Entry) :
    settled (.received command :: journal) = settled journal := by
  rw [settled, opens]
  rfl

theorem openedBy_opened {command : Command} {opened : RequestType × List UInt8}
    (opens : command.request.opens = some opened) (journal : List Entry) :
    openedBy (.received command :: journal) = some opened.1 := by
  rw [openedBy, opens]

theorem openedBy_received {command : Command} (opens : command.request.opens = none)
    (journal : List Entry) :
    openedBy (.received command :: journal) = openedBy journal := by
  rw [openedBy, opens]

theorem GlobalCtx.Holds.congr {ctx other : GlobalCtx} {review : Review}
    (holds : ctx.Holds platform review) (path : other.path = ctx.path)
    (digest : other.mHash = ctx.mHash) (address : other.address = ctx.address) :
    other.Holds platform review := by
  cases review with
  | address text => exact holds.trans (by rw [address])
  | transaction pairs origin => exact ⟨path.trans holds.1, digest.trans holds.2⟩

theorem World.Reviewing.holds_congr {other : World} (reviewing : world.Reviewing platform)
    (review : other.review = world.review)
    (unsettled : settled other.journal = true → settled world.journal = true)
    (under : underReview other.journal = underReview world.journal)
    (path : other.ctx.path = world.ctx.path) (digest : other.ctx.mHash = world.ctx.mHash)
    (address : other.ctx.address = world.ctx.address) :
    ∀ current, other.review = some current → settled other.journal = true →
      ∃ shown, underReview other.journal = some (current, shown) ∧
        current.ShownAfter platform shown ∧ other.ctx.Holds platform current := by
  intro current displayed still
  obtain ⟨shown, latest, made, holds⟩ :=
    reviewing.holds current (review.symm.trans displayed) (unsettled still)
  exact ⟨shown, under.trans latest, made, holds.congr path digest address⟩

theorem shownAfter_reviewed {command : Command} {data : List UInt8} {tx : ZondTx}
    {rawSeed : Vector UInt8 64}
    (opened : openedBy (.received command :: world.journal) = some .confirmTransaction)
    (bytes : (world.ctx.appended data).transaction =
      (acceptedChunks (.copied data true :: .received command :: world.journal)).flatten)
    (decoded : decodeLedgerTx platform.sizeWidth (world.ctx.appended data).transaction .zero =
      .ok tx)
    (permitted : (tx.hasData || tx.hasAccessList) = true →
      world.nvm.enableBlindSigning ≠ 0) :
    (((((world.record (.received command)).examined platform data).addressed platform
      rawSeed).transactionReview platform tx).ShownAfter platform
        (((world.record (.received command)).examined platform data).addressed platform
          rawSeed).journal) := by
  have path : (((world.record (.received command)).examined platform data).addressed platform
      rawSeed).ctx.path =
        ((world.record (.received command)).examined platform data).ctx.path :=
    addressed_path rawSeed _
  have copied : ((world.record (.received command)).examined platform data).ctx.transaction =
      (world.ctx.appended data).transaction := rfl
  have digest : ((world.record (.received command)).examined platform data).ctx.mHash =
      keccak256 platform.permutation (world.ctx.appended data).transaction := rfl
  have journal := examined_journal platform (world.record (.received command)) data
  generalize (world.record (.received command)).examined platform data = examined
    at path copied digest journal ⊢
  have transaction : (examined.addressed platform rawSeed).ctx.transaction =
      examined.ctx.transaction := rfl
  refine ⟨tx, reviewSettings (examined.addressed platform rawSeed).nvm, rawSeed,
    decide (world.nvm.enableBlindSigning ≠ 0), data, command, world.journal, ?_, ?_, ?_, ?_,
    ?_, ?_, ?_⟩
  · rw [World.addressed_journal, journal, path]
    rfl
  · rw [World.addressed_journal, journal]
    exact opened
  · rw [World.addressed_journal, journal]
    exact (transaction.trans copied).trans bytes
  · rfl
  · exact (congrArg (decodeLedgerTx platform.sizeWidth · .zero)
      (transaction.trans copied)).trans decoded
  · dsimp only
    rw [transaction, copied, ← digest]
    rfl
  · intro blind
    exact decide_eq_true (permitted blind)

def World.KnowsReview (platform : Platform) (world : World) : Prop :=
  world.running = true → world.Reviewing platform

theorem Served.reviewing {command : Command} (reviewing : world.Reviewing platform)
    (served : Served platform environment (world.record (.received command))
      command.request final) : final.Reviewing platform := by
  have assembled : final.Assembled := served.assembled reviewing.assembled
  have session : command.request.opens = none → world.ctx.reqType = .confirmTransaction →
      openedBy (.received command :: world.journal) = some .confirmTransaction :=
    fun opens transaction => (openedBy_received opens _).trans (reviewing.opened transaction)
  have begun : ∀ reqType data, command.request.opens = some (reqType, data) →
      (readRequest platform reqType data).1.reqType = .confirmTransaction →
        openedBy (.received command :: world.journal) = some .confirmTransaction := by
    intro reqType data opens transaction
    rw [readRequest_reqType] at transaction
    rw [openedBy_opened opens, transaction]
  have unsettled : ∀ opened, command.request.opens = some opened →
      settled (.received command :: world.journal) = false :=
    fun opened opens => settled_opened opens _
  have dropped : ∀ {other : World}, settled other.journal = false →
      ∀ current, other.review = some current → settled other.journal = true →
        ∃ shown, underReview other.journal = some (current, shown) ∧
          current.ShownAfter platform shown ∧ other.ctx.Holds platform current := by
    intro other unsettled current _ still
    rw [unsettled] at still
    cases still
  have kept : command.request.opens = none → ∀ {other : World}, other.review = world.review →
      settled other.journal = settled (.received command :: world.journal) →
      underReview other.journal = underReview (.received command :: world.journal) →
      other.ctx.path = world.ctx.path → other.ctx.mHash = world.ctx.mHash →
      other.ctx.address = world.ctx.address →
        ∀ current, other.review = some current → settled other.journal = true →
          ∃ shown, underReview other.journal = some (current, shown) ∧
            current.ShownAfter platform shown ∧ other.ctx.Holds platform current :=
    fun opens _ review same under path digest address =>
      reviewing.holds_congr review
        (fun still => (settled_received opens _).symm.trans (same.symm.trans still)) under
        path digest address
  generalize command.request = request at served session begun unsettled kept
  cases served with
  | turnedAway turned =>
      exact ⟨assembled, session turned.opens, kept turned.opens rfl rfl rfl rfl rfl rfl⟩
  | version => exact ⟨assembled, session rfl, kept rfl rfl rfl rfl rfl rfl rfl⟩
  | appName => exact ⟨assembled, session rfl, kept rfl rfl rfl rfl rfl rfl rfl⟩
  | publicKey _ => exact ⟨assembled, session rfl, kept rfl rfl rfl rfl rfl rfl rfl⟩
  | pathRefused opens _ =>
      exact ⟨assembled, begun _ _ opens, dropped (unsettled _ opens)⟩
  | sessionOpened _ =>
      exact ⟨assembled, begun _ _ rfl, dropped (unsettled _ rfl)⟩
  | addressUnderivable _ _ =>
      exact ⟨assembled, begun _ _ rfl, dropped (unsettled _ rfl)⟩
  | addressAnswered _ _ =>
      exact ⟨assembled, begun _ _ rfl, dropped (unsettled _ rfl)⟩
  | addressShown _ _ =>
      refine ⟨assembled, begun _ _ rfl, fun current displayed _ => ?_⟩
      cases displayed
      exact ⟨_, rfl, ⟨_, _, _, rfl, rfl⟩, rfl⟩
  | chunkTaken transaction fits =>
      refine ⟨assembled, fun _ => session rfl transaction, ?_⟩
      exact kept rfl (by simp) (by simp [settled]) (by simp [underReview])
        (by simp [appended_path]) (by simp) (by simp)
  | undecodable transaction fits _ =>
      exact ⟨assembled, fun _ => session rfl transaction, dropped (by simp [settled])⟩
  | forbidden transaction fits _ _ _ =>
      exact ⟨assembled, fun _ => session rfl transaction, dropped (by simp [settled])⟩
  | underivable transaction fits _ _ _ =>
      exact ⟨assembled, fun _ => session rfl transaction, dropped (by simp [settled])⟩
  | reviewShown transaction fits decoded permitted _ =>
      refine ⟨assembled, fun _ => session rfl transaction, fun current displayed _ => ?_⟩
      cases displayed
      have bytes := (assembled (by simpa using transaction)).2
      refine ⟨_, rfl, shownAfter_reviewed (session rfl transaction) bytes decoded permitted,
        ?_⟩
      exact ⟨rfl, rfl⟩
  | signature _ _ _ _ => exact ⟨assembled, session rfl, kept rfl rfl rfl rfl rfl rfl rfl⟩
  | lastSignature _ _ => exact ⟨assembled, session rfl, kept rfl rfl rfl rfl rfl rfl rfl⟩

theorem Served.asReviewed {command : Command}
    (always : Always (fun entry rest => entry.AsReviewed platform rest) world.journal)
    (served : Served platform environment (world.record (.received command))
      command.request final) :
    Always (fun entry rest => entry.AsReviewed platform rest) final.journal := by
  generalize command.request = request at served
  cases served with
  | turnedAway _ => exact ⟨trivial, trivial, always⟩
  | version => exact ⟨trivial, trivial, always⟩
  | appName => exact ⟨trivial, trivial, always⟩
  | publicKey _ => exact ⟨trivial, trivial, always⟩
  | pathRefused _ _ => exact ⟨trivial, trivial, always⟩
  | sessionOpened _ => exact ⟨trivial, trivial, always⟩
  | addressUnderivable _ _ => exact ⟨trivial, trivial, trivial, always⟩
  | addressAnswered _ _ => exact ⟨trivial, trivial, trivial, always⟩
  | addressShown _ _ => exact ⟨trivial, trivial, trivial, always⟩
  | chunkTaken _ _ => simpa [Entry.AsReviewed] using always
  | undecodable _ _ _ => simpa [Entry.AsReviewed] using always
  | forbidden _ _ _ _ _ => simpa [Entry.AsReviewed] using always
  | underivable _ _ _ _ _ => simpa [Entry.AsReviewed] using always
  | reviewShown _ _ _ _ _ => simpa [Entry.AsReviewed] using always
  | signature _ _ _ _ => exact ⟨trivial, trivial, always⟩
  | lastSignature _ _ => exact ⟨trivial, trivial, always⟩

theorem Chosen.reviewing {review : Review} {confirm : Bool}
    (reviewing : world.Reviewing platform)
    (chosen : Chosen platform environment (world.answering review confirm) review confirm
      final) : final.Reviewing platform := by
  refine ⟨chosen.assembled reviewing.assembled, fun transaction => ?_, fun current shown => ?_⟩
  · obtain ⟨state, ctx⟩ := chosen.ctx
    rw [ctx] at transaction
    have opened := reviewing.opened transaction
    have written : ∀ (writes : ℕ) (journal : List Entry),
        openedBy (List.replicate writes .sigWritten ++ journal) = openedBy journal := by
      intro writes journal
      induction writes with
      | zero => rfl
      | succ writes induction => exact induction
    cases chosen with
    | addressConfirmed => exact opened
    | addressRejected => exact opened
    | transactionRejected => exact opened
    | signingFailed writes _ => exact (written writes _).trans opened
    | verificationFailed writes _ _ => exact (written writes _).trans opened
    | released writes _ _ => exact (written writes _).trans opened
  · have none : final.review = none := chosen.running.2
    rw [none] at shown
    cases shown

theorem Chosen.asReviewed {review : Review} {confirm : Bool}
    (reviewing : world.Reviewing platform)
    (always : Always (fun entry rest => entry.AsReviewed platform rest) world.journal)
    (shown : world.review = some review)
    (approves : ApprovesSettled world (.choose confirm environment))
    (chosen : Chosen platform environment (world.answering review confirm) review confirm
      final) : Always (fun entry rest => entry.AsReviewed platform rest) final.journal := by
  have signed : ∀ pairs origin, review = .transaction pairs origin → confirm = true →
      (Entry.signs world.ctx.path world.ctx.mHash).AsReviewed platform
        (.chose review confirm :: world.journal) := by
    intro pairs origin equal confirmed
    subst equal confirmed
    obtain ⟨before, latest, made, path, digest⟩ :=
      reviewing.holds _ shown (approves rfl)
    exact ⟨pairs, origin, world.journal, before, rfl, latest, made, path, digest⟩
  have written : ∀ (writes : ℕ) {journal : List Entry},
      Always (fun entry rest => entry.AsReviewed platform rest) journal →
        Always (fun entry rest => entry.AsReviewed platform rest)
          (List.replicate writes .sigWritten ++ journal) :=
    fun writes _ => (always_replicate_append (fun _ => trivial) writes).mpr
  cases chosen with
  | @addressConfirmed text =>
      obtain ⟨before, latest, made, holds⟩ := reviewing.holds _ shown (approves rfl)
      exact ⟨⟨world.ctx.address, before, latest, made, holds, rfl⟩, trivial, always⟩
  | addressRejected => exact ⟨trivial, trivial, always⟩
  | transactionRejected => exact ⟨trivial, trivial, always⟩
  | signingFailed writes _ =>
      rw [unsigned_journal]
      exact ⟨trivial, written writes ⟨trivial, signed _ _ rfl rfl, trivial, always⟩⟩
  | verificationFailed writes _ _ =>
      rw [unsigned_journal]
      exact ⟨trivial, trivial, trivial,
        written writes ⟨trivial, signed _ _ rfl rfl, trivial, always⟩⟩
  | released writes _ _ =>
      rw [World.released_journal]
      exact ⟨trivial, trivial, trivial,
        written writes ⟨trivial, signed _ _ rfl rfl, trivial, always⟩⟩

/-- In runs that keep to the condition, what is signed or answered is what the approved
review has shown. -/
theorem approved_is_signed (platform : Platform) (world : World)
    (reachable : Reachable platform ApprovesSettled world) :
    Always (fun entry rest => entry.AsReviewed platform rest) world.journal := by
  have kept : world.KnowsReview platform ∧
      Always (fun entry rest => entry.AsReviewed platform rest) world.journal := by
    refine Reachable.always ?_ ?_ ?_ ?_ ?_ reachable
    · intro world off running
      rw [off] at running
      cases running
    · intro world _ always
      rw [finish_appStart]
      refine ⟨fun _ => ⟨fun transaction => ?_, fun transaction => ?_, fun review _ still => ?_⟩,
        trivial, always⟩
      · cases transaction
      · cases transaction
      · cases still
    · intro world final command environment known always running _ served
      exact ⟨fun _ => served.reviewing (known running), served.asReviewed always⟩
    · intro world final review confirm environment known always running shown approves chosen
      exact ⟨fun _ => chosen.reviewing (known running),
        chosen.asReviewed (known running) always shown approves⟩
    · intro world nvm known _ _ _ running
      exact ⟨(known running).assembled, (known running).opened, (known running).holds⟩
  exact kept.2

end Reviewing

/-! ## An approval of each kind -/

theorem Chosen.signs {platform : Platform} {environment : Environment} {world final : World}
    {pairs : List Pair} {origin : Origin}
    (chosen : Chosen platform environment
      (world.answering (.transaction pairs origin) true) (.transaction pairs origin) true
      final) :
    ∃ newer, final.journal = newer ++ .signs world.ctx.path world.ctx.mHash ::
      .chose (.transaction pairs origin) true :: world.journal := by
  have split : ∀ (newer : List Entry) (writes : ℕ) (derived entry : Entry)
      (rest : List Entry),
      newer ++ (List.replicate writes .sigWritten ++ derived :: entry :: rest) =
        (newer ++ (List.replicate writes .sigWritten ++ [derived])) ++ entry :: rest := by
    intro newer writes derived entry rest
    rw [List.append_assoc, List.append_assoc, List.singleton_append]
  cases chosen with
  | signingFailed writes _ =>
      rw [unsigned_journal]
      exact ⟨_, split [_] writes _ _ _⟩
  | verificationFailed writes _ _ =>
      rw [unsigned_journal]
      exact ⟨_, split [_, _, _] writes _ _ _⟩
  | released writes _ _ =>
      rw [World.released_journal]
      exact ⟨_, split [_, _, _] writes _ _ _⟩

theorem reachable_underReview {allowed : World → Action → Prop} {world : World}
    (reachable : Reachable simplePlatform allowed world) (running : world.running = true)
    (opening : allowed world (.command (openingCommand 0) derivingEnvironment))
    (whole : allowed (world.inSession 0) (.command wholeCommand derivingEnvironment)) :
    ∃ shown, (app simplePlatform).after world (toReview 0) = shown ∧
      Reachable simplePlatform allowed shown ∧ shown.running = true ∧
      shown.ctx.reqType = .confirmTransaction ∧
      shown.nvm.isSendingSignature = world.nvm.isSendingSignature ∧
      settled shown.journal = true ∧ (∀ entry ∈ world.journal, entry ∈ shown.journal) ∧
      ∃ pairs origin, shown.review = some (.transaction pairs origin) := by
  obtain ⟨tx, after, reviewed⟩ :=
    reachable_reviewed 0 (.inl rfl) reachable running opening whole
  have session : (world.inSession 0).running = true := running
  have running := (reviewed_running simplePlatform wholeCommand emptyTransaction
    (Vector.replicate 64 0) tx (world.inSession 0)).trans session
  have transaction := (reviewed_reqType simplePlatform wholeCommand emptyTransaction
    (Vector.replicate 64 0) tx (world.inSession 0)).trans (inSession_transaction 0 world).1
  refine ⟨_, after, reviewed, running, transaction, ?_, rfl, ?_,
    reviewed_review simplePlatform wholeCommand emptyTransaction (Vector.replicate 64 0) tx
      (world.inSession 0)⟩
  · rw [reviewed_nvm, keyed_isSendingSignature]
    rfl
  · intro entry member
    simp [World.reviewed, World.inSession, member]

/-- A transaction is reviewed and approved. -/
theorem approved_is_signed_simple :
    ∃ world : World, (∃ newer path message older,
        world.journal = newer ++ .signs path message :: older) ∧
      Always (fun entry rest => entry.AsReviewed simplePlatform rest) world.journal := by
  have started : Reachable simplePlatform ApprovesSettled World.started :=
    Machine.Reaches.performed .start
      (show (app simplePlatform).enabled .installed .start from rfl) trivial
  obtain ⟨world, _, reviewed, running, _, _, still, _, pairs, origin, shown⟩ :=
    reachable_underReview started started_running trivial trivial
  have approved : Reachable simplePlatform ApprovesSettled
      ((chooseReview simplePlatform derivingEnvironment true).finish world) :=
    Reachable.choose reviewed running (by rw [shown]; rfl) fun _ => still
  obtain ⟨newer, journal⟩ := (chosen_review shown true).signs
  exact ⟨_, ⟨newer, _, _, _, journal⟩, approved_is_signed simplePlatform _ approved⟩

/-- A transaction is reviewed, a session is opened with another path, and the review is
approved. -/
theorem not_approved_is_signed :
    ∃ world : World, (app simplePlatform).after World.started
        (toReview 0 ++ [.command (openingCommand 1) derivingEnvironment,
          .choose true derivingEnvironment]) = world ∧
      Reachable simplePlatform Machine.Anything world ∧
      ¬ Always (fun entry rest => entry.AsReviewed simplePlatform rest) world.journal := by
  obtain ⟨tx, after, reviewed⟩ := reachable_reviewed 0 (.inl rfl)
    (reachable_started simplePlatform) started_running trivial trivial
  have running := (reviewed_running simplePlatform wholeCommand emptyTransaction
    (Vector.replicate 64 0) tx (World.started.inSession 0)).trans started_running
  have path := reviewed_path simplePlatform wholeCommand emptyTransaction
    (Vector.replicate 64 0) tx (World.started.inSession 0)
  have shown : ∃ pairs origin, ((World.started.inSession 0).reviewed simplePlatform
      wholeCommand emptyTransaction (Vector.replicate 64 0) tx).review =
        some (.transaction pairs origin) ∧
      origin.path = ((World.started.inSession 0).reviewed simplePlatform wholeCommand
        emptyTransaction (Vector.replicate 64 0) tx).ctx.path := ⟨_, _, rfl, rfl⟩
  obtain ⟨pairs, origin, shown, origins⟩ := shown
  rw [path, inSession_ctx] at origins
  generalize (World.started.inSession 0).reviewed simplePlatform wholeCommand
    emptyTransaction (Vector.replicate 64 0) tx = world at after reviewed running shown
  have opened : Reachable simplePlatform Machine.Anything (world.inSession 1) := by
    rw [← finish_openingCommand derivingEnvironment (.inr rfl)]
    exact Reachable.command _ reviewed running trivial
  have still : (world.inSession 1).review = some (.transaction pairs origin) := shown
  have session : (world.inSession 1).running = true := running
  have approved : Reachable simplePlatform Machine.Anything
      ((chooseReview simplePlatform derivingEnvironment true).finish (world.inSession 1)) :=
    Reachable.choose opened session (by rw [still]; rfl) trivial
  obtain ⟨newer, journal⟩ := (chosen_review still true).signs
  refine ⟨_, ?_, approved, fun always => ?_⟩
  · rw [Machine.after_append, after, Machine.after_cons, perform_command,
      finish_openingCommand _ (.inr rfl), Machine.after_cons, perform_choose,
      Machine.after_nil]
  · rw [journal] at always
    obtain ⟨_, other, _, _, approval, _, _, used, _⟩ := always.append.1
    cases approval
    rw [inSession_ctx, origins] at used
    exact path_pathBytes .confirmTransaction used.symm

end LedgerQrl.App
