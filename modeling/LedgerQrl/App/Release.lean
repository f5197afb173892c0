import LedgerQrl.App.Approval
import LedgerQrl.App.Retrieval

namespace LedgerQrl.App

open Foundation Mldsa87 Display Transaction

/-! # What is released has been verified

The buffer of the signature is scratch space of signing, and nothing but its last
part clears the flag under which it is sent. A part of an unverified signature
leaves the device only when it is asked for after a signing that has failed, or
that a loss of power has cut off. -/

/-! ## What the journal says of verification -/

def latestSigns : List Entry → Bool
  | .signs .. :: _ => true
  | _ => false

/-- The signature that has been verified since the last signing that derived its
seed, and since the last write. -/
def verifiedSig : List Entry → Option (Vector UInt8 4627)
  | [] => none
  | .sigWritten :: _ => none
  | .verified sig true :: _ => some sig
  | .derives _ (.ok _) :: rest => if latestSigns rest then none else verifiedSig rest
  | _ :: rest => verifiedSig rest

/-- Whether the last signing that derived its seed has not been verified. -/
def signingOpen : List Entry → Bool
  | [] => false
  | .verified _ true :: _ => false
  | .derives _ (.ok _) :: rest => latestSigns rest || signingOpen rest
  | _ :: rest => signingOpen rest

/-- What is sent of a signature has been verified. -/
def Entry.OfVerified : Entry → List Entry → Prop
  | .answered (.signature index bytes), rest =>
      ∃ sig, verifiedSig rest = some sig ∧ index < 18 ∧ bytes = signaturePart sig index
  | _, _ => True

/-- A part is not asked for while the flag is set and the last signing that derived
its seed has not been verified. -/
def AsksAfterVerification (world : World) : Action → Prop
  | .command command _ => ∀ data p1 p2, command.request = .signTx data p1 p2 →
      AsksSignature p1 p2 → world.ctx.reqType = .confirmTransaction →
      world.nvm.isSendingSignature ≠ 0 → signingOpen world.journal = false
  | _ => True

/-! ## Steps that concern no signature -/

/-- A property that is kept by every step but those of signing and of the release
of its result. -/
structure Undisturbed (Holds : World → Prop) : Prop where
  running : ∀ world running, Holds world → Holds { world with running := running }
  ctx : ∀ world ctx, Holds world → Holds { world with ctx := ctx }
  review : ∀ world review, Holds world → Holds { world with review := review }
  nvm : ∀ world nvm, nvm.sig = world.nvm.sig →
    nvm.isSendingSignature = world.nvm.isSendingSignature ∨ nvm.isSendingSignature = 0 →
      Holds world → Holds { world with nvm := nvm }
  record : ∀ world entry, entry.Quiet → Holds world → Holds (world.record entry)

def Plainly {Result : Type} (program : AppProgram Result) : Prop :=
  ∀ Holds, Undisturbed Holds → Program.Preserves Holds program

section Rules

variable {Result Next : Type}

theorem plainly_pure (result : Result) : Plainly (pure result) :=
  fun _ _ => Program.preserves_pure result

theorem plainly_read : Plainly Program.read := fun _ _ => Program.preserves_read

theorem plainly_bind {program : AppProgram Result} {next : Result → AppProgram Next}
    (first : Plainly program) (second : ∀ result, Plainly (next result)) :
    Plainly (program >>= next) :=
  fun Holds undisturbed => Program.preserves_bind (first Holds undisturbed)
    fun result => second result Holds undisturbed

theorem plainly_record {entry : Entry} (quiet : entry.Quiet) : Plainly (record entry) :=
  fun _ undisturbed => Program.preserves_update fun world =>
    undisturbed.record world entry quiet

theorem plainly_setCtx (change : GlobalCtx → GlobalCtx) : Plainly (setCtx change) :=
  fun _ undisturbed => Program.preserves_update fun world =>
    undisturbed.ctx world (change world.ctx)

theorem plainly_display (review : Review) : Plainly (display review) :=
  fun _ undisturbed => Program.preserves_update fun world holds =>
    undisturbed.record _ (.displayed review) trivial
      (undisturbed.review world (some review) holds)

theorem plainly_onNvm {program : NvmProgram Result}
    (keeps : Keeps InternalStorage.sig program)
    (flag : ∀ storage, ∀ nvm ∈ program.visited storage,
      nvm.isSendingSignature = storage.isSendingSignature ∨ nvm.isSendingSignature = 0) :
    Plainly (onNvm program) := by
  intro Holds undisturbed world holds content member
  obtain ⟨nvm, inside, equal⟩ := visited_onNvm keeps (List.mem_cons_of_mem world member)
  rw [equal]
  exact undisturbed.nvm world nvm (keeps.visited inside) (flag _ nvm inside) holds

theorem plainly_lasting {program : NvmProgram Result} (keeps : Keeps lasting program) :
    Plainly (onNvm program) :=
  plainly_onNvm (keeps_sig_of_lasting keeps) fun _ _ member =>
    .inl (of_flags (of_lasting (keeps.visited member)).2).2

end Rules

theorem plainly_writeIsSendingSignature : Plainly (writeIsSendingSignature 0) := by
  refine plainly_onNvm (keeps_update fun _ => rfl) fun storage nvm member => ?_
  rcases Program.mem_visited_update.mp member with equal | equal
  · exact .inl (equal ▸ rfl)
  · exact .inr (equal ▸ rfl)

theorem kept_plainly : KeptByRequests fun _ program => Plainly program where
  pure := plainly_pure
  bind first second := plainly_bind first second
  read _ each := plainly_bind plainly_read each
  quiet quiet := plainly_record quiet
  setCtx := plainly_setCtx
  display := plainly_display
  lower := plainly_writeIsSendingSignature
  generate shake seed := plainly_lasting (keeps_newMldsa87FromSeed shake seed)

/-! ## Signing and verification -/

/-- Once the last signing has been verified, the verified signature is the content
of the buffer; `held` says so of a signature that is not sent yet. -/
def World.Trusted (held : Prop) (world : World) : Prop :=
  held ∨ world.nvm.isSendingSignature ≠ 0 → signingOpen world.journal = false →
    verifiedSig world.journal = some world.nvm.sig

structure World.Sound (held : Prop) (world : World) : Prop where
  idle : latestSigns world.journal = false
  trusted : world.Trusted held

structure World.Signs (world : World) : Prop where
  idle : latestSigns world.journal = false
  unverified : signingOpen world.journal = true

section Journal

variable {world : World} {held : Prop} {entry : Entry} {journal : List Entry}

theorem quiet_entry (quiet : entry.Quiet) (idle : latestSigns journal = false) :
    latestSigns (entry :: journal) = false ∧
      signingOpen (entry :: journal) = signingOpen journal ∧
      verifiedSig (entry :: journal) = verifiedSig journal := by
  cases entry with
  | signs => cases quiet
  | sigWritten => cases quiet
  | verified => cases quiet
  | derives path outcome =>
      cases outcome with
      | error error => exact ⟨rfl, rfl, rfl⟩
      | ok rawSeed =>
          rw [signingOpen, verifiedSig, idle]
          exact ⟨rfl, rfl, rfl⟩
  | _ => exact ⟨rfl, rfl, rfl⟩

theorem signingOpen_sigWritten (writes : ℕ) (idle : latestSigns journal = false) :
    signingOpen (List.replicate writes .sigWritten ++ journal) = signingOpen journal ∧
      latestSigns (List.replicate writes .sigWritten ++ journal) = false := by
  induction writes with
  | zero => exact ⟨rfl, idle⟩
  | succ writes induction => exact ⟨induction.1, rfl⟩

theorem World.Signs.sound (signs : world.Signs) : world.Sound held where
  idle := signs.idle
  trusted _ settled := by
    rw [signs.unverified] at settled
    cases settled

theorem undisturbed_sound (held : Prop) : Undisturbed (World.Sound held) where
  running _ _ sound := ⟨sound.idle, sound.trusted⟩
  ctx _ _ sound := ⟨sound.idle, sound.trusted⟩
  review _ _ sound := ⟨sound.idle, sound.trusted⟩
  nvm world nvm sig flag sound := by
    refine ⟨sound.idle, fun sending settled => ?_⟩
    have before : held ∨ world.nvm.isSendingSignature ≠ 0 := by
      rcases sending with sending | sending
      · exact .inl sending
      · rcases flag with same | cleared
        · exact .inr (same ▸ sending)
        · exact absurd cleared sending
    exact (sound.trusted before settled).trans (congrArg some sig.symm)
  record world entry quiet sound := by
    obtain ⟨idle, settled, verified⟩ := quiet_entry quiet sound.idle
    refine ⟨idle, fun sending closed => ?_⟩
    exact verified.trans (sound.trusted sending (settled.symm.trans closed))

end Journal

section Signing

variable {platform : Platform} {environment : Environment} {world content : World}
  {held : Prop} {Result : Type}

theorem Plainly.visited {program : AppProgram Result} (plainly : Plainly program)
    (sound : world.Sound held) (member : content ∈ program.visited world) :
    content.Sound held :=
  (plainly _ (undisturbed_sound held)).visited sound member

theorem World.Signs.visited {program : NvmProgram Result} (signs : world.Signs)
    (member : content ∈ (onNvm program).visited world) : content.Signs := by
  obtain ⟨nvm, _, writes, equal⟩ := stored_visited member
  obtain ⟨unverified, idle⟩ := signingOpen_sigWritten writes signs.idle
  rw [equal]
  exact ⟨idle, unverified.trans signs.unverified⟩

theorem World.Signs.record (signs : world.Signs) {entry : Entry} (quiet : entry.Quiet) :
    (world.record entry).Signs := by
  obtain ⟨idle, unverified, _⟩ := quiet_entry quiet signs.idle
  exact ⟨idle, unverified.trans signs.unverified⟩

theorem World.Signs.verified (signs : world.Signs) (isVerified : Bool) :
    (world.record (.verified world.nvm.sig isVerified)).Sound (isVerified = true) := by
  cases isVerified with
  | false =>
      have still : (world.record (.verified world.nvm.sig false)).Signs :=
        ⟨rfl, signs.unverified⟩
      exact still.sound
  | true => exact ⟨rfl, fun _ _ => rfl⟩

variable {sign : NvmProgram ErrorCode} {verifying : Entry}
  {verify : List UInt8 → NvmProgram (ErrorCode × Bool)}

theorem visited_signAndVerify_fails (fails : sign.value world.nvm ≠ .none)
    (signed : ((onNvm sign).finish world).Sound held)
    (member : content ∈ (signAndVerify sign verifying verify).visited world) :
    content ∈ (onNvm sign).visited world ∨ content.Sound held := by
  rcases Program.mem_visited_bind.mp member with member | member
  · exact .inl member
  · rw [value_onNvm, if_pos fails] at member
    have wiped : Plainly (do onNvm wipeNvmSecrets; pure false) :=
      plainly_bind (plainly_lasting keeps_lasting_wipe) fun _ => plainly_pure _
    exact .inr (wiped.visited signed member)

theorem visited_signAndVerify_signs (signs : world.Signs)
    (succeeds : sign.value world.nvm = .none) (quiet : verifying.Quiet)
    (keeps : ∀ sig, Keeps lasting (verify sig))
    (member : content ∈ (signAndVerify sign verifying verify).visited world) :
    content.Sound ((signAndVerify sign verifying verify).value world = true) ∨
      content.Signs := by
  rcases Program.mem_visited_bind.mp member with member | member
  · exact .inr (signs.visited member)
  have signed : ((onNvm sign).finish world).Signs :=
    signs.visited (Program.finish_mem_visited _ _)
  have accepted : (signAndVerify sign verifying verify).value world = true →
      ((onNvm (verify ((onNvm sign).finish world).nvm.sig.toList)).value
        (((onNvm sign).finish world).record verifying)).2 = true := by
    intro result
    rw [signAndVerify, Program.value_bind, value_onNvm,
      if_neg (not_not_intro succeeds)] at result
    simp only [Program.value_bind, Program.value_read, Program.finish_read, finish_record,
      Program.value_pure] at result
    cases value : (onNvm (verify ((onNvm sign).finish world).nvm.sig.toList)).value
        (((onNvm sign).finish world).record verifying) with
    | mk error isVerified =>
        rw [value] at result
        cases error with
        | none => exact result
        | _ => cases result
  generalize ((signAndVerify sign verifying verify).value world = true) = released
    at accepted ⊢
  rw [value_onNvm, if_neg (not_not_intro succeeds)] at member
  generalize (onNvm sign).finish world = world at signed accepted member
  rw [Program.visited_read_bind] at member
  rcases Program.mem_visited_update_bind.mp member with equal | member
  · exact .inr (equal ▸ signed)
  have verifies : (world.record verifying).Signs := signed.record quiet
  rcases Program.mem_visited_bind.mp member with member | member
  · exact .inr (verifies.visited member)
  have kept := finish_onNvm (keeps_sig_of_lasting (keeps world.nvm.sig.toList))
    (world.record verifying)
  have after : ((onNvm (verify world.nvm.sig.toList)).finish
      (world.record verifying)).Signs := verifies.visited (Program.finish_mem_visited _ _)
  have same : world.nvm.sig = ((onNvm (verify world.nvm.sig.toList)).finish
      (world.record verifying)).nvm.sig := by
    rw [kept]
    exact ((keeps_sig_of_lasting (keeps world.nvm.sig.toList)).finish _).symm
  generalize (onNvm (verify world.nvm.sig.toList)).value (world.record verifying) = result
    at accepted member
  generalize (onNvm (verify world.nvm.sig.toList)).finish (world.record verifying) = last
    at after same member
  rw [same] at member
  have recorded := after.verified result.2
  have sound : (last.record (.verified last.nvm.sig result.2)).Sound released :=
    ⟨recorded.idle, fun sending => recorded.trusted (sending.imp accepted id)⟩
  rcases Program.mem_visited_update_bind.mp member with equal | member
  · exact .inr (equal ▸ after)
  have wiped : Plainly (do onNvm wipeNvmSecrets; pure (isAccepted result)) :=
    plainly_bind (plainly_lasting keeps_lasting_wipe) fun _ => plainly_pure _
  exact .inl (wiped.visited sound member)

theorem World.Sound.imp {other : Prop} (sound : world.Sound held) (implies : other → held) :
    world.Sound other :=
  ⟨sound.idle, fun sending => sound.trusted (sending.imp implies id)⟩

theorem sound_signAndVerify (trusted : world.Trusted False) (ctx : GlobalCtx)
    (quiet : verifying.Quiet)
    (member : content ∈ (signAndVerify (signProgram platform environment ctx) verifying
      (verifyProgram platform environment ctx)).visited
        ((world.record (.signs ctx.path ctx.mHash)).record
          (.derives ctx.path (environment.signSeed ctx.path)))) :
    content.Sound ((signAndVerify (signProgram platform environment ctx) verifying
      (verifyProgram platform environment ctx)).value
        ((world.record (.signs ctx.path ctx.mHash)).record
          (.derives ctx.path (environment.signSeed ctx.path))) = true) := by
  have signs : ∀ rawSeed, environment.signSeed ctx.path = .ok rawSeed →
      ((world.record (.signs ctx.path ctx.mHash)).record
        (.derives ctx.path (environment.signSeed ctx.path))).Signs := by
    intro rawSeed derived
    rw [derived]
    exact ⟨rfl, rfl⟩
  have idle : ∀ error, environment.signSeed ctx.path = .error error →
      ((world.record (.signs ctx.path ctx.mHash)).record
        (.derives ctx.path (environment.signSeed ctx.path))).Sound False := by
    intro error failed
    rw [failed]
    exact ⟨rfl, trusted⟩
  generalize (world.record (.signs ctx.path ctx.mHash)).record
    (.derives ctx.path (environment.signSeed ctx.path)) = current at member signs idle ⊢
  by_cases succeeds : (signProgram platform environment ctx).value current.nvm = .none
  · cases outcome : environment.signSeed ctx.path with
    | error error =>
        rw [signProgram_underived platform outcome, Program.value_pure] at succeeds
        cases succeeds
    | ok rawSeed =>
        rcases visited_signAndVerify_signs (signs rawSeed outcome) succeeds quiet
          (fun sig => keeps_lasting_verifyProgram ctx sig) member with sound | still
        · exact sound
        · exact still.sound
  · have during : ∀ content ∈ (onNvm (signProgram platform environment ctx)).visited current,
        content.Sound False := by
      intro content member
      cases outcome : environment.signSeed ctx.path with
      | error error =>
          rw [signProgram_underived platform outcome] at member
          exact (plainly_lasting (keeps_pure _)).visited (idle error outcome) member
      | ok rawSeed => exact ((signs rawSeed outcome).visited member).sound
    have sound : content.Sound False := by
      rcases visited_signAndVerify_fails succeeds
        (during _ (Program.finish_mem_visited _ _)) member with signing | failed
      · exact during _ signing
      · exact failed
    obtain ⟨_, _, value, _⟩ := signAndVerify_signFails (signProgram platform environment ctx)
      verifying (verifyProgram platform environment ctx) current succeeds
    rw [value]
    exact sound.imp Bool.false_ne_true

/-! ## Actions -/

theorem trusted_cryptoSignMessage (trusted : world.Trusted False)
    (member : content ∈ (cryptoSignMessage platform environment).visited world) :
    content.Trusted False ∧
      ((cryptoSignMessage platform environment).finish world).Sound
        ((cryptoSignMessage platform environment).value world = true) := by
  have verifying : (Entry.derives world.ctx.path
    (environment.verifySeed world.ctx.path)).Quiet := trivial
  have signing := fun content => @sound_signAndVerify platform environment world content
    _ trusted world.ctx verifying
  rw [cryptoSignMessage] at member ⊢
  simp only [Program.finish_bind, Program.value_bind, value_getCtx, finish_getCtx,
    finish_record]
  refine ⟨?_, signing _ (Program.finish_mem_visited _ _)⟩
  rcases Program.mem_visited_bind.mp member with member | member
  · have same : getCtx.visited world = [world] := rfl
    rw [same, List.mem_singleton] at member
    exact member ▸ trusted
  rw [value_getCtx, finish_getCtx] at member
  rcases Program.mem_visited_update_bind.mp member with equal | member
  · exact equal ▸ trusted
  rcases Program.mem_visited_update_bind.mp member with equal | member
  · exact equal ▸ trusted
  · exact ((signing content member).imp False.elim).trusted

theorem trusted_release (sound : world.Sound True)
    (member : content ∈ (helperSendResponseSig 0).visited world) : content.Trusted False := by
  have raised : ∀ world : World, world.Sound True → ∀ content ∈
      (writeIsSendingSignature 1).visited world, content.Trusted False := by
    intro world sound content member
    have keeps : Keeps InternalStorage.sig (Program.update fun storage =>
      { storage with isSendingSignature := 1 }) := keeps_update fun _ => rfl
    obtain ⟨nvm, inside, equal⟩ := visited_onNvm keeps member
    have same : nvm.sig = world.nvm.sig := keeps.visited inside
    rw [equal]
    exact fun _ settled => (sound.trusted (.inl trivial) settled).trans
      (congrArg some same.symm)
  rw [helperSendResponseSig] at member
  rw [Program.visited_read_bind, if_pos (show 0 < 17 by decide), if_pos rfl] at member
  rcases Program.mem_visited_bind.mp member with member | member
  · exact (((kept_plainly.answer _).visited sound member).imp False.elim).trusted
  · exact raised _ ((kept_plainly.answer _).visited sound (Program.finish_mem_visited _ _))
      content member

theorem trusted_validateTransaction (sound : world.Sound False) (choice : Bool)
    (member : content ∈ (validateTransaction platform environment choice).visited world) :
    content.Trusted False := by
  have refused : ∀ status, Plainly (do
      setCtx fun ctx => { ctx with state := .none }
      ioSendSw status) := fun status =>
    plainly_bind (plainly_setCtx _) fun _ => kept_plainly.ioSendSw status
  cases choice with
  | false =>
      rw [validateTransaction, if_neg Bool.false_ne_true] at member
      exact ((refused .deny).visited sound member).trusted
  | true =>
      rw [validateTransaction, if_pos rfl] at member
      rcases Program.mem_visited_bind.mp member with member | member
      · exact ((plainly_setCtx _).visited sound member).trusted
      have approved := (plainly_setCtx fun ctx => { ctx with state := .approved }).visited
        sound (Program.finish_mem_visited _ _)
      rcases Program.mem_visited_bind.mp member with member | member
      · exact (trusted_cryptoSignMessage approved.trusted member).1
      have signed : ((cryptoSignMessage platform environment).finish
          ((setCtx fun ctx => { ctx with state := .approved }).finish world)).Sound _ :=
        (trusted_cryptoSignMessage approved.trusted (Program.finish_mem_visited _ _)).2
      cases result : (cryptoSignMessage platform environment).value
          ((setCtx fun ctx => { ctx with state := .approved }).finish world) with
      | false =>
          rw [result, if_neg Bool.false_ne_true] at member
          exact ((refused .signatureFail).visited (signed.imp False.elim) member).trusted
      | true =>
          rw [result, if_pos rfl] at member
          exact trusted_release (signed.imp fun _ => result) member

/-- Every content that an action goes through. -/
theorem trusted_perform (action : Action) (trusted : world.Trusted False)
    (member : content ∈ ((app platform).perform action).visited world) :
    content.Trusted False := by
  cases action with
  | start =>
      have rest : Plainly (do
          onNvm wipeNvmSecrets
          Program.update fun world => { world with running := true, ctx := .zero }) :=
        plainly_bind (plainly_lasting keeps_lasting_wipe) fun _ Holds undisturbed =>
          Program.preserves_update fun world holds =>
            undisturbed.ctx _ .zero (undisturbed.running world true holds)
      rw [perform_start, appStart] at member
      rcases Program.mem_visited_update_bind.mp member with equal | member
      · exact equal ▸ trusted
      · have begun : (world.record .started).Sound False := ⟨rfl, trusted⟩
        exact (rest.visited begun member).trusted
  | command command environment =>
      rw [perform_command, apduDispatcher] at member
      rcases Program.mem_visited_update_bind.mp member with equal | member
      · exact equal ▸ trusted
      · have received : (world.record (.received command)).Sound False := ⟨rfl, trusted⟩
        exact ((kept_plainly.serve platform environment command.request).visited received
          member).trusted
  | choose confirm environment =>
      rw [perform_choose, chooseReview, Program.visited_read_bind] at member
      cases shown : world.review with
      | none =>
          rw [shown, Program.visited, Program.history_pure, List.mem_singleton] at member
          exact member ▸ trusted
      | some review =>
          rw [shown] at member
          have answered : ({ world with
              review := none, journal := .chose review confirm :: world.journal } :
              World).Sound False := ⟨rfl, trusted⟩
          rcases Program.mem_visited_update_bind.mp member with equal | member
          · exact equal ▸ trusted
          cases review with
          | address text =>
              have validate := kept_plainly.validatePubkey confirm
              exact (validate.visited answered member).trusted
          | transaction pairs origin => exact trusted_validateTransaction answered confirm member
  | toggle setting =>
      rw [perform_toggle, controlsCallback] at member
      generalize changed : (fun storage : InternalStorage => _) = change at member
      have same : ∀ storage : InternalStorage, (change storage).sig = storage.sig ∧
          (change storage).isSendingSignature = storage.isSendingSignature := by
        intro storage
        rw [← changed]
        cases setting <;> exact ⟨rfl, rfl⟩
      obtain ⟨nvm, inside, equal⟩ :=
        visited_onNvm (keeps_update fun storage => (same storage).1) member
      have kept : nvm.sig = world.nvm.sig ∧
          nvm.isSendingSignature = world.nvm.isSendingSignature := by
        rcases Program.mem_visited_update.mp inside with first | later
        · exact first ▸ ⟨rfl, rfl⟩
        · exact later ▸ same world.nvm
      rw [equal]
      intro sending settled
      exact (trusted (sending.imp_right (kept.2 ▸ ·)) settled).trans
        (congrArg some kept.1.symm)

/-! ## Runs -/

variable {final : World}

theorem Served.ofVerified {command : Command} (trusted : world.Trusted False)
    (always : Always Entry.OfVerified world.journal)
    (asks : AsksAfterVerification world (.command command environment))
    (served : Served platform environment (world.record (.received command))
      command.request final) : Always Entry.OfVerified final.journal := by
  have verified : ∀ data p2, command.request = .signTx data 2 p2 → 0 < p2 ∧ p2 < 18 →
      world.ctx.reqType = .confirmTransaction → world.nvm.isSendingSignature ≠ 0 →
        verifiedSig (.received command :: world.journal) = some world.nvm.sig :=
    fun data p2 requested range transaction sending =>
      trusted (.inr sending) (asks data 2 p2 requested ⟨rfl, range⟩ transaction sending)
  generalize requested : command.request = request at served
  cases served with
  | turnedAway _ => exact ⟨trivial, trivial, always⟩
  | version => exact ⟨trivial, trivial, always⟩
  | appName => exact ⟨trivial, trivial, always⟩
  | publicKey _ => exact ⟨trivial, trivial, always⟩
  | pathRefused _ _ => exact ⟨trivial, trivial, always⟩
  | sessionOpened _ => exact ⟨trivial, trivial, always⟩
  | addressUnderivable _ _ => exact ⟨trivial, trivial, trivial, always⟩
  | addressAnswered _ _ => exact ⟨trivial, trivial, trivial, always⟩
  | addressShown _ _ => exact ⟨trivial, trivial, trivial, always⟩
  | chunkTaken _ _ => simpa [Entry.OfVerified] using always
  | undecodable _ _ _ => simpa [Entry.OfVerified] using always
  | forbidden _ _ _ _ _ => simpa [Entry.OfVerified] using always
  | underivable _ _ _ _ _ => simpa [Entry.OfVerified] using always
  | reviewShown _ _ _ _ _ => simpa [Entry.OfVerified] using always
  | @signature data p2 positive small transaction sending =>
      have range : 0 < p2 ∧ p2 < 18 := ⟨positive, UInt8.lt_trans small (by decide)⟩
      refine ⟨⟨world.nvm.sig, verified data p2 requested range transaction sending, ?_, rfl⟩,
        trivial, always⟩
      exact UInt8.lt_iff_toNat_lt.mp range.2
  | @lastSignature data transaction sending =>
      refine ⟨⟨world.nvm.sig, verified data 17 requested (by decide) transaction sending,
        by decide, ?_⟩, trivial, always⟩
      exact chunkOf_last world.nvm.sig

theorem Chosen.ofVerified {review : Review} {confirm : Bool}
    (always : Always Entry.OfVerified world.journal)
    (chosen : Chosen platform environment (world.answering review confirm) review confirm
      final) : Always Entry.OfVerified final.journal := by
  have written : ∀ (writes : ℕ) {journal : List Entry}, Always Entry.OfVerified journal →
      Always Entry.OfVerified (List.replicate writes .sigWritten ++ journal) :=
    fun writes _ => (always_replicate_append (fun _ => trivial) writes).mpr
  cases chosen with
  | addressConfirmed => exact ⟨trivial, trivial, always⟩
  | addressRejected => exact ⟨trivial, trivial, always⟩
  | transactionRejected => exact ⟨trivial, trivial, always⟩
  | signingFailed writes _ =>
      rw [unsigned_journal]
      exact ⟨trivial, written writes ⟨trivial, trivial, trivial, always⟩⟩
  | verificationFailed writes _ _ =>
      rw [unsigned_journal]
      exact ⟨trivial, trivial, trivial,
        written writes ⟨trivial, trivial, trivial, always⟩⟩
  | @released pairs origin writes _ _ =>
      have kept := sig_after_verification platform environment
        (world.answering (.transaction pairs origin) true)
      rw [World.released_journal]
      refine ⟨⟨_, rfl, by decide, ?_⟩, trivial, trivial,
        written writes ⟨trivial, trivial, trivial, always⟩⟩
      dsimp only
      rw [kept]
      rfl

/-- In runs that keep to the condition, what is sent of a signature has been
verified, and the buffer still holds it. -/
theorem released_is_verified (platform : Platform) (world : World)
    (reachable : Reachable platform AsksAfterVerification world) :
    Always Entry.OfVerified world.journal ∧
      (world.nvm.isSendingSignature ≠ 0 → signingOpen world.journal = false →
        verifiedSig world.journal = some world.nvm.sig) := by
  have initial : World.installed.Trusted False ∧
      Always Entry.OfVerified World.installed.journal :=
    ⟨fun sending => absurd rfl (sending.resolve_left id), always_nil⟩
  have kept : world.Trusted False ∧ Always Entry.OfVerified world.journal := by
    refine Machine.Reaches.always initial (grows_perform platform) (fun _ => rfl) ?_ ?_
      reachable
    · intro world action trusted always enabled asks
      refine ⟨trusted_perform action trusted (Program.finish_mem_visited _ _), ?_⟩
      cases action with
      | start =>
          rw [perform_start, finish_appStart]
          exact ⟨trivial, always⟩
      | command command environment =>
          exact (served_command command).ofVerified trusted always asks
      | choose confirm environment =>
          obtain ⟨review, shown⟩ := Option.isSome_iff_exists.mp enabled.2
          exact (chosen_review shown confirm).ofVerified always
      | toggle setting =>
          obtain ⟨nvm, finish, _⟩ := finish_controlsCallback setting world
          rw [perform_toggle, finish]
          exact always
    · intro world action trusted _ _ content member
      have before : content.Trusted False := trusted_perform action trusted member
      exact before
  exact ⟨kept.2, fun sending => kept.1 (.inr sending)⟩

end Signing

/-! ## An approval of each kind -/

def secondPartCommand : Command := commandOf 6 2 1 [] empty_short

theorem allowed_openingCommand (world : World) (index : UInt8) :
    AsksAfterVerification world (.command (openingCommand index) derivingEnvironment) := by
  intro data p1 p2 request asks
  cases request
  have more : (0 : UInt8) = 2 := asks.1
  exact absurd more (by decide)

theorem allowed_wholeCommand (world : World) :
    AsksAfterVerification world (.command wholeCommand derivingEnvironment) := by
  intro data p1 p2 request asks
  cases request
  exact absurd asks.2.1 (by decide)

theorem reachable_released {allowed : World → Action → Prop} {world : World}
    (reachable : Reachable simplePlatform allowed world) (running : world.running = true)
    (opening : allowed world (.command (openingCommand 0) derivingEnvironment))
    (whole : allowed (world.inSession 0) (.command wholeCommand derivingEnvironment))
    (approval : ∀ world, allowed world (.choose true derivingEnvironment)) :
    ∃ final, (app simplePlatform).after world
        (toReview 0 ++ [.choose true derivingEnvironment]) = final ∧
      Reachable simplePlatform allowed final ∧ final.running = true ∧
      final.ctx.reqType = .confirmTransaction ∧ final.nvm.isSendingSignature ≠ 0 ∧
      ∃ first sig path message signing verifying writes pairs origin before,
        settled before = true ∧
        final.journal = .answered (.signature 0 first) :: .verified sig true ::
          .derives path verifying :: (List.replicate writes .sigWritten ++
            .derives path signing :: .signs path message ::
              .chose (.transaction pairs origin) true :: before) := by
  obtain ⟨world, after, reviewed, running, transaction, _, still, _, pairs, origin, shown⟩ :=
    reachable_underReview reachable running opening whole
  rw [Machine.after_append, after, Machine.after_cons, perform_choose, Machine.after_nil]
  have signs := signs_simple derivingEnvironment world.ctx rfl world.nvm
  have verifies := verifies_agreeing simplePlatform signs rfl
  obtain ⟨reqType, _, flag, _⟩ := released_spec shown signs verifies
  obtain ⟨writes, finish⟩ := chosen_released shown signs verifies
  refine ⟨_, rfl, Reachable.choose reviewed running (by rw [shown]; rfl) (approval world), ?_,
    reqType.trans transaction, ?_, ?_⟩
  · rw [finish]
    exact running
  · rw [flag]
    decide
  · rw [finish, World.released_journal]
    exact ⟨_, _, _, _, _, _, writes, _, _, _, still, rfl⟩

/-- A transaction is signed, and a part of the signature is fetched. -/
theorem released_is_verified_fetched :
    ∃ world : World, (∃ bytes journal, world.journal =
        .answered (.signature 1 bytes) :: journal) ∧
      Always Entry.OfVerified world.journal ∧
      (world.nvm.isSendingSignature ≠ 0 → signingOpen world.journal = false →
        verifiedSig world.journal = some world.nvm.sig) := by
  have started : Reachable simplePlatform AsksAfterVerification World.started :=
    Machine.Reaches.performed .start
      (show (app simplePlatform).enabled .installed .start from rfl) trivial
  obtain ⟨final, _, released, running, transaction, sending, _, _, _, _, _, _, _, _, _, _, _,
      journal⟩ :=
    reachable_released started started_running (allowed_openingCommand _ 0)
      (allowed_wholeCommand _) fun _ => trivial
  have verified : signingOpen final.journal = false := by
    rw [journal]
    rfl
  have sent : Reachable simplePlatform AsksAfterVerification ((apduDispatcher simplePlatform
      derivingEnvironment secondPartCommand).finish final) :=
    Reachable.command secondPartCommand released running fun _ _ _ _ _ _ _ => verified
  exact ⟨_, ⟨_, _, head_requested simplePlatform derivingEnvironment
    (show secondPartCommand.request = .signTx [] 2 1 from rfl) (by decide) (by decide)
    transaction sending⟩, released_is_verified simplePlatform _ sent⟩

/-- An environment in which verification derives no seed. -/
def unverifiedEnvironment : Environment :=
  { derivingEnvironment with verifySeed := fun _ => .error 1 }

theorem verifiedSig_signing (writes : ℕ) (path : List UInt32) (message : Vector UInt8 32)
    (rawSeed : Vector UInt8 64) (journal : List Entry) :
    verifiedSig (List.replicate writes .sigWritten ++
      .derives path (.ok rawSeed) :: .signs path message :: journal) = none := by
  cases writes with
  | zero => rfl
  | succ writes => rfl

/-- A transaction is signed, the verification of the next signature fails, and a part
is fetched that has been written after the last successful verification. -/
theorem not_released_is_verified :
    ∃ world : World, (app simplePlatform).after World.started
        (toReview 0 ++ [.choose true derivingEnvironment] ++ (toReview 0 ++
          [.choose true unverifiedEnvironment,
            .command secondPartCommand derivingEnvironment])) = world ∧
      Reachable simplePlatform Machine.Anything world ∧
      (∃ index bytes newer older sig, world.journal =
          .answered (.signature index bytes) :: (newer ++ .sigWritten :: older) ∧
        .verified sig true ∈ older) ∧
      ¬ Always Entry.OfVerified world.journal := by
  obtain ⟨first, toFirst, released, active, _, sending, _, sig, _, _, _, _, _, _, _, _, _,
      before⟩ := reachable_released (reachable_started simplePlatform) started_running
    trivial trivial fun _ => trivial
  have verified : .verified sig true ∈ first.journal := by
    rw [before]
    exact List.mem_cons_of_mem _ List.mem_cons_self
  obtain ⟨world, after, reviewed, running, transaction, same, _, holds, pairs, origin, shown⟩ :=
    reachable_underReview released active trivial trivial
  have flag : world.nvm.isSendingSignature ≠ 0 := same ▸ sending
  have earlier : .verified sig true ∈ world.journal := holds _ verified
  have signs := signs_simple unverifiedEnvironment world.ctx rfl world.nvm
  have failed : unverifiedEnvironment.verifySeed world.ctx.path = .error 1 := rfl
  have refused := verifies_underivable simplePlatform failed
  have result := unverified_underivable simplePlatform failed
  have kept := flag_after_verification simplePlatform unverifiedEnvironment world
  obtain ⟨writes, changes, finish⟩ := chosen_unverified shown signs refused
  have rejected : Reachable simplePlatform Machine.Anything
      ((chooseReview simplePlatform unverifiedEnvironment true).finish world) :=
    Reachable.choose reviewed running (by rw [shown]; rfl) trivial
  have active : ((chooseReview simplePlatform unverifiedEnvironment true).finish
      world).running = true := by
    rw [finish]
    exact running
  have type : ((chooseReview simplePlatform unverifiedEnvironment true).finish
      world).ctx.reqType = .confirmTransaction := by
    rw [finish]
    exact transaction
  have still : ((chooseReview simplePlatform unverifiedEnvironment true).finish
      world).nvm.isSendingSignature ≠ 0 := by
    rw [finish, unsigned_nvm]
    dsimp only
    rw [kept]
    exact flag
  have unverified : verifiedSig ((chooseReview simplePlatform unverifiedEnvironment
      true).finish world).journal = none := by
    rw [finish, unsigned_journal, result]
    exact verifiedSig_signing writes _ _ _ _
  have journal := head_requested simplePlatform derivingEnvironment
    (show secondPartCommand.request = .signTx [] 2 1 from rfl) (by decide) (by decide) type
    still
  have rewritten : ∃ newer older, .received secondPartCommand ::
      ((chooseReview simplePlatform unverifiedEnvironment true).finish world).journal =
        newer ++ .sigWritten :: older ∧ .verified sig true ∈ older := by
    have changed : signChanges simplePlatform unverifiedEnvironment world ≠ 0 :=
      signChanges_simple rfl
    obtain ⟨count, several⟩ := Nat.exists_eq_succ_of_ne_zero changed
    rw [finish, unsigned_journal, changes, several]
    refine ⟨[_, _, _, _], List.replicate count .sigWritten ++ _ :: _ :: _ :: world.journal, rfl,
      ?_⟩
    simp [earlier]
  obtain ⟨newer, older, writing, inside⟩ := rewritten
  refine ⟨_, ?_, Reachable.command secondPartCommand rejected active trivial,
    ⟨_, _, newer, older, sig, journal.trans (congrArg _ writing), inside⟩, fun always => ?_⟩
  · rw [Machine.after_append, toFirst, Machine.after_append, after, Machine.after_cons,
      perform_choose, Machine.after_cons, perform_command, Machine.after_nil]
  · rw [journal] at always
    obtain ⟨sig, verified, _⟩ := always.1
    have none : verifiedSig (.received secondPartCommand :: ((chooseReview simplePlatform
        unverifiedEnvironment true).finish world).journal) = none := unverified
    rw [none] at verified
    cases verified

end LedgerQrl.App
