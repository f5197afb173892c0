import LedgerQrl.App.ClientOutcome
import LedgerQrl.Display.AddressLaw
import LedgerQrl.App.KeyChunks

namespace LedgerQrl.App

open Foundation Mldsa87 Display Transaction

/-! # From end to end

What the client collects, from the address to the whole signature. -/

/-! ## Responses in a row -/

section Collect

variable {platform : Platform} {around : ℕ → Around} {ins p1 : UInt8}

def Responds (platform : Platform) (around : ℕ → Around) (command : Command)
    (bytes : List UInt8) (before after : World → Prop) : Prop :=
  ∀ host : Host, before host.world → ∃ world,
    (exchange platform around command).run host =
      .ok bytes { world := world, exchanges := host.exchanges + 1 } ∧ after world

theorem run_collect (part : ℕ → List UInt8) (Holds : ℕ → World → Prop) (count : ℕ) :
    ∀ (first : ℕ) (bytes : List UInt8) (host : Host), Holds first host.world →
      (∀ p2, first ≤ p2 → p2 < first + count →
        Responds platform around (apdu ins p1 (UInt8.ofNat p2) (.empty _)) (part p2)
          (Holds p2) (Holds (p2 + 1))) →
      ∃ world, (collect platform around ins p1 first count bytes).run host =
          .ok (bytes ++ (List.range' first count).flatMap part)
            { world := world, exchanges := host.exchanges + count } ∧
        Holds (first + count) world := by
  induction count with
  | zero =>
      intro first bytes host holds _
      refine ⟨host.world, ?_, holds⟩
      rw [collect, EStateM.run_pure, List.range'_zero, List.flatMap_nil, List.append_nil]
      rfl
  | succ count induction =>
      intro first bytes host holds responds
      obtain ⟨next, ran, after⟩ := responds first le_rfl (by omega) host holds
      obtain ⟨world, rest, final⟩ := induction (first + 1) (bytes ++ part first)
        { world := next, exchanges := host.exchanges + 1 } after
        fun p2 lower upper => responds p2 (by omega) (by omega)
      refine ⟨world, ?_, ?_⟩
      · rw [collect, EStateM.run_bind, ran]
        dsimp only
        rw [rest, List.range'_succ, List.flatMap_cons, List.append_assoc,
          Nat.add_right_comm host.exchanges 1 count, Nat.add_assoc host.exchanges count 1]
      · rw [show first + (count + 1) = first + 1 + count by omega]
        exact final

end Collect

/-! ## The parts of a key and of a signature -/

section Parts

variable (platform : Platform) (around : ℕ → Around)

theorem flatMap_publicKeyPart (key : Vector UInt8 2592) :
    (List.range pkChunks).flatMap (publicKeyPart key) = key.toList := by
  have pieces : (List.range pkChunks).flatMap (publicKeyPart key) =
      key.toList.take (pkChunks * pkChunkSize) := flatMap_slice key.toList pkChunkSize pkChunks
  rw [pieces, List.take_of_length_le]
  rw [Vector.length_toList]
  decide

theorem range'_one (count : ℕ) : List.range' 1 count = (List.range count).map (· + 1) := by
  rw [List.range'_eq_map_range]
  simp only [Nat.add_comm 1]

theorem responds_publicKeyPart {storage : InternalStorage} {p2 : ℕ} (positive : 1 ≤ p2)
    (small : p2 < 12) :
    Responds platform around (apdu 5 0 (UInt8.ofNat p2) (.empty _))
      (publicKeyPart storage.pk (p2 - 1)) (fun world => world.nvm = storage)
      fun world => world.nvm = storage := by
  intro host stored
  have value : (UInt8.ofNat p2).toNat = p2 := UInt8.toNat_ofNat_of_lt' (by
    rw [UInt8.size]
    omega)
  have request : (apdu 5 0 (UInt8.ofNat p2) (.empty _)).request =
      .getPublicKeyChunk (p2 - 1) := by
    rw [request_getPublicKeyChunk, value]
    · rw [UInt8.lt_iff_toNat_lt, value]
      exact positive
    · rw [UInt8.lt_iff_toNat_lt, value]
      exact small
  have inside : p2 - 1 < pkChunks := by
    rw [pkChunks]
    omega
  have served : Served platform (around host.exchanges).serving
      (host.world.record (.received (apdu 5 0 (UInt8.ofNat p2) (.empty _))))
      (apdu 5 0 (UInt8.ofNat p2) (.empty _)).request _ := served_command _
  generalize finish : (apduDispatcher platform (around host.exchanges).serving
    (apdu 5 0 (UInt8.ofNat p2) (.empty _))).finish host.world = final at served
  rw [request] at served
  cases served with
  | turnedAway turned =>
      cases turned with
      | beyond outside => exact absurd inside (Nat.not_lt_of_le outside)
  | publicKey small =>
      rw [World.record_nvm, stored, chunkOf_publicKey small] at finish
      rw [exchange_answered host finish rfl]
      exact ⟨_, rfl, stored⟩
  | pathRefused opens _ => cases opens

theorem run_getPublicKeyChunks (host : Host) :
    ∃ world, (getPublicKeyChunks platform around).run host =
        .ok host.world.nvm.pk.toList { world := world, exchanges := host.exchanges + 11 } ∧
      world.nvm = host.world.nvm := by
  have pieces : (List.range' 1 11).flatMap
      (fun p2 => publicKeyPart host.world.nvm.pk (p2 - 1)) = host.world.nvm.pk.toList := by
    rw [range'_one, List.flatMap_map, ← flatMap_publicKeyPart]
    rfl
  obtain ⟨world, ran, stored⟩ := run_collect
    (fun p2 => publicKeyPart host.world.nvm.pk (p2 - 1))
    (fun _ world => world.nvm = host.world.nvm) 11 1 [] host rfl
    fun p2 lower upper => responds_publicKeyPart platform around lower upper
  refine ⟨world, ?_, stored⟩
  rw [getPublicKeyChunks, EStateM.run_bind, ran]
  dsimp only
  rw [EStateM.run_pure, pieces, List.nil_append, List.take_of_length_le]
  exact Vector.length_toList.le

def World.SendsFrom (stored : Vector UInt8 4627) (p2 : ℕ) (world : World) : Prop :=
  p2 < 18 → world.Retrieving stored ∧ wholeSent world.journal = some false

theorem responds_signaturePart {stored : Vector UInt8 4627} {p2 : ℕ} (positive : 1 ≤ p2)
    (small : p2 < 18) :
    Responds platform around (apdu 6 2 (UInt8.ofNat p2) (.empty _)) (signaturePart stored p2)
      (World.SendsFrom stored p2) (World.SendsFrom stored (p2 + 1)) := by
  intro host sends
  obtain ⟨retrieving, unsent⟩ := sends small
  have value : (UInt8.ofNat p2).toNat = p2 := UInt8.toNat_ofNat_of_lt' (by
    rw [UInt8.size]
    omega)
  have later : 0 < UInt8.ofNat p2 := by
    rw [UInt8.lt_iff_toNat_lt, value]
    exact positive
  have before : UInt8.ofNat p2 < 18 := by
    rw [UInt8.lt_iff_toNat_lt, value]
    exact small
  have request := request_signTxChunk later before
  have sending : host.world.nvm.isSendingSignature ≠ 0 := by
    cases retrieving.sending with
    | inl sending => exact sending.2
    | inr sent =>
        rw [unsent] at sent
        cases sent.1
  have journal := head_requested platform (around host.exchanges).serving request later before
    retrieving.reqType sending
  have harmless : Harmless (.command (apdu 6 2 (UInt8.ofNat p2) (.empty _))
      (around host.exchanges).serving) := by
    rw [Harmless, request]
    exact opens_of_asksSignature ⟨rfl, later, before⟩
  have kept : ((apduDispatcher platform (around host.exchanges).serving
    (apdu 6 2 (UInt8.ofNat p2) (.empty _))).finish host.world).Retrieving stored :=
      retrieving_finish retrieving harmless
  rw [value, retrieving.sig] at journal
  generalize finish : (apduDispatcher platform (around host.exchanges).serving
    (apdu 6 2 (UInt8.ofNat p2) (.empty _))).finish host.world = final at journal kept
  rw [exchange_answered host finish (by rw [journal]; rfl)]
  refine ⟨final, rfl, fun within => ⟨kept, ?_⟩⟩
  have inner : UInt8.ofNat p2 < 17 := by
    rw [UInt8.lt_iff_toNat_lt, value]
    exact Nat.lt_of_succ_lt_succ within
  have whole := wholeSent_part later inner (signaturePart stored p2)
    (.received (apdu 6 2 (UInt8.ofNat p2) (.empty _)) :: host.world.journal)
  rw [value] at whole
  rw [journal, whole]
  exact unsent

theorem run_getSignatureChunks {host : Host} {sig : List UInt8}
    (sent : host.world.FirstSent sig) :
    ∃ final, (getSignatureChunks platform around (sig.take signatureChunkSize)).run host =
      .ok sig final := by
  obtain ⟨stored, rfl, retrieving, unsent⟩ := sent
  obtain ⟨world, ran, _⟩ := run_collect (signaturePart stored) (World.SendsFrom stored) 17 1
    (stored.toList.take signatureChunkSize) host (fun _ => ⟨retrieving, unsent⟩)
    fun p2 lower upper => responds_signaturePart platform around lower upper
  have pieces : stored.toList.take signatureChunkSize ++
      (List.range' 1 17).flatMap (signaturePart stored) = stored.toList := by
    have first : signaturePart stored 0 = stored.toList.take signatureChunkSize := by
      rw [signaturePart, Nat.zero_mul, List.drop_zero]
    have whole := flatMap_signaturePart stored
    rw [List.range_eq_range', List.range'_succ, List.flatMap_cons, first] at whole
    exact whole
  refine ⟨{ world := world, exchanges := host.exchanges + 17 }, ?_⟩
  rw [getSignatureChunks, EStateM.run_bind, ran]
  dsimp only
  rw [EStateM.run_pure, pieces, List.take_of_length_le]
  exact Vector.length_toList.le

end Parts

/-! ## Addresses -/

def outcomeOf {Result : Type} : EStateM.Result Failure Host Result → Except Failure Result
  | .ok result _ => .ok result
  | .error failure _ => .error failure

section Address

variable (platform : Platform) (around : ℕ → Around)

/-- What a `cx_err_t` comes to. Its low bytes may be those of `SW_OK`. -/
def internalOutcome (error : ℕ) : Except Failure (List UInt8) :=
  if (StatusWord.internal error).code = StatusWord.ok.code then .ok []
  else .error (.rapdu (.internal error))

noncomputable def addressOutcome (around : Around) (confirmation : Bool)
    (packed : List UInt8) : Except Failure (List UInt8) :=
  if (readRequest platform .confirmAddress packed).2 = false then
    .error (.rapdu .wrongDataLength)
  else
    match around.serving.addressSeed (readRequest platform .confirmAddress packed).1.path with
    | .error error => internalOutcome error
    | .ok rawSeed =>
        if confirmation = true ∧ around.confirm = false then .error (.rapdu .deny)
        else .ok (zondAddressPrefix :: (addressOf platform rawSeed).toList)

theorem outcomeOf_internal (error : ℕ) (host : Host) :
    outcomeOf ((Response.status (.internal error)).outcome host) = internalOutcome error := by
  rw [Response.outcome, internalOutcome, Response.statusWord]
  split
  · rfl
  · rfl

theorem finish_addressChoice (environment : Environment) {world : World} {text : List Char}
    (shown : world.review = some (.address text)) (confirm : Bool) :
    ((chooseReview platform environment confirm).finish world).nvm = world.nvm ∧
      ((chooseReview platform environment confirm).finish world).journal =
        .answered (if confirm then .address (zondAddressPrefix :: world.ctx.address.toList)
          else .status .deny) :: .chose (.address text) confirm :: world.journal := by
  have chosen : Chosen platform environment (world.answering (.address text) confirm)
    (.address text) confirm ((chooseReview platform environment confirm).finish world) :=
      chosen_review shown confirm
  generalize (chooseReview platform environment confirm).finish world = final at chosen ⊢
  cases chosen with
  | addressConfirmed => exact ⟨rfl, rfl⟩
  | addressRejected => exact ⟨rfl, rfl⟩

structure AddressExchange (host : Host) (confirmation : Bool) (packed : List UInt8)
    (response : Response) (world : World) : Prop where
  outcome : ∀ other, outcomeOf (response.outcome other) =
    addressOutcome platform (around host.exchanges) confirmation packed
  stored : ∀ rawSeed, (readRequest platform .confirmAddress packed).2 = true →
    (around host.exchanges).serving.addressSeed
      (readRequest platform .confirmAddress packed).1.path = .ok rawSeed →
      world.nvm = keyed platform rawSeed host.world.nvm
  /-- What is answered after a confirmation is what has been on the screen. -/
  confirmed : confirmation = true → response.bytes ≠ [] → ∃ address older,
    response = .address (zondAddressPrefix :: address.toList) ∧
      world.journal = .answered response ::
        .chose (.address (checksummed platform.shake.shake256 address)) true ::
        .displayed (.address (checksummed platform.shake.shake256 address)) :: older

theorem exchange_address (host : Host) (confirmation : Bool) (packed : Payload maxApduLen) :
    ∃ response world,
      (exchange platform around
        (apdu 5 (if confirmation then 1 else 0) 0 packed)).run host =
          Response.outcome response { world := world, exchanges := host.exchanges + 1 } ∧
      AddressExchange platform around host confirmation packed.val response world := by
  have served : Served platform (around host.exchanges).serving
      (host.world.record (.received (apdu 5 (if confirmation then 1 else 0) 0 packed)))
      (apdu 5 (if confirmation then 1 else 0) 0 packed).request _ := served_command _
  generalize finish : (apduDispatcher platform (around host.exchanges).serving
    (apdu 5 (if confirmation then 1 else 0) 0 packed)).finish host.world = final at served
  by_cases empty : packed.val = []
  · have request : (apdu 5 (if confirmation then 1 else 0) 0 packed).request =
        .refused .wrongDataLength := by
      rw [show packed = .empty _ from Subtype.ext empty]
      cases confirmation with
      | false => rfl
      | true => rfl
    have refused : (readRequest platform .confirmAddress packed.val).2 = false := by
      rw [empty, readRequest_nil]
    rw [request] at served
    cases served with
    | turnedAway turned =>
        cases turned with
        | refused status =>
            refine ⟨_, _, exchange_answered host finish rfl, fun other => ?_, ?_,
              fun _ nonempty => absurd rfl nonempty⟩
            · rw [addressOutcome, if_pos refused]
              rfl
            · intro rawSeed valid
              rw [refused] at valid
              cases valid
    | pathRefused opens _ => cases opens
  · rw [request_getPublicKey confirmation empty] at served
    cases served with
    | turnedAway turned => cases turned
    | pathRefused opens refused =>
        cases opens
        refine ⟨_, _, exchange_answered host finish rfl, fun other => ?_, ?_,
          fun _ nonempty => absurd rfl nonempty⟩
        · rw [addressOutcome, if_pos refused]
          rfl
        · intro rawSeed valid
          rw [refused] at valid
          cases valid
    | addressUnderivable valid failed =>
        rw [World.opened_ctx] at failed
        refine ⟨_, _, exchange_answered host finish rfl, fun other => ?_, ?_,
          fun _ nonempty => absurd rfl nonempty⟩
        · rw [addressOutcome, if_neg (by rw [valid]; decide), failed]
          exact outcomeOf_internal _ other
        · intro rawSeed _ derived
          rw [failed] at derived
          cases derived
    | addressAnswered valid derived =>
        rw [World.opened_ctx] at derived
        refine ⟨_, _, exchange_answered host finish rfl, fun other => ?_, ?_, nofun⟩
        · rw [addressOutcome, if_neg (by rw [valid]; decide), derived]
          rfl
        · intro rawSeed _ other
          rw [derived] at other
          cases other
          rfl
    | @addressShown _ rawSeed valid derived =>
        rw [World.opened_ctx] at derived
        obtain ⟨world, same, shown, stored, address, older, displayed⟩ : ∃ world,
            (apduDispatcher platform (around host.exchanges).serving
              (apdu 5 (if true then 1 else 0) 0 packed)).finish host.world = world ∧
            world.review = some (.address (checksummed platform.shake.shake256
              (addressOf platform rawSeed))) ∧
            world.nvm = keyed platform rawSeed host.world.nvm ∧
            world.ctx.address = addressOf platform rawSeed ∧
            ∃ path, world.journal = .displayed (.address (checksummed platform.shake.shake256
              (addressOf platform rawSeed))) :: .derives path (.ok rawSeed) ::
                .received (apdu 5 (if true then 1 else 0) 0 packed) :: host.world.journal :=
          ⟨_, finish, rfl, rfl, rfl, _, rfl⟩
        obtain ⟨kept, journal⟩ := finish_addressChoice platform
          (around host.exchanges).answering shown (around host.exchanges).confirm
        have unanswered : responseTo world.journal = none := by
          rw [displayed]
          rfl
        rw [address] at journal
        refine ⟨_, _, exchange_reviewed host same unanswered rfl
          ((congrArg responseTo journal).trans rfl), fun other => ?_, ?_, fun _ nonempty => ?_⟩
        · have accepted : ¬ (readRequest platform .confirmAddress packed.val).2 = false := by
            rw [valid]
            decide
          rw [addressOutcome, if_neg accepted, derived]
          cases (around host.exchanges).confirm with
          | false => rfl
          | true => rfl
        · intro seed _ again
          rw [derived] at again
          cases again
          exact kept.trans stored
        · rw [displayed] at journal
          cases confirmed : (around host.exchanges).confirm with
          | false =>
              rw [confirmed] at nonempty
              exact absurd rfl nonempty
          | true =>
              rw [confirmed] at journal
              exact ⟨addressOf platform rawSeed, _, rfl, journal⟩

/-- `get_public_key_with_confirmation`: what it returns or raises from any state, and that
an address is returned only after the user has confirmed the text that stands for it and
for no other address. -/
theorem getPublicKeyWithConfirmation_outcome (host : Host) (packed : Payload maxApduLen) :
    outcomeOf ((getPublicKeyWithConfirmation platform around packed).run host) =
        addressOutcome platform (around host.exchanges) true packed.val ∧
      ∀ bytes final,
        (getPublicKeyWithConfirmation platform around packed).run host = .ok bytes final →
          bytes ≠ [] → ∃ (address : Vector UInt8 addressSize) (text : List Char)
            (older : List Entry),
            bytes = zondAddressPrefix :: address.toList ∧
              final.world.journal = .answered (.address bytes) ::
                .chose (.address text) true :: .displayed (.address text) :: older ∧
              Checksummed platform.shake.shake256 address text ∧
              ∀ other, Checksummed platform.shake.shake256 other text → other = address := by
  obtain ⟨response, world, run, result⟩ := exchange_address platform around host true packed
  have confirmation : (getPublicKeyWithConfirmation platform around packed).run host =
      response.outcome { world := world, exchanges := host.exchanges + 1 } := run
  rw [confirmation]
  refine ⟨result.outcome _, fun bytes final returned nonempty => ?_⟩
  rw [Response.outcome] at returned
  split at returned
  · cases returned
    obtain ⟨address, older, sent, journal⟩ := result.confirmed rfl nonempty
    have spelled := checksummed_spec platform.shake.shake256 address
    refine ⟨address, _, older, ?_, ?_, spelled, fun other also => also.address_eq spelled rfl⟩
    · rw [sent]
      rfl
    · rw [journal, sent]
      rfl
  · cases returned

/-- Every derivation succeeds, and the user approves. -/
def approving : Around where
  serving := derivingEnvironment
  confirm := true
  answering := derivingEnvironment

theorem getPublicKeyWithConfirmation_outcome_approving :
    ∃ (bytes : List UInt8) (final : Host) (address : Vector UInt8 addressSize)
        (text : List Char) (older : List Entry),
      (getPublicKeyWithConfirmation simplePlatform (fun _ => approving)
          (.slice (pathBytes 0) 0 _)).run { world := World.started, exchanges := 0 } =
            .ok bytes final ∧
        bytes = zondAddressPrefix :: address.toList ∧
        final.world.journal = .answered (.address bytes) ::
          .chose (.address text) true :: .displayed (.address text) :: older := by
  have outcome := getPublicKeyWithConfirmation_outcome simplePlatform (fun _ => approving)
    { world := World.started, exchanges := 0 } (.slice (pathBytes 0) 0 _)
  have expected : addressOutcome simplePlatform approving true (pathBytes 0) =
      .ok (zondAddressPrefix ::
        (addressOf simplePlatform (Vector.replicate 64 0)).toList) := by
    rw [addressOutcome, if_neg (ne_false_of_eq_true (readRequest_pathBytes .confirmAddress).1)]
    rfl
  have returns := outcome.1.trans expected
  cases result : (getPublicKeyWithConfirmation simplePlatform (fun _ => approving)
      (.slice (pathBytes 0) 0 _)).run { world := World.started, exchanges := 0 } with
  | ok bytes final =>
      rw [result] at returns
      have nonempty : bytes ≠ [] :=
        Except.ok.inj returns ▸ List.cons_ne_nil zondAddressPrefix _
      obtain ⟨address, text, older, spelled, journal, _⟩ :=
        outcome.2 bytes final result nonempty
      exact ⟨bytes, final, address, text, older, rfl, spelled, journal⟩
  | error failure final =>
      rw [result] at returns
      cases returns

end Address

/-! ## Whole sessions -/

section Sessions

variable (platform : Platform) (around : ℕ → Around)

/-- `sign_tx`, and then `get_signature_chunks`. -/
def signAndCollect (packed : Payload maxApduLen) (transaction : List UInt8) :
    Client (List UInt8) := do
  let first ← signTx platform around packed transaction
  getSignatureChunks platform around first

/-- The functions of the client yield what the specification says of the transaction, the
path, the setting and what happens outside the app, from any state of the app. -/
theorem signAndCollect_outcome (packed : Payload maxApduLen) (transaction : List UInt8)
    (host : Host) :
    let outcome := signTxOutcome platform (host.world.nvm.enableBlindSigning ≠ 0)
      (around (host.exchanges + (splitMessage transaction maxApduLen).length)) packed.val
      transaction
    outcomeOf ((signTx platform around packed transaction).run host) =
        outcome.map (List.take signatureChunkSize) ∧
      outcomeOf ((signAndCollect platform around packed transaction).run host) = outcome := by
  have ends := signTx_endsWith platform around packed transaction host
  dsimp only
  rw [signAndCollect, EStateM.run_bind]
  generalize signTxOutcome platform (host.world.nvm.enableBlindSigning ≠ 0)
    (around (host.exchanges + (splitMessage transaction maxApduLen).length)) packed.val
    transaction = outcome at ends ⊢
  cases outcome with
  | error failure =>
      obtain ⟨final, raised⟩ := ends
      rw [raised]
      exact ⟨rfl, rfl⟩
  | ok sig =>
      obtain ⟨signed, ran, sent⟩ := ends
      obtain ⟨final, collected⟩ := run_getSignatureChunks platform around sent
      rw [ran]
      dsimp only
      rw [collected]
      exact ⟨rfl, rfl⟩

theorem run_of_outcome {response : Response} {host : Host} {bytes : List UInt8}
    (ok : outcomeOf (response.outcome host) = .ok bytes) :
    response.outcome host = .ok bytes host := by
  rw [Response.outcome] at ok ⊢
  split at ok
  · cases ok
    rename_i same
    rw [if_pos same]
  · cases ok

theorem raised_of_outcome {response : Response} {host : Host} {failure : Failure}
    (raised : outcomeOf (response.outcome host) = .error failure) :
    response.outcome host = .error failure host := by
  rw [Response.outcome] at raised ⊢
  split at raised
  · cases raised
  · cases raised
    rename_i other
    rw [if_neg other]

/-- What `test_e2e_device_sign` comes to. -/
noncomputable def e2eOutcome (blindSigning : Bool) (first last : Around)
    (packed preimage : List UInt8) : Except Failure Dump :=
  if (readRequest platform .confirmAddress packed).2 = false then
    .error (.rapdu .wrongDataLength)
  else
    match first.serving.addressSeed (readRequest platform .confirmAddress packed).1.path with
    | .error error => (internalOutcome error).bind fun _ => .error .assertionError
    | .ok rawSeed =>
        (signTxOutcome platform blindSigning last packed preimage).map fun sig =>
          { address := (addressOf platform rawSeed).toList
            publicKey := (keyOf platform rawSeed).toList
            signature := sig }

theorem ensure_of {condition : Prop} [Decidable condition] (holds : condition) :
    ensure condition = pure () := if_pos holds

theorem outcomeOf_signing (packed : Payload maxApduLen) (preimage : List UInt8)
    (response : List UInt8) (host : Host) :
    outcomeOf ((do
        let pk ← getPublicKeyChunks platform around
        ensure (pk.length = pkLen)
        let first ← signTx platform around packed preimage
        let sig ← getSignatureChunks platform around first
        ensure (sig.length = sigLen)
        pure { address := response.drop 1, publicKey := pk, signature := sig } :
          Client Dump).run host) =
      (signTxOutcome platform (host.world.nvm.enableBlindSigning ≠ 0)
        (around (host.exchanges + 11 + (splitMessage preimage maxApduLen).length)) packed.val
        preimage).map fun sig =>
          { address := response.drop 1
            publicKey := host.world.nvm.pk.toList
            signature := sig } := by
  obtain ⟨world, collected, stored⟩ := run_getPublicKeyChunks platform around host
  have ends := signTx_endsWith platform around packed preimage
    { world := world, exchanges := host.exchanges + 11 }
  dsimp only at ends
  rw [stored] at ends
  have key : host.world.nvm.pk.toList.length = pkLen := Vector.length_toList
  rw [EStateM.run_bind, collected]
  dsimp only
  rw [ensure_of key, pure_bind, EStateM.run_bind]
  generalize signTxOutcome platform (host.world.nvm.enableBlindSigning ≠ 0)
    (around (host.exchanges + 11 + (splitMessage preimage maxApduLen).length)) packed.val
    preimage = outcome at ends ⊢
  cases outcome with
  | error failure =>
      obtain ⟨final, raised⟩ := ends
      rw [raised]
      rfl
  | ok sig =>
      obtain ⟨signed, ran, sent⟩ := ends
      obtain ⟨final, fetched⟩ := run_getSignatureChunks platform around sent
      obtain ⟨vector, bytes, _⟩ := sent
      have length : sig.length = sigLen := by
        rw [← bytes]
        exact Vector.length_toList
      rw [ran]
      dsimp only
      rw [EStateM.run_bind, fetched]
      dsimp only
      rw [ensure_of length]
      rfl

theorem outcomeOf_e2eDeviceSign (packed : Payload maxApduLen) (preimage : List UInt8)
    (host : Host) :
    outcomeOf ((e2eDeviceSign platform around packed preimage).run host) =
      e2eOutcome platform (host.world.nvm.enableBlindSigning ≠ 0) (around host.exchanges)
        (around (host.exchanges + 12 + (splitMessage preimage maxApduLen).length)) packed.val
        preimage := by
  obtain ⟨response, world, ran, exchanged⟩ :=
    exchange_address platform around host false packed
  have outcome := exchanged.outcome { world := world, exchanges := host.exchanges + 1 }
  rw [e2eDeviceSign, EStateM.run_bind, getPublicKey, e2eOutcome]
  rw [if_neg Bool.false_ne_true] at ran
  rw [ran]
  rw [addressOutcome] at outcome
  cases valid : (readRequest platform .confirmAddress packed.val).2 with
  | false =>
      rw [if_pos valid] at outcome
      rw [raised_of_outcome outcome, if_pos rfl]
      rfl
  | true =>
      have accepted : ¬ (readRequest platform .confirmAddress packed.val).2 = false := by
        rw [valid]
        decide
      rw [if_neg accepted] at outcome
      rw [if_neg (by decide)]
      cases derived : (around host.exchanges).serving.addressSeed
          (readRequest platform .confirmAddress packed.val).1.path with
      | error error =>
          rw [derived] at outcome
          dsimp only at outcome ⊢
          cases internal : internalOutcome error with
          | error failure =>
              rw [internal] at outcome
              rw [raised_of_outcome outcome]
              rfl
          | ok bytes =>
              have none : bytes = [] := by
                rw [internalOutcome] at internal
                split at internal
                · cases internal
                  rfl
                · cases internal
              rw [internal, none] at outcome
              rw [run_of_outcome outcome]
              rfl
      | ok rawSeed =>
          have stored := exchanged.stored rawSeed valid derived
          rw [derived] at outcome
          dsimp only at outcome ⊢
          rw [if_neg (fun unconfirmed => Bool.false_ne_true unconfirmed.1)] at outcome
          have first : (zondAddressPrefix :: (addressOf platform rawSeed).toList).take 1 =
              [zondAddressPrefix] ∧
                (zondAddressPrefix :: (addressOf platform rawSeed).toList).length = 65 := by
            rw [List.length_cons, Vector.length_toList]
            exact ⟨rfl, rfl⟩
          have rest := outcomeOf_signing platform around packed preimage
            (zondAddressPrefix :: (addressOf platform rawSeed).toList)
            { world := world, exchanges := host.exchanges + 1 }
          have setting := congrArg Prod.fst (keyed_settings platform rawSeed host.world.nvm)
          rw [run_of_outcome outcome]
          dsimp only at rest ⊢
          rw [ensure_of first, pure_bind, rest, stored]
          simp only [settings] at setting
          rw [setting, keyed_pk, List.drop_one, List.tail_cons,
            Nat.add_right_comm host.exchanges 1]

variable {platform around}

theorem approvedSignature_some {environment : Environment} {path : List UInt32}
    {digest : Vector UInt8 32} {sig : List UInt8}
    (approved : approvedSignature platform environment path digest = some sig) :
    ∃ signSeed, environment.signSeed path = .ok signSeed ∧
      Spec.sign platform.shake (seedOfRaw signSeed) environment.rnd digest.toList =
        some sig := by
  rw [approvedSignature] at approved
  split at approved
  · rename_i signSeed verifySeed derived _
    exact ⟨signSeed, derived, (Option.filter_eq_some_iff.mp approved).1⟩
  · cases approved

theorem answeredSignature_ok {around : Around} {path : List UInt32}
    {digest : Vector UInt8 32} {sig : List UInt8}
    (answered : answeredSignature platform around path digest = .ok sig) :
    around.confirm = true ∧
      approvedSignature platform around.answering path digest = some sig := by
  rw [answeredSignature] at answered
  split at answered
  · rename_i confirmed
    split at answered
    · cases answered
    · rename_i signature approved
      cases answered
      exact ⟨confirmed, approved⟩
  · cases answered

theorem reviewedSignature_ok {blindSigning : Bool} {around : Around} {path : List UInt32}
    {transaction sig : List UInt8}
    (reviewed : reviewedSignature platform blindSigning around path transaction = .ok sig) :
    (∃ tx, decodeLedgerTx platform.sizeWidth transaction .zero = .ok tx ∧
      ((tx.hasData || tx.hasAccessList) = true → blindSigning = true)) ∧
      around.confirm = true ∧
      approvedSignature platform around.answering path
        (keccak256 platform.permutation transaction) = some sig := by
  rw [reviewedSignature] at reviewed
  split at reviewed
  · cases reviewed
  · rename_i tx decoded
    split at reviewed
    · cases reviewed
    · rename_i permitted
      split at reviewed
      · cases reviewed
      · exact ⟨⟨tx, decoded, fun opaqueData => by simpa [opaqueData] using permitted⟩,
          answeredSignature_ok reviewed⟩

theorem mapError_eq_ok {Error Other Result : Type} {change : Error → Other}
    {outcome : Except Error Result} {result : Result}
    (ok : outcome.mapError change = .ok result) : outcome = .ok result := by
  cases outcome with
  | error error => cases ok
  | ok value =>
      cases ok
      rfl

theorem signTxOutcome_ok {blindSigning : Bool} {around : Around}
    {packed transaction sig : List UInt8}
    (signed : signTxOutcome platform blindSigning around packed transaction = .ok sig) :
    reviewedSignature platform blindSigning around
      (readRequest platform .confirmTransaction packed).1.path transaction = .ok sig := by
  rw [signTxOutcome] at signed
  split at signed
  · cases signed
  · split at signed
    · cases signed
    · split at signed
      · cases signed
      · exact mapError_eq_ok signed

theorem readRequest_path (data : List UInt8) (first second : RequestType) :
    (readRequest platform first data).1.path = (readRequest platform second data).1.path := by
  rw [readRequest, readRequest]
  dsimp only
  split
  · rfl
  · rfl

theorem readRequest_accepts (data : List UInt8) (first second : RequestType) :
    (readRequest platform first data).2 = (readRequest platform second data).2 := by
  rw [readRequest, readRequest]
  dsimp only
  split
  · rfl
  · rfl

theorem e2eOutcome_ok {blindSigning : Bool} {first last : Around}
    {packed preimage : List UInt8} {dump : Dump}
    (dumped : e2eOutcome platform blindSigning first last packed preimage = .ok dump) :
    (∃ tx, decodeLedgerTx platform.sizeWidth preimage .zero = .ok tx ∧
      ((tx.hasData || tx.hasAccessList) = true → blindSigning = true)) ∧
      last.confirm = true ∧
      ∀ rawSeedOf, first.serving.Derives rawSeedOf → last.answering.Derives rawSeedOf →
        Spec.Verifies platform.shake dump.publicKey dump.signature
            (keccak256 platform.permutation preimage).toList ∧
          dump.address =
            shakeOnce platform.shake.shake256 ([1, 0, 0] ++ dump.publicKey) addressSize := by
  rw [e2eOutcome] at dumped
  split at dumped
  · cases dumped
  · split at dumped
    · rename_i error _
      cases internal : internalOutcome error with
      | error failure =>
          rw [internal] at dumped
          cases dumped
      | ok bytes =>
          rw [internal] at dumped
          cases dumped
    · rename_i rawSeed derived
      cases signed : signTxOutcome platform blindSigning last packed preimage with
      | error failure =>
          rw [signed] at dumped
          cases dumped
      | ok sig =>
          obtain ⟨decoded, confirmed, approved⟩ :=
            reviewedSignature_ok (signTxOutcome_ok signed)
          obtain ⟨signSeed, used, released⟩ := approvedSignature_some approved
          rw [signed] at dumped
          cases dumped
          refine ⟨decoded, confirmed, fun rawSeedOf serves answers => ⟨?_, ?_⟩⟩
          · have same : rawSeed = signSeed := by
              rw [serves.address _ _ derived, answers.sign _ _ used,
                readRequest_path packed .confirmAddress .confirmTransaction]
            rw [same, keyOf, toList_publicKeyBytes]
            exact verifies_sign released
          · rfl

theorem approvedSignature_simple (path : List UInt32) (digest : Vector UInt8 32) :
    ∃ sig, approvedSignature simplePlatform derivingEnvironment path digest = some sig := by
  have acceptable : ∃ k < 814, (Spec.signer constantShake
      (seedOfRaw (Vector.replicate 64 0)) derivingEnvironment.rnd digest.toList).Acceptable k :=
    ⟨0, by decide, Spec.acceptable_constantShake _ _ _⟩
  obtain ⟨sig, signed⟩ : ∃ sig, Spec.sign simplePlatform.shake
      (seedOfRaw (Vector.replicate 64 0)) derivingEnvironment.rnd digest.toList = some sig :=
    ⟨_, dif_pos acceptable⟩
  have verifies : Spec.Verifies simplePlatform.shake
      (keyOf simplePlatform (Vector.replicate 64 0)).toList sig digest.toList := by
    rw [keyOf, toList_publicKeyBytes]
    exact verifies_sign signed
  have derived : derivingEnvironment.signSeed path = .ok (Vector.replicate 64 0) := rfl
  have derived' : derivingEnvironment.verifySeed path = .ok (Vector.replicate 64 0) := rfl
  refine ⟨sig, ?_⟩
  rw [approvedSignature, derived, derived']
  dsimp only
  rw [signed, Option.filter_some, if_pos]
  simpa using verifies

theorem e2eOutcome_simple {preimage : List UInt8} {tx : ZondTx} (blindSigning : Bool)
    (decoded : decodeLedgerTx 32 preimage .zero = .ok tx)
    (plain : (tx.hasData || tx.hasAccessList) = false) (present : preimage ≠ [])
    (short : preimage.length ≤ maxTransactionLen) :
    ∃ dump, e2eOutcome simplePlatform blindSigning approving approving (pathBytes 0) preimage =
      .ok dump := by
  have address := (readRequest_pathBytes .confirmAddress).1
  have transaction := (readRequest_pathBytes .confirmTransaction).1
  obtain ⟨sig, approved⟩ := approvedSignature_simple
    (readRequest simplePlatform .confirmTransaction (pathBytes 0)).1.path
    (keccak256 simplePlatform.permutation preimage)
  have answered : answeredSignature simplePlatform approving
      (readRequest simplePlatform .confirmTransaction (pathBytes 0)).1.path
      (keccak256 simplePlatform.permutation preimage) = .ok sig := by
    have confirmed : approving.confirm = true := rfl
    have answering : approving.answering = derivingEnvironment := rfl
    rw [answeredSignature, if_pos confirmed, answering, approved]
  have reviewed : reviewedSignature simplePlatform blindSigning approving
      (readRequest simplePlatform .confirmTransaction (pathBytes 0)).1.path preimage =
        .ok sig := by
    rw [@reviewedSignature_plain simplePlatform preimage tx decoded plain]
    exact answered
  rw [e2eOutcome, if_neg (ne_false_of_eq_true address), signTxOutcome,
    if_neg (ne_false_of_eq_true transaction), if_neg present, if_neg (Nat.not_lt.mpr short),
    reviewed]
  exact ⟨_, rfl⟩

variable (platform around) in
/-- `test_e2e_device_sign` dumps exactly what the specification says. The preimage has then
been decoded, permitted and approved. When a path always derives the same seed, the
signature is one of the preimage under the dumped key, and the address is the one of that
key. -/
theorem e2eDeviceSign_outcome (packed : Payload maxApduLen) (preimage : List UInt8)
    (host : Host) :
    outcomeOf ((e2eDeviceSign platform around packed preimage).run host) =
        e2eOutcome platform (host.world.nvm.enableBlindSigning ≠ 0) (around host.exchanges)
          (around (host.exchanges + 12 + (splitMessage preimage maxApduLen).length)) packed.val
          preimage ∧
      ∀ dump, outcomeOf ((e2eDeviceSign platform around packed preimage).run host) =
          .ok dump →
        Permitted platform host.world.nvm preimage ∧
        (around (host.exchanges + 12 + (splitMessage preimage maxApduLen).length)).confirm =
          true ∧
        ∀ rawSeedOf, (∀ count, (around count).serving.Derives rawSeedOf ∧
            (around count).answering.Derives rawSeedOf) →
          Spec.Verifies platform.shake dump.publicKey dump.signature
              (keccak256 platform.permutation preimage).toList ∧
            dump.address =
              shakeOnce platform.shake.shake256 ([1, 0, 0] ++ dump.publicKey) addressSize := by
  have outcome := outcomeOf_e2eDeviceSign platform around packed preimage host
  refine ⟨outcome, ?_⟩
  intro dump dumped
  rw [outcome] at dumped
  obtain ⟨⟨tx, decoded, permitted⟩, confirmed, signed⟩ := e2eOutcome_ok dumped
  exact ⟨⟨tx, decoded, fun opaqueData => by simpa using permitted opaqueData⟩, confirmed,
    fun rawSeedOf derives => signed rawSeedOf (derives _).1 (derives _).2⟩

theorem e2eDeviceSign_outcome_empty :
    ∃ dump, outcomeOf ((e2eDeviceSign simplePlatform (fun _ => approving)
        (.slice (pathBytes 0) 0 _) emptyTransaction).run
          { world := World.started, exchanges := 0 }) = .ok dump ∧
      Permitted simplePlatform World.started.nvm emptyTransaction ∧
      Spec.Verifies constantShake dump.publicKey dump.signature
        (keccak256 simplePlatform.permutation emptyTransaction).toList := by
  have outcome := e2eDeviceSign_outcome simplePlatform (fun _ => approving)
    (.slice (pathBytes 0) 0 _) emptyTransaction { world := World.started, exchanges := 0 }
  obtain ⟨tx, decoded, plain⟩ := decode_emptyTransaction
  obtain ⟨dump, dumped⟩ := e2eOutcome_simple (World.started.nvm.enableBlindSigning ≠ 0) decoded
    plain (List.cons_ne_nil _ _) (by decide)
  have returned := outcome.1.trans dumped
  obtain ⟨permitted, _, holds⟩ := outcome.2 dump returned
  exact ⟨dump, returned, permitted, (holds _ fun _ =>
    ⟨derivingEnvironment_derives, derivingEnvironment_derives⟩).1⟩

end Sessions

end LedgerQrl.App
