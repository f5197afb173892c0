import LedgerQrl.App.Approval

namespace LedgerQrl.App

open Foundation Mldsa87 Display Transaction

/-! # One approval, one signature; one command, one answer

What can follow what in the journal, over every run. -/

/-! ## Runs and the review on the screen -/

section Runs

variable {platform : Platform} {allowed : World → Action → Prop} {world : World}
  {Knows : World → Prop} {Holds : Entry → List Entry → Prop}

/-- What an app that runs knows, and what all entries have. An app that is started has
no review on its screen. -/
theorem Reachable.whileRunning
    (started : ∀ world : World, world.review = none → Always Holds world.journal →
      Knows (appStart.finish world) ∧ Always Holds (appStart.finish world).journal)
    (served : ∀ (world final : World) (command : Command) (environment : Environment),
      Knows world → Always Holds world.journal →
      allowed world (.command command environment) →
      Served platform environment (world.record (.received command)) command.request
        final → Knows final ∧ Always Holds final.journal)
    (chosen : ∀ (world final : World) (review : Review) (confirm : Bool)
      (environment : Environment),
      Knows world → Always Holds world.journal → world.review = some review →
      Chosen platform environment (world.answering review confirm) review confirm
        final → Knows final ∧ Always Holds final.journal)
    (toggled : ∀ (world : World) (nvm : InternalStorage), Knows world →
      Knows { world with nvm := nvm })
    (reachable : Reachable platform allowed world) :
    (world.running = true → Knows world) ∧ Always Holds world.journal := by
  let Kept (world : World) : Prop :=
    (world.running = true → Knows world) ∧ (world.running = false → world.review = none)
  have off : ∀ world : World, world.running = false → world.review = none → Kept world := by
    intro world stopped none
    refine ⟨fun running => ?_, fun _ => none⟩
    rw [stopped] at running
    cases running
  have on : ∀ world : World, world.running = true → Knows world → Kept world := by
    intro world running knows
    refine ⟨fun _ => knows, fun stopped => ?_⟩
    rw [running] at stopped
    cases stopped
  have kept : Kept world ∧ Always Holds world.journal := by
    refine Machine.Reaches.always ⟨off _ rfl rfl, always_nil⟩ (grows_perform platform)
      (fun _ => rfl) ?_ ?_ reachable
    · intro world action kept always enabled permitted
      cases action with
      | start =>
          obtain ⟨knows, added⟩ := started world (kept.2 enabled) always
          exact ⟨on _ (by rw [perform_start, finish_appStart]) knows, added⟩
      | command command environment =>
          have result : Served platform environment (world.record (.received command))
              command.request _ := served_command command
          obtain ⟨knows, added⟩ := served world _ command environment (kept.1 enabled)
            always permitted result
          exact ⟨on _ (result.running.trans enabled) knows, added⟩
      | choose confirm environment =>
          obtain ⟨review, shown⟩ := Option.isSome_iff_exists.mp enabled.2
          have result : Chosen platform environment (world.answering review confirm) review
              confirm _ := chosen_review shown confirm
          obtain ⟨knows, added⟩ := chosen world _ review confirm environment
            (kept.1 enabled.1) always shown result
          exact ⟨on _ (result.running.1.trans enabled.1) knows, added⟩
      | toggle setting =>
          obtain ⟨nvm, finish, _⟩ := finish_controlsCallback setting world
          rw [perform_toggle, finish]
          exact ⟨on _ enabled (toggled world nvm (kept.1 enabled)), always⟩
    · intro world action _ _ _ content _
      exact off _ rfl rfl
  exact ⟨kept.1.1, kept.2⟩

end Runs

/-! ## One approval, one signature -/

def onScreen : List Entry → Option Review
  | [] => none
  | .started :: _ => none
  | .displayed review :: _ => some review
  | .chose _ _ :: _ => none
  | _ :: rest => onScreen rest

def signing : List Entry → Bool
  | [] => false
  | .signs _ _ :: _ => true
  | .started :: _ => false
  | .received _ :: _ => false
  | .answered _ :: _ => false
  | _ :: rest => signing rest

/-- The user answers what is on the screen, each approval of a transaction is followed by
signing it at once, and the first part of a signature comes from signing just now. -/
def Entry.Approved : Entry → List Entry → Prop
  | .chose review _, rest => onScreen rest = some review
  | .signs _ _, rest => ∃ pairs origin before,
      rest = .chose (.transaction pairs origin) true :: before
  | .answered (.signature 0 _), rest => signing rest = true
  | _, _ => True

section Approvals

variable {platform : Platform} {environment : Environment} {world final : World}

theorem onScreen_sigWritten (writes : ℕ) (journal : List Entry) :
    onScreen (List.replicate writes .sigWritten ++ journal) = onScreen journal := by
  induction writes with
  | zero => rfl
  | succ writes induction => exact induction

theorem signing_sigWritten (writes : ℕ) (journal : List Entry) :
    signing (List.replicate writes .sigWritten ++ journal) = signing journal := by
  induction writes with
  | zero => rfl
  | succ writes induction => exact induction

def World.KnowsScreen (world : World) : Prop := world.review = onScreen world.journal

theorem Entry.approved_part {index : ℕ} (later : index ≠ 0) (bytes : List UInt8)
    (rest : List Entry) : (Entry.answered (.signature index bytes)).Approved rest := by
  cases index with
  | zero => exact absurd rfl later
  | succ index => trivial

theorem Served.approved {request : Request} (knows : world.KnowsScreen)
    (always : Always Entry.Approved world.journal)
    (served : Served platform environment world request final) :
    final.KnowsScreen ∧ Always Entry.Approved final.journal := by
  cases served with
  | turnedAway _ => exact ⟨knows, trivial, always⟩
  | version => exact ⟨knows, trivial, always⟩
  | appName => exact ⟨knows, trivial, always⟩
  | publicKey _ => exact ⟨knows, trivial, always⟩
  | pathRefused _ _ => exact ⟨knows, trivial, always⟩
  | sessionOpened _ => exact ⟨knows, trivial, always⟩
  | addressUnderivable _ _ => exact ⟨knows, trivial, trivial, always⟩
  | addressAnswered _ _ => exact ⟨knows, trivial, trivial, always⟩
  | addressShown _ _ => exact ⟨rfl, trivial, trivial, always⟩
  | chunkTaken _ _ =>
      rw [World.KnowsScreen, World.record_review, World.record_journal, taken_review,
        taken_journal]
      exact ⟨knows, trivial, trivial, always⟩
  | undecodable _ _ _ =>
      rw [World.KnowsScreen, World.record_review, World.record_journal, digested_review,
        digested_journal]
      exact ⟨knows, trivial, trivial, always⟩
  | forbidden _ _ _ _ _ =>
      rw [World.KnowsScreen, World.record_review, World.record_journal, examined_review,
        examined_journal]
      exact ⟨knows, trivial, trivial, trivial, always⟩
  | underivable _ _ _ _ _ =>
      rw [World.KnowsScreen, World.record_review, World.record_journal, World.record_review,
        World.record_journal, examined_review, examined_journal]
      exact ⟨knows, trivial, trivial, trivial, trivial, always⟩
  | reviewShown _ _ _ _ _ =>
      rw [World.KnowsScreen, World.shown_review, World.shown_journal,
        World.addressed_journal, examined_journal]
      exact ⟨rfl, trivial, trivial, trivial, trivial, always⟩
  | @signature _ p2 positive _ _ _ =>
      have later : p2.toNat ≠ 0 := Nat.pos_iff_ne_zero.mp positive
      exact ⟨knows, Entry.approved_part later _ _, always⟩
  | lastSignature _ _ => exact ⟨knows, trivial, always⟩

theorem Chosen.knowsScreen {review : Review} {confirm : Bool}
    (chosen : Chosen platform environment (world.answering review confirm) review confirm
      final) : final.KnowsScreen := by
  have none : final.review = none := chosen.running.2
  have empty : onScreen final.journal = Option.none := by
    cases chosen with
    | addressConfirmed => rfl
    | addressRejected => rfl
    | transactionRejected => rfl
    | signingFailed writes _ =>
        rw [unsigned_journal]
        exact (onScreen_sigWritten writes _).trans rfl
    | verificationFailed writes _ _ =>
        rw [unsigned_journal]
        exact (onScreen_sigWritten writes _).trans rfl
    | released writes _ _ =>
        rw [World.released_journal]
        exact (onScreen_sigWritten writes _).trans rfl
  exact none.trans empty.symm

theorem Chosen.approved {review : Review} {confirm : Bool} (knows : world.KnowsScreen)
    (always : Always Entry.Approved world.journal) (shown : world.review = some review)
    (chosen : Chosen platform environment (world.answering review confirm) review confirm
      final) : Always Entry.Approved final.journal := by
  have answers : (Entry.chose review confirm).Approved world.journal :=
    knows.symm.trans shown
  have written : ∀ (writes : ℕ) (journal : List Entry), Always Entry.Approved journal →
      Always Entry.Approved (List.replicate writes .sigWritten ++ journal) :=
    fun writes _ => (always_replicate_append (fun _ => trivial) writes).mpr
  have signs : ∀ pairs origin, review = .transaction pairs origin → confirm = true →
      Always Entry.Approved ((world.answering review confirm).signing environment).journal := by
    intro pairs origin transaction confirmed
    subst transaction confirmed
    exact ⟨trivial, ⟨pairs, origin, _, rfl⟩, answers, always⟩
  cases chosen with
  | addressConfirmed => exact ⟨trivial, answers, always⟩
  | addressRejected => exact ⟨trivial, answers, always⟩
  | transactionRejected => exact ⟨trivial, answers, always⟩
  | signingFailed writes _ =>
      rw [unsigned_journal]
      exact ⟨trivial, written writes _ (signs _ _ rfl rfl)⟩
  | verificationFailed writes _ _ =>
      rw [unsigned_journal]
      exact ⟨trivial, trivial, trivial, written writes _ (signs _ _ rfl rfl)⟩
  | released writes _ _ =>
      rw [World.released_journal]
      exact ⟨(signing_sigWritten writes _).trans rfl, trivial, trivial,
        written writes _ (signs _ _ rfl rfl)⟩

/-! ### Counting -/

def Entry.isTransactionReview : Entry → Bool
  | .displayed (.transaction _ _) => true
  | _ => false

def Entry.isApproval : Entry → Bool
  | .chose (.transaction _ _) true => true
  | _ => false

def Entry.isSigning : Entry → Bool
  | .signs _ _ => true
  | _ => false

def Entry.isRelease : Entry → Bool
  | .answered (.signature 0 _) => true
  | _ => false

def transactionOnScreen (journal : List Entry) : Bool :=
  match onScreen journal with
  | some (.transaction _ _) => true
  | _ => false

def justApproved : List Entry → Bool
  | entry :: _ => entry.isApproval
  | [] => false

theorem approvals_le {journal : List Entry} (always : Always Entry.Approved journal) :
    journal.countP Entry.isApproval ≤ journal.countP Entry.isTransactionReview := by
  have counted : journal.countP Entry.isApproval + (transactionOnScreen journal).toNat ≤
      journal.countP Entry.isTransactionReview := by
    refine countP_le_countP rfl (fun entry rest approved => ?_) always
    cases entry with
    | displayed review =>
        cases review with
        | address text => exact Nat.zero_le _
        | transaction pairs origin => exact Nat.le_add_left _ _
    | chose review confirm =>
        have shown : onScreen rest = some review := approved
        cases review with
        | address text => exact Nat.zero_le _
        | transaction pairs origin =>
            rw [transactionOnScreen.eq_def rest, shown]
            cases confirm with
            | false => exact Nat.zero_le _
            | true => exact Nat.le_refl _
    | started => exact Nat.zero_le _
    | _ => exact Nat.le_of_eq (Nat.zero_add _)
  omega

theorem signings_le {journal : List Entry} (always : Always Entry.Approved journal) :
    journal.countP Entry.isSigning ≤ journal.countP Entry.isApproval := by
  have counted : journal.countP Entry.isSigning + (justApproved journal).toNat ≤
      journal.countP Entry.isApproval := by
    refine countP_le_countP rfl (fun entry rest approved => ?_) always
    cases entry with
    | signs path message =>
        obtain ⟨pairs, origin, before, equal⟩ := approved
        rw [equal]
        exact Nat.le_refl _
    | chose review confirm => exact Nat.zero_add _ ▸ Nat.le_add_left _ _
    | _ => exact Nat.zero_le _
  omega

theorem releases_le {journal : List Entry} (always : Always Entry.Approved journal) :
    journal.countP Entry.isRelease ≤ journal.countP Entry.isSigning := by
  have counted : journal.countP Entry.isRelease + (signing journal).toNat ≤
      journal.countP Entry.isSigning := by
    refine countP_le_countP rfl (fun entry rest approved => ?_) always
    cases entry with
    | signs path message => exact Nat.le_add_left _ _
    | started => exact Nat.zero_le _
    | received command => exact Nat.zero_le _
    | answered response =>
        cases response with
        | signature index bytes =>
            cases index with
            | zero =>
                have signed : signing rest = true := approved
                rw [signed]
                exact Nat.le_refl _
            | succ index => exact Nat.zero_le _
        | _ => exact Nat.zero_le _
    | _ => exact Nat.le_of_eq (Nat.zero_add _)
  omega

/-- Over every run, whatever commands arrive while a review is on the screen and wherever
power is lost: each answer of the user is to the review on the screen, signing follows its
approval at once, and no more signatures leave than transactions were signed, no more are
signed than approved, and no more approved than reviewed. -/
theorem one_signature_each_approval (platform : Platform) (world : World)
    (reachable : Reachable platform Machine.Anything world) :
    (world.running = true → world.review = onScreen world.journal) ∧
      Always Entry.Approved world.journal ∧
      world.journal.countP Entry.isRelease ≤ world.journal.countP Entry.isSigning ∧
      world.journal.countP Entry.isSigning ≤ world.journal.countP Entry.isApproval ∧
      world.journal.countP Entry.isApproval ≤
        world.journal.countP Entry.isTransactionReview := by
  have kept : (world.running = true → world.KnowsScreen) ∧
      Always Entry.Approved world.journal := by
    refine Reachable.whileRunning ?_ ?_ ?_ ?_ reachable
    · intro world none always
      rw [finish_appStart]
      exact ⟨none, trivial, always⟩
    · intro world final command environment knows always _ served
      have received : Always Entry.Approved (world.record (.received command)).journal :=
        ⟨trivial, always⟩
      have screen : (world.record (.received command)).KnowsScreen := knows
      exact served.approved screen received
    · intro world final review confirm environment knows always shown chosen
      exact ⟨chosen.knowsScreen, chosen.approved knows always shown⟩
    · intro world nvm knows
      exact knows
  exact ⟨kept.1, kept.2, releases_le kept.2, signings_le kept.2, approvals_le kept.2⟩

end Approvals

/-- A transaction is reviewed, approved and signed. -/
theorem one_signature_each_approval_simple :
    ∃ world : World, 1 ≤ world.journal.countP Entry.isSigning ∧
      (world.running = true → world.review = onScreen world.journal) ∧
      Always Entry.Approved world.journal ∧
      world.journal.countP Entry.isRelease ≤ world.journal.countP Entry.isSigning ∧
      world.journal.countP Entry.isSigning ≤ world.journal.countP Entry.isApproval ∧
      world.journal.countP Entry.isApproval ≤
        world.journal.countP Entry.isTransactionReview := by
  obtain ⟨pairs, origin, world, reachable, _, running, shown, _⟩ := reviewed_simple
  have approved : Reachable simplePlatform Machine.Anything
      ((chooseReview simplePlatform derivingEnvironment true).finish world) :=
    Reachable.choose reachable running (by rw [shown]; rfl) trivial
  obtain ⟨newer, journal⟩ := (chosen_review shown true).signs
  refine ⟨_, ?_, one_signature_each_approval simplePlatform _ approved⟩
  apply List.countP_pos_iff.mpr
  refine ⟨.signs world.ctx.path world.ctx.mHash, ?_, rfl⟩
  rw [journal]
  exact List.mem_append_right _ List.mem_cons_self

/-! ## One command, one answer -/

def outstanding : List Entry → Bool
  | [] => false
  | .started :: _ => false
  | .received _ :: _ => true
  | .answered _ :: _ => false
  | _ :: rest => outstanding rest

/-- Commands and answers take turns, and a review is shown for a command. -/
def Entry.InTurn : Entry → List Entry → Prop
  | .received _, rest => outstanding rest = false
  | .answered _, rest => outstanding rest = true
  | .displayed _, rest => outstanding rest = true
  | _, _ => True

/-- The host waits for the answer to a command, as its functions do. -/
def Waits (world : World) : Action → Prop
  | .command .. => world.review = none
  | _ => True

section Turns

variable {platform : Platform} {environment : Environment} {world final : World}

theorem outstanding_sigWritten (writes : ℕ) (journal : List Entry) :
    outstanding (List.replicate writes .sigWritten ++ journal) = outstanding journal := by
  induction writes with
  | zero => rfl
  | succ writes induction => exact induction

/-- A command is left unanswered exactly when its review is on the screen. -/
def World.AwaitsUser (world : World) : Prop :=
  outstanding world.journal = world.review.isSome

theorem Served.inTurn {request : Request} (open' : outstanding world.journal = true)
    (none : world.review = none) (always : Always Entry.InTurn world.journal)
    (served : Served platform environment world request final) :
    final.AwaitsUser ∧ Always Entry.InTurn final.journal := by
  have answered : ∀ (other : World) (response : Response), other.review = world.review →
      outstanding other.journal = true → Always Entry.InTurn other.journal →
        (other.record (.answered response)).AwaitsUser ∧
          Always Entry.InTurn (other.record (.answered response)).journal := by
    intro other response same waiting always
    refine ⟨?_, waiting, always⟩
    rw [World.AwaitsUser, World.record_review, same, none]
    rfl
  have shown : ∀ (other : World) (review : Review), outstanding other.journal = true →
      Always Entry.InTurn other.journal →
        (other.shown review).AwaitsUser ∧ Always Entry.InTurn (other.shown review).journal :=
    fun other review waiting always => ⟨waiting, waiting, always⟩
  cases served with
  | turnedAway _ => exact answered _ _ rfl open' always
  | version => exact answered _ _ rfl open' always
  | appName => exact answered _ _ rfl open' always
  | publicKey _ => exact answered _ _ rfl open' always
  | pathRefused _ _ => exact answered _ _ rfl open' always
  | sessionOpened _ => exact answered _ _ rfl open' always
  | addressUnderivable _ _ => exact answered _ _ rfl open' ⟨trivial, always⟩
  | addressAnswered _ _ => exact answered _ _ rfl open' ⟨trivial, always⟩
  | addressShown _ _ => exact shown _ _ open' ⟨trivial, always⟩
  | chunkTaken _ _ =>
      apply answered
      · exact taken_review _ _ _
      · rw [taken_journal]
        exact open'
      · rw [taken_journal]
        exact ⟨trivial, always⟩
  | undecodable _ _ _ =>
      apply answered
      · exact digested_review _ _ _
      · rw [digested_journal]
        exact open'
      · rw [digested_journal]
        exact ⟨trivial, always⟩
  | forbidden _ _ _ _ _ =>
      apply answered
      · exact examined_review _ _ _
      · rw [examined_journal]
        exact open'
      · rw [examined_journal]
        exact ⟨trivial, trivial, always⟩
  | underivable _ _ _ _ _ =>
      apply answered
      · rw [World.record_review]
        exact examined_review _ _ _
      · rw [World.record_journal, examined_journal]
        exact open'
      · rw [World.record_journal, examined_journal]
        exact ⟨trivial, trivial, trivial, always⟩
  | reviewShown _ _ _ _ _ =>
      apply shown
      · rw [World.addressed_journal, examined_journal]
        exact open'
      · rw [World.addressed_journal, examined_journal]
        exact ⟨trivial, trivial, trivial, always⟩
  | signature _ _ _ _ => exact answered _ _ rfl open' always
  | lastSignature _ _ =>
      have empty : world.review.isSome = false := by
        rw [none]
        rfl
      exact ⟨empty.symm, open', always⟩

theorem Chosen.inTurn {review : Review} {confirm : Bool}
    (open' : outstanding world.journal = true) (always : Always Entry.InTurn world.journal)
    (chosen : Chosen platform environment (world.answering review confirm) review confirm
      final) : final.AwaitsUser ∧ Always Entry.InTurn final.journal := by
  have none : final.review = none := chosen.running.2
  have written : ∀ (writes : ℕ) (journal : List Entry), Always Entry.InTurn journal →
      Always Entry.InTurn (List.replicate writes .sigWritten ++ journal) :=
    fun writes _ => (always_replicate_append (fun _ => trivial) writes).mpr
  have signing : Always Entry.InTurn
      ((world.answering review confirm).signing environment).journal :=
    ⟨trivial, trivial, trivial, always⟩
  have answered : outstanding final.journal = false ∧ Always Entry.InTurn final.journal := by
    cases chosen with
    | addressConfirmed => exact ⟨rfl, open', trivial, always⟩
    | addressRejected => exact ⟨rfl, open', trivial, always⟩
    | transactionRejected => exact ⟨rfl, open', trivial, always⟩
    | signingFailed writes _ =>
        rw [unsigned_journal]
        exact ⟨rfl, (outstanding_sigWritten writes _).trans open', written writes _ signing⟩
    | verificationFailed writes _ _ =>
        rw [unsigned_journal]
        exact ⟨rfl, (outstanding_sigWritten writes _).trans open', trivial, trivial,
          written writes _ signing⟩
    | released writes _ _ =>
        rw [World.released_journal]
        exact ⟨rfl, (outstanding_sigWritten writes _).trans open', trivial, trivial,
          written writes _ signing⟩
  refine ⟨?_, answered.2⟩
  rw [World.AwaitsUser, answered.1, none]
  rfl

/-- While the host waits for the answer to each command, every command is answered exactly
once before the next one is received, and is left unanswered only as long as its review
is on the screen. -/
theorem answered_in_turn (platform : Platform) (world : World)
    (reachable : Reachable platform Waits world) :
    Always Entry.InTurn world.journal ∧
      (world.running = true → outstanding world.journal = world.review.isSome) := by
  have kept : (world.running = true → world.AwaitsUser) ∧
      Always Entry.InTurn world.journal := by
    refine Reachable.whileRunning ?_ ?_ ?_ ?_ reachable
    · intro world none always
      rw [finish_appStart]
      refine ⟨?_, trivial, always⟩
      rw [World.AwaitsUser, none]
      rfl
    · intro world final command environment knows always waits served
      have none : world.review = none := waits
      have quiet : outstanding world.journal = false := by
        rw [knows, none]
        rfl
      have received : Always Entry.InTurn (world.record (.received command)).journal :=
        ⟨quiet, always⟩
      have open' : outstanding (world.record (.received command)).journal = true := rfl
      exact served.inTurn open' none received
    · intro world final review confirm environment knows always shown chosen
      have waiting : outstanding world.journal = true := by
        rw [knows, shown]
        rfl
      exact chosen.inTurn waiting always
    · intro world nvm knows
      exact knows
  exact ⟨kept.2, kept.1⟩

/-- A command that waits for the user. -/
theorem answered_in_turn_simple :
    ∃ world : World, (∃ pairs origin, world.review = some (.transaction pairs origin)) ∧
      Always Entry.InTurn world.journal ∧
      (world.running = true → outstanding world.journal = world.review.isSome) := by
  have started : Reachable simplePlatform Waits World.started :=
    Machine.Reaches.performed .start
      (show (app simplePlatform).enabled .installed .start from rfl) trivial
  have none : World.started.review = Option.none := by
    rw [World.started, finish_appStart]
    rfl
  have session : (World.started.inSession 0).review = Option.none := by
    rw [World.inSession, World.record_review, World.opened_review, World.record_review, none]
  obtain ⟨world, _, reviewed, _, _, _, _, _, shown⟩ :=
    reachable_underReview started started_running none session
  exact ⟨_, shown, answered_in_turn simplePlatform _ reviewed⟩

end Turns

end LedgerQrl.App
