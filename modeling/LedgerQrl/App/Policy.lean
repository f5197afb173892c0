import LedgerQrl.App.Approval

namespace LedgerQrl.App

open Foundation Mldsa87 Display Transaction

/-! # Only the user changes the policy

The settings keep their values across commands, reviews and loss of power until the
user switches them. While blind signing is off, only plain transactions come to a
review and to a signature. -/

/-! ## Settings -/

section Settings

variable {platform : Platform} {setting : Setting} {start world before after : World}
  {switches : Setting → Prop}

theorem value_of_settings {first second : InternalStorage}
    (same : settings first = settings second) :
    setting.value first = setting.value second := by
  obtain ⟨blindSigning, rest⟩ := Prod.mk.inj same
  obtain ⟨nonce, txHash⟩ := Prod.mk.inj rest
  cases setting with
  | blindSigning => exact blindSigning
  | nonce => exact nonce
  | txHash => exact txHash

theorem Step.setting_eq (step : Step switches before after) (kept : ¬ switches setting) :
    setting.value after.nvm = setting.value before.nvm := by
  cases step with
  | started => rfl
  | setCtx ctx => rfl
  | recorded entry => rfl
  | displayed review => rfl
  | chosen review confirm => rfl
  | scratch nvm same => exact value_of_settings (of_flags (of_lasting same).2).1
  | signing nvm same => exact value_of_settings (of_flags same).1
  | sending flag => cases setting <;> rfl
  | switched other allowed =>
      have different : other ≠ setting := fun equal => kept (equal ▸ allowed)
      exact (value_switch other setting _).trans (if_neg different)

def LeavesAlone (setting : Setting) (_ : World) (action : Action) : Prop :=
  ¬ action.Switches setting

theorem setting_kept (reaches : (app platform).Reaches (LeavesAlone setting) start world) :
    setting.value world.nvm = setting.value start.nvm := by
  let Same (content : World) : Prop := setting.value content.nvm = setting.value start.nvm
  have kept : ∀ (world : World) (action : Action), LeavesAlone setting world action →
      Program.Preserves Same ((app platform).perform action) := by
    intro world action alone
    refine (follows_perform platform action).preserves fun before after step same => ?_
    exact (step.setting_eq alone).trans same
  have same : Same world := by
    refine Machine.Reaches.invariant rfl ?_ ?_ reaches
    · intro world action same _ alone
      exact (kept world action alone).finish same
    · intro world action same _ alone content member
      have cut : Same content := (kept world action alone).visited same member
      exact cut
  exact same

end Settings

/-! ## Blind signing -/

/-- A transaction that is decoded and has neither data nor an access list. -/
def Plain (platform : Platform) (bytes : List UInt8) : Prop :=
  ∃ tx, decodeLedgerTx platform.sizeWidth bytes .zero = .ok tx ∧ tx.hasData = false ∧
    tx.hasAccessList = false

/-- What is recorded as long as blind signing is off. -/
def Entry.Unblinded (platform : Platform) : Entry → Prop
  | .checked blindSigning => blindSigning = false
  | .displayed (.transaction _ origin) => Plain platform origin.transaction
  | _ => True

def LeavesOff (world : World) (action : Action) : Prop :=
  LeavesAlone .blindSigning world action ∧ world.nvm.enableBlindSigning = 0

section BlindSigning

variable {platform : Platform} {environment : Environment} {start world final : World}
  {Holds : Entry → List Entry → Prop}

theorem reaches_leavesOff {allowed : World → Action → Prop}
    (alone : ∀ world action, allowed world action → LeavesAlone .blindSigning world action)
    (off : start.nvm.enableBlindSigning = 0)
    (reaches : (app platform).Reaches allowed start world) :
    (app platform).Reaches (fun world action => allowed world action ∧
      LeavesOff world action) start world := by
  have stays : ∀ world, (app platform).Reaches allowed start world →
      world.nvm.enableBlindSigning = 0 := by
    intro world reaches
    have left := reaches.mono alone
    exact (setting_kept left).trans off
  exact (reaches.strengthen stays).mono fun world action permitted =>
    ⟨permitted.1, alone world action permitted.1, permitted.2⟩

theorem plain_of_permitted {bytes : List UInt8} {tx : ZondTx}
    (decoded : decodeLedgerTx platform.sizeWidth bytes .zero = .ok tx)
    (off : world.nvm.enableBlindSigning = 0)
    (permitted : (tx.hasData || tx.hasAccessList) = true →
      world.nvm.enableBlindSigning ≠ 0) : Plain platform bytes := by
  have unblinded : ¬ (tx.hasData || tx.hasAccessList) = true := fun blind =>
    permitted blind off
  rw [Bool.not_eq_true, Bool.or_eq_false_iff] at unblinded
  exact ⟨tx, decoded, unblinded⟩

theorem Served.unblinded {request : Request}
    (holds : ∀ entry rest, entry.Unblinded platform → Holds entry rest)
    (off : world.nvm.enableBlindSigning = 0) (always : Always Holds world.journal)
    (served : Served platform environment world request final) :
    Always Holds final.journal := by
  have checked : ∀ rest, Holds (.checked (world.nvm.enableBlindSigning ≠ 0)) rest := by
    intro rest
    exact holds _ rest (by simp [Entry.Unblinded, off])
  cases served with
  | turnedAway _ => exact ⟨holds _ _ trivial, always⟩
  | version => exact ⟨holds _ _ trivial, always⟩
  | appName => exact ⟨holds _ _ trivial, always⟩
  | publicKey _ => exact ⟨holds _ _ trivial, always⟩
  | pathRefused _ _ => exact ⟨holds _ _ trivial, always⟩
  | sessionOpened _ => exact ⟨holds _ _ trivial, always⟩
  | addressUnderivable _ _ => exact ⟨holds _ _ trivial, holds _ _ trivial, always⟩
  | addressAnswered _ _ => exact ⟨holds _ _ trivial, holds _ _ trivial, always⟩
  | addressShown _ _ => exact ⟨holds _ _ trivial, holds _ _ trivial, always⟩
  | chunkTaken _ _ =>
      rw [World.record_journal, taken_journal]
      exact ⟨holds _ _ trivial, holds _ _ trivial, always⟩
  | undecodable _ _ _ =>
      rw [World.record_journal, digested_journal]
      exact ⟨holds _ _ trivial, holds _ _ trivial, always⟩
  | forbidden _ _ _ _ _ =>
      rw [World.record_journal, examined_journal]
      exact ⟨holds _ _ trivial, checked _, holds _ _ trivial, always⟩
  | underivable _ _ _ _ _ =>
      rw [World.record_journal, World.record_journal, examined_journal]
      exact ⟨holds _ _ trivial, holds _ _ trivial, checked _, holds _ _ trivial, always⟩
  | @reviewShown data tx rawSeed _ _ decoded permitted _ =>
      have plain : Entry.Unblinded platform (.displayed
          (((world.examined platform data).addressed platform rawSeed).transactionReview
            platform tx)) := plain_of_permitted decoded off permitted
      rw [World.shown_journal, World.addressed_journal, examined_journal]
      exact ⟨holds _ _ plain, holds _ _ trivial, checked _, holds _ _ trivial, always⟩
  | signature _ _ _ _ => exact ⟨holds _ _ trivial, always⟩
  | lastSignature _ _ => exact ⟨holds _ _ trivial, always⟩

theorem Chosen.unblinded {review : Review} {confirm : Bool}
    (holds : ∀ entry rest, entry.Unblinded platform → Holds entry rest)
    (always : Always Holds world.journal)
    (chosen : Chosen platform environment world review confirm final) :
    Always Holds final.journal := by
  have written : ∀ (writes : ℕ) (journal : List Entry), Always Holds journal →
      Always Holds (List.replicate writes .sigWritten ++ journal) := fun writes _ =>
    (always_replicate_append (fun rest => holds .sigWritten rest trivial) writes).mpr
  have signing : Always Holds (world.signing environment).journal :=
    ⟨holds _ _ trivial, holds _ _ trivial, always⟩
  cases chosen with
  | addressConfirmed => exact ⟨holds _ _ trivial, always⟩
  | addressRejected => exact ⟨holds _ _ trivial, always⟩
  | transactionRejected => exact ⟨holds _ _ trivial, always⟩
  | signingFailed writes _ =>
      rw [unsigned_journal]
      exact ⟨holds _ _ trivial, written writes _ signing⟩
  | verificationFailed writes _ _ =>
      rw [unsigned_journal]
      exact ⟨holds _ _ trivial, holds _ _ trivial, holds _ _ trivial,
        written writes _ signing⟩
  | released writes _ _ =>
      rw [World.released_journal]
      exact ⟨holds _ _ trivial, holds _ _ trivial, holds _ _ trivial,
        written writes _ signing⟩

def Since (platform : Platform) (start : World) (entry : Entry) (rest : List Entry) : Prop :=
  start.journal <:+ rest → entry.Unblinded platform

theorem since_start (platform : Platform) (start : World) :
    Always (Since platform start) start.journal := by
  apply always_iff.mpr
  intro newer entry older journal suffix
  have longer := suffix.length_le
  rw [journal, List.length_append, List.length_cons] at longer
  omega

theorem unblinded_since (off : start.nvm.enableBlindSigning = 0)
    (reaches : (app platform).Reaches (LeavesAlone .blindSigning) start world) :
    Always (Since platform start) world.journal := by
  have holds : ∀ entry rest, entry.Unblinded platform → Since platform start entry rest :=
    fun entry rest unblinded _ => unblinded
  let Anyhow (_ : World) : Prop := True
  have kept : Anyhow world ∧ Always (Since platform start) world.journal := by
    refine Machine.Reaches.always ⟨trivial, since_start platform start⟩
      (grows_perform platform) (fun _ => rfl) ?_ ?_
      (reaches_leavesOff (fun _ _ alone => alone) off reaches)
    · intro world action _ always enabled permitted
      refine ⟨trivial, ?_⟩
      cases action with
      | start =>
          rw [perform_start, finish_appStart]
          exact ⟨holds _ _ trivial, always⟩
      | command command environment =>
          have served : Served platform environment (world.record (.received command))
              command.request _ := served_command command
          have received : Always (Since platform start)
              (world.record (.received command)).journal := ⟨holds _ _ trivial, always⟩
          have off : (world.record (.received command)).nvm.enableBlindSigning = 0 :=
            permitted.2.2
          exact served.unblinded holds off received
      | choose confirm environment =>
          obtain ⟨review, shown⟩ := Option.isSome_iff_exists.mp enabled.2
          have chosen : Chosen platform environment (world.answering review confirm) review
              confirm _ := chosen_review shown confirm
          have answering : Always (Since platform start)
              (world.answering review confirm).journal := ⟨holds _ _ trivial, always⟩
          exact chosen.unblinded holds answering
      | toggle setting =>
          obtain ⟨nvm, finish, _⟩ := finish_controlsCallback setting world
          rw [perform_toggle, finish]
          exact always
    · intro _ _ _ _ _ _ _
      trivial
  exact kept.2

theorem journal_grown {allowed : World → Action → Prop}
    (reaches : (app platform).Reaches allowed start world) :
    start.journal <:+ world.journal := by
  let Grown (content : World) : Prop := start.journal <:+ content.journal
  have grown : Grown world := by
    refine Machine.Reaches.invariant List.suffix_rfl ?_ ?_ reaches
    · intro world action grown _ _
      have added := grows_perform platform action world _ (Program.finish_mem_visited _ _)
      exact List.IsSuffix.trans grown added.1
    · intro world action grown _ _ content member
      have added := grows_perform platform action world content member
      exact List.IsSuffix.trans grown added.1
  exact grown

/-- As long as blind signing is left off, every transaction that comes to a review is
plain, whatever was on the device before. -/
theorem plain_transactions_reviewed (platform : Platform) (start world : World)
    (off : start.nvm.enableBlindSigning = 0)
    (reaches : (app platform).Reaches (LeavesAlone .blindSigning) start world) :
    world.nvm.enableBlindSigning = 0 ∧
      ∃ since, world.journal = since ++ start.journal ∧
        ∀ entry ∈ since, entry.Unblinded platform := by
  have stays : world.nvm.enableBlindSigning = 0 := (setting_kept reaches).trans off
  obtain ⟨since, journal⟩ := journal_grown reaches
  refine ⟨stays, since, journal.symm, fun entry member => ?_⟩
  obtain ⟨newer, older, split⟩ := List.append_of_mem member
  have whole : world.journal = newer ++ entry :: (older ++ start.journal) := by
    rw [← journal, split, List.append_assoc, List.cons_append]
  exact always_iff.mp (unblinded_since off reaches) newer entry _ whole
    (List.suffix_append _ _)

/-- A transaction comes to its review from a fresh installation. -/
theorem plain_transactions_reviewed_simple :
    ∃ world : World, (∃ pairs origin, world.review = some (.transaction pairs origin)) ∧
      world.nvm.enableBlindSigning = 0 ∧
      ∃ since, world.journal = since ++ World.installed.journal ∧
        ∀ entry ∈ since, entry.Unblinded simplePlatform := by
  have started : Reachable simplePlatform (LeavesAlone .blindSigning) World.started :=
    Machine.Reaches.performed .start
      (show (app simplePlatform).enabled .installed .start from rfl) id
  obtain ⟨world, _, reviewed, _, _, _, _, _, shown⟩ :=
    reachable_underReview started started_running id id
  exact ⟨_, shown, plain_transactions_reviewed simplePlatform .installed _ rfl reviewed⟩

theorem underReview_split : ∀ {journal : List Entry} {review : Review} {shown : List Entry},
    underReview journal = some (review, shown) →
      ∃ newer, journal = newer ++ .displayed review :: shown
  | [], _, _, latest => by cases latest
  | entry :: rest, review, shown, latest => by
      have later : underReview rest = some (review, shown) →
          ∃ newer, entry :: rest = newer ++ .displayed review :: shown := by
        intro latest
        obtain ⟨newer, split⟩ := underReview_split latest
        exact ⟨entry :: newer, by rw [split, List.cons_append]⟩
      cases entry with
      | displayed other =>
          obtain ⟨rfl, rfl⟩ := Prod.mk.inj (Option.some.inj latest)
          exact ⟨[], rfl⟩
      | _ => exact later latest

/-- Where reviews are also approved only while they are settled, every transaction that is
signed is plain, and is the one that was under review. -/
theorem plain_transactions_signed (platform : Platform) (world : World)
    (reachable : Reachable platform (fun world action => ApprovesSettled world action ∧
      LeavesAlone .blindSigning world action) world)
    (newer older : List Entry) (path : List UInt32) (message : Vector UInt8 32)
    (journal : world.journal = newer ++ .signs path message :: older) :
    ∃ pairs origin before shown,
      older = .chose (.transaction pairs origin) true :: before ∧
        underReview before = some (.transaction pairs origin, shown) ∧
        Plain platform origin.transaction ∧
        message = keccak256 platform.permutation origin.transaction := by
  have off : World.installed.nvm.enableBlindSigning = 0 := rfl
  have kept : world.KnowsReview platform ∧
      Always (fun entry rest => entry.AsReviewed platform rest) world.journal := by
    refine Reachable.always ?_ ?_ ?_ ?_ ?_ reachable
    · intro world off running
      rw [off] at running
      cases running
    · intro world _ always
      rw [finish_appStart]
      refine ⟨fun _ => ⟨fun transaction => ?_, fun transaction => ?_, fun review _ still => ?_⟩,
        trivial, always⟩
      · cases transaction
      · cases transaction
      · cases still
    · intro world final command environment known always running _ served
      exact ⟨fun _ => served.reviewing (known running), served.asReviewed always⟩
    · intro world final review confirm environment known always running shown approves chosen
      exact ⟨fun _ => chosen.reviewing (known running),
        chosen.asReviewed (known running) always shown approves.1⟩
    · intro world nvm known _ _ _ running
      exact ⟨(known running).assembled, (known running).opened, (known running).holds⟩
  obtain ⟨pairs, origin, before, shown, chosen, latest, _, _, digest⟩ :=
    always_iff.mp kept.2 newer _ older journal
  obtain ⟨between, displayed⟩ := underReview_split latest
  have whole : world.journal = (newer ++ .signs path message ::
      .chose (.transaction pairs origin) true :: between) ++
        .displayed (.transaction pairs origin) :: shown := by
    rw [journal, chosen, displayed]
    simp only [List.append_assoc, List.cons_append]
  have unblinded := always_iff.mp (unblinded_since off
    (reachable.mono fun _ _ permitted => permitted.2)) _ _ _ whole (List.nil_suffix)
  exact ⟨pairs, origin, before, shown, chosen, latest, unblinded, digest⟩

/-- An approved transaction. -/
theorem plain_transactions_signed_simple :
    ∃ (world : World) (newer older : List Entry) (path : List UInt32)
      (message : Vector UInt8 32), world.journal = newer ++ .signs path message :: older ∧
        ∃ pairs origin before shown,
          older = .chose (.transaction pairs origin) true :: before ∧
            underReview before = some (.transaction pairs origin, shown) ∧
            Plain simplePlatform origin.transaction ∧
            message = keccak256 simplePlatform.permutation origin.transaction := by
  let Allowed (world : World) (action : Action) : Prop :=
    ApprovesSettled world action ∧ LeavesAlone .blindSigning world action
  have started : Reachable simplePlatform Allowed World.started :=
    Machine.Reaches.performed .start
      (show (app simplePlatform).enabled .installed .start from rfl) ⟨trivial, id⟩
  obtain ⟨world, _, reviewed, running, _, _, still, _, pairs, origin, shown⟩ :=
    reachable_underReview started started_running ⟨trivial, id⟩ ⟨trivial, id⟩
  have approved : Reachable simplePlatform Allowed
      ((chooseReview simplePlatform derivingEnvironment true).finish world) :=
    Reachable.choose reviewed running (by rw [shown]; rfl) ⟨fun _ => still, id⟩
  obtain ⟨newer, journal⟩ := (chosen_review shown true).signs
  exact ⟨_, newer, _, _, _, journal,
    plain_transactions_signed simplePlatform _ approved newer _ _ _ journal⟩

end BlindSigning

end LedgerQrl.App
