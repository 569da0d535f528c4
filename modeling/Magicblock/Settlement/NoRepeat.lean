import Magicblock.Settlement.Conduct
import Magicblock.Settlement.Intent

/-!
# Settlement/NoRepeat — no settlement is repeated

A run of `execute_intent` first settles the transaction its status tells of, then builds the work
that remains and executes it.  From there on the executor's guarantee holds: commits that have
landed are not submitted again, and nothing is submitted while another transaction may still land.
-/

namespace Magicblock

open Standing Exec Option PendingExecution

/-- **The start of the executor**: whatever plan fits what is recorded, nothing is under way. -/
structure Ready (start : OutboxIntentBundleStatus) (v : Standing) : Prop extends Sound start v where
  plan (tasks : List Task) (followUp : Option (List Task)) :
    (∀ tasks', followUp = some tasks' → CommitFree tasks') →
    (v.confirmedCommit.isSome → CommitFree tasks ∧ followUp = none) →
    (∀ pending, PendingExecution.fromStatus start = some pending → v.confirmedCommit = none →
      followUp.isSome = pending.hasFollowUp) →
    At start ⟨v.confirmedCommit, followUp.isSome⟩ none none
      { v with tasks := tasks, followUp := followUp }

section

variable {start : OutboxIntentBundleStatus} {s : Session} {v : Standing} {α : Type}

theorem patient_ready : Patient (Ready start) where
  unsettle h hqt :=
    { toSound := patient_sound.unsettle h.toSound hqt
      plan := fun tasks followUp hfree hcom hfits =>
        patient_at.unsettle (h.plan tasks followUp hfree hcom hfits) hqt }
  record h hqt :=
    { toSound := patient_sound.record h.toSound hqt
      plan := fun tasks followUp hfree hcom hfits =>
        patient_at.record (h.plan tasks followUp hfree hcom hfits) hqt }
  mend h :=
    { toSound := patient_sound.mend h.toSound
      plan := fun tasks followUp hfree hcom hfits =>
        patient_at.mend (h.plan tasks followUp hfree hcom hfits) }

/-- Nothing is under way, in the mode that was recorded. -/
theorem Standing.At.ready {tasks : List Task} {followUp : Option (List Task)}
    (h : At start m none none { v with tasks := tasks, followUp := followUp })
    (hm : ∀ pending, fromStatus start = some pending →
      m.confirmedCommit = none → pending.hasFollowUp = m.hasFollowUp)
    (hstart : (fromStatus start).isSome) : Ready start v where
  logOk := h.logOk
  confirmed := h.confirmed
  plan tasks followUp hfree hcom hfits := by
    have hv : v.confirmedCommit = m.confirmedCommit := congrArg Mode.confirmedCommit h.mode
    rw [hv] at hcom hfits
    have hhas : followUp.isSome = m.hasFollowUp := by
      by_cases hsome : m.confirmedCommit.isSome
      · rw [(hcom hsome).2, (h.followed hsome).2]
        rfl
      · obtain ⟨pending, hpend⟩ := isSome_iff_exists.mp hstart
        have hnone := not_isSome_iff_eq_none.mp hsome
        rw [hfits pending hpend hnone, hm pending hpend hnone]
    have hmode : (⟨v.confirmedCommit, followUp.isSome⟩ : Mode) = m := by rw [hv, hhas]
    rw [hmode]
    exact h.replan hhas hfree fun hsome => (hcom hsome).1

/-! ### Settling what was recorded -/

/-- What a log can begin with. -/
def Event.isOpening : Event → Bool
  | started _ | fetchFailed => true
  | _ => false

/-- A log in which nothing has happened yet. -/
def Opening (log : List Event) : Prop := ∀ e ∈ log, e.isOpening

section

variable {log : List Event}

theorem Opening.logOk (h : Opening log) : LogOk start log := by
  intro before e after heq
  have he : e.isOpening := h e (by simp [heq])
  cases e with
  | started | fetchFailed => trivial
  | _ => cases he

theorem Opening.unresolved (h : Opening log)
    (hopens : ∀ e, e.isOpening → opens e = none) : unresolved opens start log =
      ((fromStatus start).map (·.transaction.signature)).toList := by
  induction log using List.reverseRecOn with
  | nil => rfl
  | append_singleton log e ih =>
    have he : e.isOpening := h e List.mem_concat_self
    have hverd : e.verdict = none := by
      cases e with
      | confirmed | rejected => cases he
      | _ => rfl
    rw [unresolved_open hverd, hopens e he, toList_none, List.append_nil]
    exact ih fun e' he' => h e' (List.mem_append_left _ he')

theorem Opening.submitted (h : Opening log) : Magicblock.unresolved Event.submission start log =
    ((fromStatus start).map (·.transaction.signature)).toList :=
  h.unresolved fun e he => by
    cases e with
    | submitted => cases he
    | _ => rfl

theorem Opening.recorded (h : Opening log) : Magicblock.unresolved Event.record start log =
    ((fromStatus start).map (·.transaction.signature)).toList :=
  h.unresolved fun e he => by
    cases e with
    | recorded => cases he
    | _ => rfl

theorem Opening.of_settled (h : Opening log) (hs : CommitsSettled start log) :
    ∃ pending, fromStatus start = some pending ∧
      pending.confirmedCommit.isSome := by
  rcases hs with hstart | ⟨signature, hmem⟩
  · exact hstart
  · cases h _ hmem

end

/-- The standing at the start, as if the recorded transaction were the executor's. -/
theorem at_start (h : fromStatus start = some pending)
    (hstat : Undisturbed v.log → v.status = some start) (hqt : v.quiet) (hlog : Opening v.log)
    (hcom : v.confirmedCommit = pending.confirmedCommit) :
    At start ⟨pending.confirmedCommit, pending.hasFollowUp⟩ (some pending.transaction)
      (some pending.transaction)
      { v with tasks := [], followUp := if pending.hasFollowUp then some [] else none } where
  logOk := hlog.logOk
  confirmed commit hsome := .inl ⟨pending, h, by rwa [← hcom]⟩
  mode := by
    rw [Standing.mode, hcom]
    cases pending.hasFollowUp <;> rfl
  followUp tasks hts := by
    split_ifs at hts
    cases hts
    intro task htask
    cases htask
  followed hsome := by
    refine ⟨fun task htask => (by cases htask), ?_⟩
    rcases start with _ | (_ | (_ | _))
    · cases h
    all_goals
      cases h
      first
      | rfl
      | cases hsome
  quiet _ := hqt
  admits hu := ⟨start, hstat hu, Mode.eq_executing_of_fromStatus h ▸ Mode.admits_stage⟩
  settled hs := by
    obtain ⟨pending', h', hsome⟩ := hlog.of_settled hs
    cases h.symm.trans h'
    exact hsome
  submitted := hlog.submitted.trans (by rw [h]; rfl)
  recorded _ := hlog.recorded.trans (by rw [h]; rfl)
  holds p hu hp := by
    cases hp
    rw [Holds, hstat hu, bind_some, h]
    rfl

/-- A fresh session on the account that holds `start`; if the read before it failed, the account may
hold anything. -/
structure Fresh (start : OutboxIntentBundleStatus) (s : Session) : Prop where
  status : Undisturbed s.log → s.standing.status = some start
  quiet : s.detached = []
  log : Opening s.log
  confirmedCommit : s.confirmedCommit = none

theorem Fresh.sound (h : Fresh start s) : Sound start s.standing where
  logOk := h.log.logOk
  confirmed commit hsome := by
    rw [show s.standing.confirmedCommit = none from h.confirmedCommit] at hsome
    cases hsome

/-- An intent that was only accepted can be planned in any way. -/
theorem Fresh.ready (h : Fresh start s) (hstart : fromStatus start = none) :
    Ready start s.standing where
  toSound := h.sound
  plan tasks followUp hfree hcom _ :=
    { logOk := h.sound.logOk
      confirmed := h.sound.confirmed
      mode := rfl
      followUp := hfree
      followed := fun hsome => (hcom hsome).imp_right fun heq => by rw [heq]; rfl
      quiet := fun _ => by simp [Session.standing, h.quiet]
      admits := fun hu => ⟨start, h.status hu, Mode.admits_accepted hstart h.confirmedCommit⟩
      settled := fun hs => by
        obtain ⟨pending, hpend, -⟩ := h.log.of_settled hs
        cases hstart.symm.trans hpend
      submitted := h.log.submitted.trans (by rw [hstart]; rfl)
      recorded := fun _ => h.log.recorded.trans (by rw [hstart]; rfl)
      holds := fun _ _ => nofun }

namespace Settle

/-- The recorded transaction while its fate is asked for. -/
theorem patient_start {pending : PendingExecution} : Patient fun v =>
    At start ⟨pending.confirmedCommit, pending.hasFollowUp⟩ (some pending.transaction)
      (some pending.transaction)
      { v with tasks := [], followUp := if pending.hasFollowUp then some [] else none } where
  unsettle h := patient_at.unsettle h
  record h := patient_at.record h
  mend h := patient_at.mend h

theorem meets_resumePending (h : Fresh start s) :
    (resumePending start intent).Meets s (fun output s' =>
      if output.isSome then Sound start s'.standing else Ready start s'.standing)
      fun _ s' => Sound start s'.standing := by
  rw [resumePending]
  rcases hstart : fromStatus start with _ | pending
  · rw [meets_ite]
    exact ⟨fun _ => h.sound, fun _ => h.ready hstart⟩
  · have hat :=
      at_start (v := { s.standing with confirmedCommit := pending.confirmedCommit }) hstart
      h.status (by simp [Session.standing, h.quiet]) h.log rfl
    rw [meets_bind, setProgress, meets_modify, meets_bind, resolvePending, meets_bind]
    refine Meets.mono (meets_await patient_start (by exact hat)) (fun checks s' hs' => ?_)
      fun _ s' hs' => ⟨hs'.1.logOk, hs'.1.confirmed⟩
    obtain ⟨hat, -⟩ := hs'
    have hsound : Sound start s'.standing := ⟨hat.logOk, hat.confirmed⟩
    rw [meets_bind, meets_ofOption]
    refine ⟨fun res _ => meets_orFail (fun landed _ => ?_) fun _ => hsound, fun _ => hsound⟩
    have honly (q : PendingTransaction) (hq : some pending.transaction = some q) :
        q = pending.transaction := (some.inj hq).symm
    rw [meets_ite]
    constructor
    · intro _
      have hdone := hat.confirm honly (fun _ => honly) fun hu => hat.holds _ hu rfl
      rw [meets_bind, setTransaction, meets_modify, meets_bind, emit, meets_modify, meets_ite]
      refine ⟨fun hfu => ?_, fun _ => ⟨hdone.logOk, hdone.confirmed⟩⟩
      have hnext : (if pending.hasFollowUp then some ([] : List Task) else none) = some [] :=
        if_pos hfu
      exact (hdone.advance hnext).ready (fun _ _ hnone => by cases hnone) (by rw [hstart]; rfl)
    · intro _
      have hrej := hat.reject honly fun _ => honly
      refine hrej.ready (fun pending' hpend' _ => ?_) (by rw [hstart]; rfl)
      cases hstart.symm.trans hpend'
      rfl

/-! ### Building the work -/

theorem meets_waiting (hR : Patient R)
    (h : R s.standing) : (await f).Meets s (fun _ s' => R s'.standing) fun _ s' => R s'.standing :=
  (meets_await hR h).mono (fun _ _ hs' => hs'.1) fun _ _ hs' => hs'.1

section Building

variable {R : Standing → Prop} (hR : Patient R) (h : R s.standing)

include hR h

theorem meets_commitTasks :
    (commitTasks intent).Meets s (fun _ s' => R s'.standing) fun _ s' => R s'.standing := by
  rw [commitTasks]
  refine .bind (meets_waiting hR h) fun metadata s₁ h₁ => ?_
  exact .bind (meets_waiting hR h₁) fun _ _ hs' => hs'

theorem meets_followUpTasks : (followUpTasks intent).Meets s (fun res s' =>
    R s'.standing ∧ ∀ tasks, res = .ok tasks → CommitFree tasks)
    fun _ s' => R s'.standing := by
  rw [followUpTasks]
  refine .bind (meets_waiting hR h) fun metadata s₁ h₁ => ⟨h₁, fun tasks hts => ?_⟩
  exact TaskBuilder.commitFree_followUpTasks (Except.mapError_eq_ok.mp hts)

theorem meets_prepareFollowUp : (prepareFollowUp ctx intent).Meets s (fun _ s' => R s'.standing)
    fun _ s' => R s'.standing := by
  rw [prepareFollowUp, meets_ite]
  refine ⟨fun _ => h, fun _ => ?_⟩
  refine .bind (meets_waiting hR h) fun metadata s₁ h₁ => ?_
  refine meets_orFail_bind (fun _ _ => ?_) fun _ => h₁
  rw [finalizeLegacyCommits, meets_ite]
  refine ⟨fun _ => h₁, fun _ => ?_⟩
  refine .bind (meets_waiting hR h₁) fun records s₂ h₂ => ?_
  refine meets_orFail_bind (fun owners _ => ?_) fun _ => h₂
  exact (meets_finalizeUnfinalized hR h₂).mono (fun _ _ => And.left) fun _ _ => And.left

/-- A resumed follow-up has no commits. -/
theorem meets_buildFollowUp : (buildFollowUp ctx intent).Meets s (fun strategy s' =>
    R s'.standing ∧ CommitFree strategy.tasks) fun _ s' => R s'.standing := by
  rw [buildFollowUp]
  refine .bind (meets_prepareFollowUp hR h) fun _ s₁ h₁ => ?_
  refine .bind (meets_followUpTasks hR h₁) fun res s₂ h₂ => ?_
  refine meets_orFail_bind (fun tasks hts => ?_) fun _ => h₂.1
  refine meets_orFail (fun strategy hstr => ⟨h₂.1, ?_⟩) fun _ => h₂.1
  exact (h₂.2 tasks hts).delivers (delivers_buildStrategy (Except.mapError_eq_ok.mp hstr))

/-- A plan fits what is recorded, and its follow-up has no commits. -/
def Fits (pending : Option PendingExecution) (plan : TransactionPlan) : Prop :=
  (∀ followUp, plan.followUp = some followUp → CommitFree followUp.tasks) ∧
    ∀ pending', pending = some pending' → plan.followUp.isSome = pending'.hasFollowUp

omit hR h in
theorem fits_single (hpend : ∀ pending', pending = some pending' → pending'.hasFollowUp = false) :
    Fits pending (.single current) :=
  ⟨nofun, fun pending' h => (hpend pending' h).symm⟩

omit hR h in
theorem fits_planFor
    (hfree : CommitFree followUps) (hplan : planFor a pending commits followUps nonce = .ok plan) :
    Fits pending plan := by
  rcases pending with _ | pending
  · exact ⟨fun _ => commitFree_buildPlan hfree hplan, fun _ heq => by cases heq⟩
  · rw [planFor] at hplan
    split_ifs at hplan with hfu
    · refine ⟨fun _ => commitFree_buildSplitPlan hfree hplan, fun pending' heq => ?_⟩
      cases heq
      obtain ⟨current, -, hplan⟩ := Except.bind_eq_ok.mp hplan
      obtain ⟨followUp, -, ⟨⟩⟩ := Except.bind_eq_ok.mp hplan
      exact hfu.symm
    · obtain ⟨current, -, rfl⟩ := Except.map_eq_ok.mp hplan
      refine fits_single fun pending' heq => ?_
      cases heq
      exact Bool.eq_false_iff.mpr hfu

theorem meets_buildStrategy :
    (buildStrategy ctx start intent committed).Meets s (fun plan s' => R s'.standing ∧
      Fits (fromStatus start) plan) fun _ s' => R s'.standing := by
  rw [buildStrategy, meets_ite]
  constructor
  · intro hcond
    obtain ⟨hnone, -⟩ := Bool.and_eq_true_iff.mp hcond
    rw [buildStandalone]
    refine .bind (meets_commitTasks hR h) fun res s₁ h₁ => ?_
    refine meets_orFail_bind (fun tasks _ => ?_) fun _ => h₁
    refine meets_orFail (fun plan hplan => ⟨h₁, ?_⟩) fun _ => h₁
    obtain ⟨current, -, rfl⟩ := Except.map_eq_ok.mp (Except.mapError_eq_ok.mp hplan)
    rw [isNone_iff_eq_none.mp hnone]
    exact fits_single fun _ heq => by cases heq
  · intro _
    refine .bind (meets_commitTasks hR h) fun commits s₁ h₁ => ?_
    refine .bind (meets_followUpTasks hR h₁) fun followUps s₂ h₂ => ?_
    refine meets_orFail_bind (fun commits _ => ?_) fun _ => h₂.1
    refine meets_orFail_bind (fun followUps hfus => ?_) fun _ => h₂.1
    refine meets_orFail (fun plan hplan => ⟨h₂.1, ?_⟩) fun _ => h₂.1
    exact fits_planFor (h₂.2 followUps hfus) (Except.mapError_eq_ok.mp hplan)

end Building

theorem patient_readyWith : Patient fun v => Ready start v ∧ v.confirmedCommit = commit where
  unsettle h hu := ⟨patient_ready.unsettle h.1 hu, h.2⟩
  record h hu := ⟨patient_ready.record h.1 hu, h.2⟩
  mend h := ⟨patient_ready.mend h.1, h.2⟩

/-- The executor starts with nothing under way. -/
theorem meets_startExecutor (h : Ready start s.standing) :
    (startExecutor ctx start intent).Meets s (fun _ s' => ∃ m, s'.Idle start m)
      fun _ s' => Sound start s'.standing := by
  rw [startExecutor, meets_bind, meets_get]
  rcases hcom : s.confirmedCommit with _ | commit
  · rw [meets_bind]
    refine (meets_buildStrategy patient_readyWith ⟨h, hcom⟩).mono (fun plan s' hs' => ?_)
      fun _ _ hs' => hs'.1.toSound
    obtain ⟨⟨hready, hnone⟩, hfree, hfits⟩ := hs'
    have hat := hready.plan plan.current.tasks (plan.followUp.map (·.tasks))
      (fun tasks hts => by
        obtain ⟨followUp, hfu, rfl⟩ := map_eq_some_iff.mp hts
        exact hfree followUp hfu)
      (fun hsome => by
        rw [hnone] at hsome
        cases hsome)
      fun pending hpend _ => by rw [isSome_map, hfits pending hpend]
    exact ⟨_, hat, rfl⟩
  · rw [meets_bind]
    refine (meets_buildFollowUp patient_readyWith ⟨h, hcom⟩).mono (fun strategy s' hs' => ?_)
      fun _ _ hs' => hs'.1.toSound
    obtain ⟨⟨hready, hsome⟩, hfree⟩ := hs'
    have hat := hready.plan strategy.tasks none (fun _ heq => by cases heq)
      (fun _ => ⟨hfree, rfl⟩) fun _ _ hnone => by cases hsome.symm.trans hnone
    exact ⟨_, hat, rfl⟩

theorem meets_executeInner (h : Fresh start s) : (executeInner ctx fuel start intent).Meets s
    (fun _ s' => Sound start s'.standing) fun _ s' => Sound start s'.standing := by
  rw [executeInner]
  refine .bind (meets_resumePending h) fun output s₁ h₁ => ?_
  rcases output with _ | output
  · refine .bind (meets_startExecutor h₁) fun _ s₂ h₂ => ?_
    obtain ⟨m, h₂⟩ := h₂
    exact meets_execute h₂.coherent
  · exact h₁

/-! ### Reporting -/

theorem sound_emit (h : Sound start v) (he : Permitted start v.log e) :
    Sound start { v with log := v.log ++ [e] } :=
  ⟨h.logOk.concat he, fun commit hcom => (h.confirmed commit hcom).concat⟩

theorem meets_closeOutbox {failure : Option IntentExecutorError} (h : Sound start s.standing) :
    (closeOutbox failure landed).Meets s (fun _ s' => Sound start s'.standing) E := by
  rw [closeOutbox, meets_ite]
  refine ⟨fun _ => ?_, fun _ => h⟩
  rw [meets_bind, meets_modify, emit, meets_modify]
  exact sound_emit (v := { s.standing with status := none }) ⟨h.logOk, h.confirmed⟩ trivial

theorem meets_notifyCommitSent {failure : Option IntentExecutorError}
    (h : Sound start s.standing) : (notifyCommitSent failure).Meets s
      (fun _ s' => Sound start s'.standing) fun _ s' => Sound start s'.standing := by
  rw [notifyCommitSent, meets_bind]
  refine (meets_next patient_sound h).mono (fun answer s' hs' => ?_) fun _ s' hs' => hs'.2.1
  cases answer with
  | interrupted fate =>
    exact .bind (meets_closeOutbox hs'.1) fun _ _ h' => meets_interrupt fun _ => h'
  | notified write =>
    cases write with
    | executed | failed =>
      exact .bind (meets_closeOutbox hs'.1) fun _ _ h' => h'
  | _ => exact hs'.1

/-- **Every run keeps to what is permitted.** -/
theorem meets_executeIntent (h : Fresh start s) : (executeIntent ctx fuel intent start).Meets s
    (fun _ s' => Sound start s'.standing) fun _ s' => Sound start s'.standing := by
  rw [executeIntent]
  refine .bind (meets_attempt (meets_executeInner h)) fun res s₁ h₁ => ?_
  have hsound : Sound start s₁.standing := by
    rcases res with err | output <;> exact h₁
  rw [meets_bind, reportAndCloseIntent, meets_bind, meets_get, meets_ite]
  refine ⟨fun _ => hsound, fun _ => ?_⟩
  exact .bind (meets_notifyCommitSent hsound) fun _ _ h₂ => h₂

end Settle

end

/-! ### Runs on the stored account -/

/-- **A run on the account it started from** keeps to what is permitted; if the account could not be
read, it may also be another one. -/
theorem sound_runAttempt (ctx : ExecutionContext) (fuel : ℕ) (answers : List Answer)
    (hopen : Opening opening) (hacc : Undisturbed opening → acc = some bundle) :
    Sound bundle.status (runAttempt ctx fuel bundle acc opening answers).2.standing := by
  have hfr : Fresh bundle.status { answers := answers, outbox := acc, log := opening } :=
    ⟨fun hu => congrArg (Option.map OutboxIntentBundle.status) (hacc hu), rfl, hopen, rfl⟩
  exact (Settle.meets_executeIntent hfr).final

/-- **No settlement is repeated.**  When a transaction is submitted, it has no commits if commits
are known to have landed; every transaction submitted before it, and the one recorded when the run
started, has its verdict; and so has, as long as no read of the outbox failed and no write outlived
its await, every other transaction that was recorded. -/
theorem settlement_not_repeated (ctx : ExecutionContext) (fuel : ℕ) (bundle : OutboxIntentBundle)
    (answers : List Answer) (before after : List Event) (p : PendingTransaction) (tasks : List Task)
    (h : (runAttempt ctx fuel bundle (some bundle) [] answers).2.log =
      before ++ .submitted p tasks :: after) :
    (CommitsSettled bundle.status before → CommitFree tasks) ∧
      unresolved Event.submission bundle.status before = [] ∧
      (Undisturbed before →
        unresolved Event.record bundle.status before = [p.signature]) :=
  (sound_runAttempt ctx fuel answers (List.forall_mem_nil _) fun _ => rfl).logOk before
    (.submitted p tasks) after h

namespace SettlementExample

/-- Everything fits into one transaction; every callback is scheduled. -/
def ctx : ExecutionContext where
  assembler :=
    { maxTransactionV1WireSize := 1
      maxTransactionWireSize := 1
      v1Size := fun _ _ => .ok 0
      lookupTablesSize := fun _ _ => .ok 0
      instructionSize := fun _ => 0
      collectLookupTableKeys := fun _ _ => [] }
  delegationProgramId := 8
  schedule callbacks _ _ := callbacks.map fun _ => .ok 0

/-- An action of program 5 that calls back. -/
def action : BaseAction where
  id := 0
  computeUnits := 1
  destinationProgram := 6
  sourceProgram := some 5
  escrowAuthority := 0
  dataPerProgram := ⟨0, []⟩
  accountMetasPerProgram := []
  callback := some ⟨5, [], [], 0, []⟩

/-- An accepted intent that commits account 7 and then runs the action. -/
def bundle : OutboxIntentBundle :=
  .accepted
    { intentId := 1
      slot := 0
      blockhash := 0
      payer := 0
      intentBundle := { commit := some (.withBaseActions [⟨7, ⟨0, [], 0, false, 0⟩, 0, 1⟩]
        [action]) } }
    255

/-- The deadline of the callbacks passes while the record of transaction 1 is written; the outbox
cannot be read after that. -/
def unreadAnswers : List Answer :=
  [.metadata (.ok []), .baseAccounts (.ok []), .metadata (.ok []), .timeLeft true, .fetched true,
    .prepared (.ok ⟨1, 0⟩), .interrupted .landed, .fetched false, .prepared (.ok ⟨2, 0⟩),
    .stageWritten .executed, .sent (.ok ()), .notified .executed]

/-- What `unreadAnswers` lead to. -/
def unreadLog : List Event := (runAttempt ctx 9 bundle (some bundle) [] unreadAnswers).2.log

/-- The write of that record goes on without its await, and takes effect when the outbox has been
read again. -/
def lateLog : List Event :=
  (runAttempt ctx 9 bundle (some bundle) []
    [.metadata (.ok []), .baseAccounts (.ok []), .metadata (.ok []), .timeLeft true, .fetched true,
      .prepared (.ok ⟨1, 0⟩), .interrupted .detached, .fetched true, .prepared (.ok ⟨2, 0⟩),
      .arrived, .stageWritten .executed, .sent (.ok ()), .notified .executed]).2.log

/-- A transaction is submitted while another one that was recorded has no verdict. -/
def SubmitsBesideRecorded (log : List Event) : Prop :=
  ∃ before p tasks after q, log = before ++ .submitted p tasks :: after ∧
    .recorded q ∈ before ∧ q.signature ≠ p.signature ∧
    .confirmed q.signature ∉ before ∧ .rejected q.signature ∉ before

/-- The work of the intent, once its callback has expired. -/
def tasks : List Task :=
  [.commitFinalize ⟨1, false, ⟨7, ⟨0, [], 0, false, 0⟩, 0, 1⟩, .stateInArgs⟩,
    .baseAction (.v2 { action with callback := none } 5)]

theorem unreadLog_eq : unreadLog =
    unreadLog.take 8 ++ .submitted ⟨2, 0⟩ tasks :: unreadLog.drop 9 := by
  decide +kernel

end SettlementExample

open SettlementExample in
/-- **A record that is overlooked**: transaction 2 is submitted while transaction 1, recorded by the
same run, has no verdict — since the outbox could not be read, or since the record came late. -/
theorem submitted_beside_recorded : SubmitsBesideRecorded unreadLog ∧
    .fetchFailed ∉ lateLog ∧ SubmitsBesideRecorded lateLog :=
  ⟨⟨unreadLog.take 8, ⟨2, 0⟩, tasks, unreadLog.drop 9, ⟨1, 0⟩, unreadLog_eq, by decide +kernel,
      by decide +kernel, by decide +kernel, by decide +kernel⟩,
    by decide +kernel,
    lateLog.take 8, ⟨2, 0⟩, tasks, lateLog.drop 9, ⟨1, 0⟩, by decide +kernel, by decide +kernel,
    by decide +kernel, by decide +kernel, by decide +kernel⟩

open SettlementExample in
/-- In that run the commits have not landed before, and nothing submitted is open. -/
theorem settlement_not_repeated_unread :
    unreadLog = unreadLog.take 8 ++ .submitted ⟨2, 0⟩ tasks :: unreadLog.drop 9 ∧
      unresolved Event.submission bundle.status (unreadLog.take 8) = [] :=
  ⟨unreadLog_eq, (settlement_not_repeated ctx 9 bundle unreadAnswers _ _ _ _ unreadLog_eq).2.1⟩

end Magicblock
