import Magicblock.Settlement.Attempts

/-!
# Settlement/StageAgreement — the runner and the outbox program agree

The life of an outbox account is a sequence of processes: each takes the intent from the account,
runs it with retries, and leaves the account to the next.  As long as the outbox tells all, every
stage that is handed to the outbox program is one its stage machine allows.
-/

namespace Magicblock

/-- A process: the length of its loops and the attempts it makes. -/
structure Process where
  fuel : ℕ
  attempts : List Attempt

/-- **The life of an outbox account**: all that its processes do, one after the other. -/
def lifetime (ctx : ExecutionContext) : Option OutboxIntentBundle → List Process → List Event
  | none, _ => []
  | some _, [] => []
  | some bundle, process :: rest =>
    let (log, account, _) :=
      executeWithRetries ctx process.fuel 1 bundle (some bundle) process.attempts
    log ++ lifetime ctx account rest

/-- Every stage handed to the outbox program is allowed, as long as the outbox tells all. -/
def StagesAllowed (log : List Event) : Prop :=
  ∀ before stored stage after, log = before ++ .stageRequested stored stage :: after →
    Undisturbed before → ∃ status, stored = some status ∧ (status.applyStageTransition stage).isOk

theorem stagesAllowed_nil : StagesAllowed [] := by
  intro before stored stage after heq
  cases (List.nil_eq_append_iff.mp heq).2

theorem StagesAllowed.append (h : StagesAllowed log)
    (h' : StagesAllowed log') : StagesAllowed (log ++ log') := by
  intro before stored stage after heq hu
  rcases append_eq_append_cons heq with ⟨after', rfl⟩ | ⟨middle, rfl, rfl⟩
  · exact h before stored stage after' rfl hu
  · refine h' middle stored stage after rfl ⟨fun hmem => hu.1 ?_, fun hmem => hu.2 ?_⟩
    · exact List.mem_append_right _ hmem
    · exact List.mem_append_right _ hmem

/-- A permitted log has only allowed stages. -/
theorem LogOk.stagesAllowed (h : LogOk start log) : StagesAllowed log :=
  fun before stored stage after heq => h before (.stageRequested stored stage) after heq

theorem stagesAllowed_executeWithRetries (ctx : ExecutionContext) (fuel : ℕ)
    (bundle : OutboxIntentBundle) (attempts : List Attempt) :
    StagesAllowed (executeWithRetries ctx fuel 1 bundle (some bundle) attempts).1 := by
  refine executeWithRetries_log (Q := fun _ => True) stagesAllowed_nil
    (fun _ _ h _ h' => h.append h') (fun intent stored opening answers h => ?_)
    (fun _ _ _ _ _ _ _ _ _ _ => trivial) attempts rfl rfl Nat.one_pos fun _ => rfl
  exact (sound_runAttempt ctx fuel answers h.opening fun hu =>
    congrArg some (h.account hu)).logOk.stagesAllowed

theorem stagesAllowed_lifetime (ctx : ExecutionContext) (acc : Option OutboxIntentBundle)
    (processes : List Process) : StagesAllowed (lifetime ctx acc processes) := by
  induction processes generalizing acc with
  | nil =>
    cases acc with
    | none | some => exact stagesAllowed_nil
  | cons process rest ih =>
    cases acc with
    | none => exact stagesAllowed_nil
    | some bundle =>
      exact StagesAllowed.append
        (stagesAllowed_executeWithRetries ctx process.fuel bundle process.attempts) (ih _)

/-- **The runner and the outbox program agree.**  Whatever the processes of an intent meet, every
stage handed to the outbox program is an allowed transition from the stage that is stored, as long
as every read of the outbox has succeeded and no write has outlived its await. -/
theorem stages_agree (ctx : ExecutionContext) (bundle : OutboxIntentBundle)
    (processes : List Process) (before after : List Event)
    (stored : Option OutboxIntentBundleStatus) (stage : ExecutionStage)
    (h : lifetime ctx (some bundle) processes = before ++ .stageRequested stored stage :: after)
    (hu : Undisturbed before) :
    ∃ status, stored = some status ∧ (status.applyStageTransition stage).isOk :=
  stagesAllowed_lifetime ctx (some bundle) processes before stored stage after h hu

namespace SettlementExample

/-- The process ends when transaction 1 is recorded; the next one finds it dead and goes on with
transaction 2. -/
def restarted : List Process :=
  let building : List Answer := [.metadata (.ok []), .baseAccounts (.ok []), .metadata (.ok [])]
  let first : List Answer := building ++ [.timeLeft true, .fetched true, .prepared (.ok ⟨1, 0⟩),
    .stageWritten .executed]
  let second : List Answer := .checked [.ok .rejected] :: building ++ [.timeLeft true,
    .fetched true, .checked [.ok .rejected], .prepared (.ok ⟨2, 0⟩), .stageWritten .executed]
  [⟨9, [⟨true, first, true⟩]⟩, ⟨9, [⟨true, second, true⟩]⟩]

def restartedLog : List Event := lifetime ctx (some bundle) restarted

theorem restartedLog_eq : restartedLog = restartedLog.take 9 ++
    .stageRequested (some (.executing (.singleStage ⟨1, 0⟩))) (.singleStage ⟨2, 0⟩) ::
      restartedLog.drop 10 := by
  decide +kernel

theorem undisturbed_restartedLog : Undisturbed (restartedLog.take 9) := by
  constructor <;> decide +kernel

/-- The deadline of the callbacks passes while transaction 2 is recorded as the commit; transaction
3 is recorded and sent instead, and only then does the record of transaction 2 take effect. -/
def lateCommit : List Process :=
  let answers : List Answer :=
    [.checked [.ok .rejected], .metadata (.ok []), .baseAccounts (.ok []),
    .metadata (.ok []), .timeLeft true, .fetched true, .checked [.ok .rejected],
    .prepared (.ok ⟨2, 0⟩),
    .interrupted .detached, .fetched true, .checked [.ok .rejected], .prepared (.ok ⟨3, 0⟩),
    .stageWritten .executed, .arrived, .sent (.ok ()), .fetched true, .prepared (.ok ⟨4, 0⟩),
    .stageWritten .executed]
  [⟨9, [⟨true, answers, true⟩]⟩]

/-- …of an intent whose commit, transaction 1, was recorded before. -/
def lateCommitLog : List Event :=
  lifetime ctx (some { bundle with
    status := .executing (.twoStage (.committing ⟨1, 0⟩)) }) lateCommit

end SettlementExample

open SettlementExample in
/-- The second process replaces what the first has recorded. -/
theorem stages_agree_restarted :
    restartedLog = restartedLog.take 9 ++
      .stageRequested (some (.executing (.singleStage ⟨1, 0⟩))) (.singleStage ⟨2, 0⟩) ::
        restartedLog.drop 10 ∧
    ∃ status, some (.executing (.singleStage ⟨1, 0⟩)) = some status ∧
      (OutboxIntentBundleStatus.applyStageTransition status (.singleStage ⟨2, 0⟩)).isOk :=
  ⟨restartedLog_eq, stages_agree ctx bundle restarted _ _ _ _ restartedLog_eq
    undisturbed_restartedLog⟩

open SettlementExample in
/-- **A late record makes the runner and the outbox program disagree**: the follow-up names the
commit that has landed, and the outbox holds another one. -/
theorem stage_refused_late : ∃ before stored stage after,
    lateCommitLog = before ++ .stageRequested (some stored) stage :: after ∧ .fetchFailed ∉ before ∧
      ¬ (stored.applyStageTransition stage).isOk :=
  ⟨lateCommitLog.take 15, .executing (.twoStage (.committing ⟨2, 0⟩)),
    .twoStage (.finalizing 3 ⟨4, 0⟩), lateCommitLog.drop 16, by decide +kernel, by decide +kernel,
    by decide +kernel⟩

end Magicblock
