import Magicblock.Settlement.Runner

/-!
# Settlement/Intent — from a recorded status to a settled intent

`execute_intent` resolves the transaction a status tells of, builds the work that remains, runs it
and reports the outcome; `execute_with_retries` repeats it where the failure may pass.  A process
may end at any await; the next one starts from what the outbox account holds.
-/

namespace Magicblock

def IntentExecutorError.ofStrategist : TaskStrategistError → IntentExecutorError
  | .failedToFit => .failedToFitError
  | .compile => .compileError
  | .signer => .signerError

def IntentExecutorError.isTerminal : IntentExecutorError → Bool
  | .outboxClientError _ | .getPendingSignatureStatusError _ | .pendingSignatureResolutionError _
  | .failedPreparation _ | .schedulerError _ | .poisonedIntentError => false
  | .failedExecution err => !err.isTransient
  | .taskBuilderError err => !err.isTransient
  | .emptyIntentError | .failedToFitError | .compileError | .signerError => true

structure IntentExecutionResult where
  inner : Except IntentExecutorError ExecutionOutput
  progress : ExecutionProgress
  callbacksReported : Bool

/-- Never once callbacks have reported, and only for failures that may pass.  Actions alone have no
guard against running twice, so that they are not sent again. -/
def IntentExecutionResult.isRetriable (result : IntentExecutionResult) (hasDedupGuard : Bool) :
    Bool :=
  match result.inner with
  | .ok _ => false
  | .error err =>
    !result.callbacksReported && result.progress.canRetry && err.isTransient &&
      (hasDedupGuard || match err with
        | .failedExecution _ => false
        | _ => true)

namespace Settle

/-! ### Building the work -/

def fetchMetadata : Settle MetadataResult := await fun
  | .metadata result => some result
  | _ => none

def fetchBaseAccounts : Settle BaseAccountsResult := await fun
  | .baseAccounts result => some result
  | _ => none

def commitTasks (intent : ScheduledIntentBundle) :
    Settle (Except IntentExecutorError (List Task)) := do
  let metadata ← fetchMetadata
  let baseAccounts ← fetchBaseAccounts
  pure ((TaskBuilder.commitTasks intent metadata baseAccounts).mapError .taskBuilderError)

def followUpTasks (intent : ScheduledIntentBundle) :
    Settle (Except IntentExecutorError (List Task)) := do
  let metadata ← fetchMetadata
  pure ((TaskBuilder.followUpTasks intent metadata).mapError .taskBuilderError)

/-- Resumed work respects the plan recorded in the outbox. -/
def planFor (a : Assembler) (pending : Option PendingExecution)
    (commitTasks followUpTasks : List Task)
    (nonce : Option ℕ) : Except TaskStrategistError TransactionPlan :=
  match pending with
  | none => a.buildPlan commitTasks followUpTasks nonce
  | some pending =>
    if pending.hasFollowUp then a.buildSplitPlan commitTasks followUpTasks nonce
    else (a.buildStrategy (commitTasks ++ followUpTasks) nonce).map .single

/-- Standalone actions use one transaction with a per-intent uniqueness nonce. -/
def buildStandalone (ctx : ExecutionContext) (intent : ScheduledIntentBundle) :
    Settle TransactionPlan := do
  let tasks ← orFail (← commitTasks intent)
  let strategy := ctx.assembler.buildStrategy tasks (some intent.intentId)
  orFail ((strategy.map .single).mapError .ofStrategist)

def buildStrategy (ctx : ExecutionContext) (status : OutboxIntentBundleStatus)
    (intent : ScheduledIntentBundle) (committedPubkeys : List Pubkey) : Settle TransactionPlan := do
  let pending := PendingExecution.fromStatus status
  if pending.isNone && committedPubkeys.isEmpty then buildStandalone ctx intent
  else do
    let commits ← commitTasks intent
    let followUps ← followUpTasks intent
    let commits ← orFail commits
    let followUps ← orFail followUps
    let nonce := if committedPubkeys.isEmpty || requiresUniquenessNonce commits then
      some intent.intentId else none
    orFail ((planFor ctx.assembler pending commits followUps nonce).mapError .ofStrategist)

/-- Resumed follow-ups finalize what an earlier version has only committed. -/
def prepareFollowUp (ctx : ExecutionContext) (intent : ScheduledIntentBundle) : Settle Unit := do
  let accounts (t : Option (List CommittedAccount)) := t.getD []
  let bundle := intent.intentBundle
  let committed := accounts (bundle.commit.map (·.getCommittedAccounts)) ++
    accounts (bundle.commitAndUndelegate.map (·.getCommittedAccounts))
  if committed.isEmpty then pure ()
  else do
    let metadata ← fetchMetadata
    let _ ← orFail (metadata.mapError (.taskBuilderError <| .followUpTasksBuildError ·))
    finalizeLegacyCommits ctx (committed.map (·.pubkey))

def buildFollowUp (ctx : ExecutionContext) (intent : ScheduledIntentBundle) :
    Settle TransactionStrategy := do
  prepareFollowUp ctx intent
  let tasks ← orFail (← followUpTasks intent)
  let nonce := if intent.intentBundle.getAllCommittedAccounts.any (·.commitId = 1) then
    some intent.intentId else none
  orFail ((ctx.assembler.buildStrategy tasks nonce).mapError .ofStrategist)

/-! ### `execute_intent` -/

/-- Resolves the recorded transaction before any replacement is built: it may still land.  The
output, if nothing remains to be done. -/
def resumePending (status : OutboxIntentBundleStatus) (intent : ScheduledIntentBundle) :
    Settle (Option ExecutionOutput) := do
  match PendingExecution.fromStatus status with
  | none =>
    if intent.intentBundle.isEmpty then throw (.error .emptyIntentError) else pure none
  | some pending => do
    let signature := pending.transaction.signature
    setProgress ⟨pending.confirmedCommit, .submitted signature⟩
    if ← resolvePending pending.transaction then do
      setTransaction (.confirmed signature)
      emit (.confirmed signature)
      if pending.hasFollowUp then do
        setProgress { confirmedCommit := some signature }
        pure none
      else pure (some ⟨pending.confirmedCommit, signature⟩)
    else do
      setTransaction (.rejected signature)
      emit (.rejected signature)
      pure none

def startExecutor (ctx : ExecutionContext) (status : OutboxIntentBundleStatus)
    (intent : ScheduledIntentBundle) : Settle Unit := do
  match (← get).confirmedCommit with
  | some _ => do
    let strategy ← buildFollowUp ctx intent
    setExecutor fun _ => { current := strategy }
  | none => do
    let committedPubkeys := intent.getAllCommittedPubkeys
    let plan ← buildStrategy ctx status intent committedPubkeys
    setExecutor fun _ =>
      { committedPubkeys := committedPubkeys, current := plan.current, followUp := plan.followUp }

def executeInner (ctx : ExecutionContext) (fuel : ℕ) (status : OutboxIntentBundleStatus)
    (intent : ScheduledIntentBundle) : Settle ExecutionOutput := do
  match ← resumePending status intent with
  | some output => pure output
  | none => do
    startExecutor ctx status intent
    execute ctx fuel

/-- The receipt, of an outcome that is perhaps a failure, closes the outbox account. -/
def closeOutbox (failure : Option IntentExecutorError) (landed : Bool) : Settle Unit :=
  if landed then do
    modify fun s => { s with outbox := none }
    emit (.notified failure)
  else pure ()

def notifyCommitSent (failure : Option IntentExecutorError) :
    Settle (Except IntentExecutorError Unit) := do
  match ← next with
  | .interrupted fate => do
    closeOutbox failure (fate = .landed)
    interrupt
  | .notified .executed => do
    closeOutbox failure true
    pure (.ok ())
  | .notified (.failed err landed) => do
    closeOutbox failure landed
    pure (.error (.outboxClientError err))
  | _ => throw .stopped

/-- An unsettled reservation cannot be discarded, since later ids depend on it. -/
def retainsOutbox (intent : ScheduledIntentBundle) (confirmedCommit : Option Signature) :
    Except IntentExecutorError ExecutionOutput → Bool
  | .ok _ => false
  | .error err =>
    !err.isTerminal || (!intent.getAllCommittedPubkeys.isEmpty && confirmedCommit.isNone)

def reportAndCloseIntent (intent : ScheduledIntentBundle)
    (result : Except IntentExecutorError ExecutionOutput) :
    Settle (Except IntentExecutorError ExecutionOutput) := do
  if retainsOutbox intent (← get).confirmedCommit result then pure result
  else do
    let notified ← notifyCommitSent (failure result)
    pure (notified.bind fun _ => result)

/-- **`ExecutionContext::execute_intent`.** -/
def executeIntent (ctx : ExecutionContext) (fuel : ℕ) (intent : ScheduledIntentBundle)
    (status : OutboxIntentBundleStatus) : Settle IntentExecutionResult := do
  let result ← attempt (executeInner ctx fuel status intent)
  let result ← reportAndCloseIntent intent result
  let s ← get
  pure ⟨result, s.report.progress, !s.report.callbacksReport.isEmpty⟩

end Settle

/-! ### `execute_with_retries` -/

/-- What one attempt meets: whether the outbox can be read before it, its answers, and whether there
is a slot for a retry after it. -/
structure Attempt where
  fetched : Bool
  answers : List Answer
  permit : Bool

def maxIntentAttempts : ℕ := 3

/-- Before a retry the intent is read again; if that fails, the one at hand is used. -/
def reconcileIntent (fetched : Bool) (account : Option OutboxIntentBundle)
    (intent : OutboxIntentBundle) : OutboxIntentBundle :=
  if fetched then account.getD intent else intent

/-- The intent of an attempt; the first one takes it as it was queued. -/
def intentOfAttempt (number : ℕ) (attempt : Attempt) (account : Option OutboxIntentBundle)
    (intent : OutboxIntentBundle) : OutboxIntentBundle :=
  if 1 < number then reconcileIntent attempt.fetched account intent else intent

/-- What the log of an attempt begins with: its start, and whether the read before it failed. -/
def openingLog (number : ℕ) (attempt : Attempt) (intent : OutboxIntentBundle) : List Event :=
  .started intent.status :: if 1 < number && !attempt.fetched then [.fetchFailed] else []

/-- One attempt, on the account as it is. -/
def runAttempt (ctx : ExecutionContext) (fuel : ℕ) (intent : OutboxIntentBundle)
    (account : Option OutboxIntentBundle) (opening : List Event) (answers : List Answer) :
    Except Halt IntentExecutionResult × Session :=
  (Settle.executeIntent ctx fuel intent.inner intent.status).outcome
    { answers := answers, outbox := account, log := opening }

/-- **`execute_with_retries`** from attempt `number` on: the log, the account left behind and the
result, unless the process ended. -/
def executeWithRetries (ctx : ExecutionContext) (fuel : ℕ) (number : ℕ)
    (intent : OutboxIntentBundle) (account : Option OutboxIntentBundle) :
    List Attempt → List Event × Option OutboxIntentBundle × Option IntentExecutionResult
  | [] => ([], account, none)
  | attempt :: rest =>
    let current := intentOfAttempt number attempt account intent
    let opening := openingLog number attempt current
    let (outcome, s) := runAttempt ctx fuel current account opening attempt.answers
    match outcome with
    | .error _ => (s.log, s.outbox, none)
    | .ok result =>
      let hasDedupGuard := !intent.getAllCommittedPubkeys.isEmpty
      if maxIntentAttempts ≤ number || !result.isRetriable hasDedupGuard || !attempt.permit then
        (s.log, s.outbox, some result)
      else
        let (log, account, result) := executeWithRetries ctx fuel (number + 1) current s.outbox rest
        (s.log ++ log, account, result)

end Magicblock
