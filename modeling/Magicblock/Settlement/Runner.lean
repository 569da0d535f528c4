import Magicblock.Settlement.Session

/-!
# Settlement/Runner — `TransactionExecutor`

Runs the selected transaction and any remaining actions or undelegations.  Each transaction is
recorded in the outbox before it is sent; a recorded one is resolved before the next is prepared.
Loops have fuel: a run that uses it up is one that was still going when the process ended.
-/

namespace Magicblock.Settle

/-! ### The outbox account -/

/-- The outbox program applies a stage, if the transition is allowed. -/
def landStage (stage : ExecutionStage) (nonces : List (Pubkey × ℕ)) : Settle Unit :=
  modify (·.land stage nonces)

/-- A stage write that is cut off. -/
def cutOffStage (fate : WriteFate) (stage : ExecutionStage) (nonces : List (Pubkey × ℕ)) :
    Settle Unit :=
  match fate with
  | .lost => pure ()
  | .landed => landStage stage nonces
  | .detached => do
    modify fun s => { s with detached := s.detached ++ [(stage, nonces)] }
    emit .detached

/-- `set_intent_execution_stage`; a refused transition is a failed transaction. -/
def setIntentExecutionStage (stage : ExecutionStage) (nonces : List (Pubkey × ℕ)) :
    Settle Unit := do
  emit (.stageRequested ((← get).outbox.map (·.status)) stage)
  match ← next with
  | .interrupted fate => do
    cutOffStage fate stage nonces
    interrupt
  | .stageWritten .executed => do
    if ((← get).staged stage nonces).isSome then landStage stage nonces
    else throw (.error (.outboxClientError (.transactionError
      (.instructionError 0 .invalidArgument))))
  | .stageWritten (.failed err landed) => do
    cutOffStage (if landed then .landed else .lost) stage nonces
    throw (.error (.outboxClientError err))
  | _ => throw .stopped

/-- The recorded transaction, if it belongs to the stage the executor is in.  A read that fails is
as good as none. -/
def recoverPendingFromOutbox : Settle (Option PendingTransaction) := do
  let ok ← await fun
    | .fetched ok => some ok
    | _ => none
  if ok then do
    let s ← get
    let pending := s.outbox.bind fun bundle => PendingExecution.fromStatus bundle.status
    pure ((pending.filter fun pending =>
      pending.hasFollowUp = s.executor.followUp.isSome ∧
        pending.confirmedCommit.isSome = s.confirmedCommit.isSome).map (·.transaction))
  else do
    emit .fetchFailed
    pure none

/-! ### Callbacks -/

/-- Hands callbacks to their scheduler; `tasks` are those they were taken from. -/
def reportCallbacks (ctx : ExecutionContext) (tasks : List Task)
    (callbacks : List BaseActionCallback) (signature : Option Signature)
    (result : Except ActionError Unit) : Settle Unit :=
  if callbacks.isEmpty then pure ()
  else do
    emit (.reported (tasks.filter fun task => task.extractCallback.1.isSome) callbacks
      (failure result))
    modify fun s =>
      { s with report :=
        { s.report with
          callbacksReport := s.report.callbacksReport ++ ctx.schedule callbacks signature result } }

/-- What becomes of the actions: success and timeout keep them, without their callbacks. -/
def actionsResult (ctx : ExecutionContext) (strategy : TransactionStrategy) :
    Except ActionError Unit → List BaseActionCallback × TransactionStrategy
  | .ok () | .error .timeoutError => strategy.extractActionCallbacks
  | .error _ => strategy.removeActions ctx.assembler

def handleActionsResult (ctx : ExecutionContext) (strategy : TransactionStrategy)
    (signature : Option Signature) (result : Except ActionError Unit) :
    Settle TransactionStrategy := do
  reportCallbacks ctx strategy.tasks (actionsResult ctx strategy result).1 signature result
  pure (actionsResult ctx strategy result).2

/-- The follow-up hears of errors only. -/
def handleFollowUpResult (ctx : ExecutionContext) (signature : Option Signature)
    (result : Except ActionError Unit) : Settle Unit := do
  match result, (← get).executor.followUp with
  | .error _, some followUp => do
    let followUp ← handleActionsResult ctx followUp signature result
    setExecutor fun x => { x with followUp := some followUp }
  | _, _ => pure ()

def executeCallbacks (ctx : ExecutionContext) (signature : Option Signature)
    (result : Except ActionError Unit) : Settle Unit := do
  let current ← handleActionsResult ctx (← get).executor.current signature result
  setExecutor fun x => { x with current := current }
  handleFollowUpResult ctx signature result

/-! ### Legacy commits -/

/-- **`finalize_legacy_commit`**, by a transaction that the outbox does not record: once signed, the
same bytes are sent again and again until the answer is an end. -/
def finalizeLegacyCommit (account : Pubkey) : Settle Unit := do
  let prepared ← await fun
    | .legacyPrepared result => some result
    | _ => none
  orFail (prepared.mapError .failedPreparation)
  let send : Settle (Except TransactionExecutionError Unit) := await fun
    | .sent result => some result
    | _ => none
  Exec.handle send fun sent => do
    emit (.legacy (.signed account (sent.toOption.map failure)))
    let result ← Exec.ofExcept sent
    orFail (result.mapError .failedExecution)

def finalizeEach : List Pubkey → Settle Unit
  | [] => pure ()
  | account :: rest => do
    finalizeLegacyCommit account
    finalizeEach rest

/-- Finalizes accounts that are found unfinalized. -/
def finalizeUnfinalized (accounts : List Pubkey) : Settle Unit := do
  emit (.legacy (.unfinalized accounts))
  finalizeEach accounts

/-- **`finalize_legacy_commits`**: of the accounts that have a commit record left. -/
def finalizeLegacyCommits (ctx : ExecutionContext) (accounts : List Pubkey) : Settle Unit := do
  if accounts.isEmpty then pure ()
  else do
    let records ← await fun
      | .commitRecords result => some result
      | _ => none
    let owners ← orFail (records.mapError fun kind =>
      .failedExecution (.internalError (.magicBlockRpcClientError (.rpcClientError kind))))
    finalizeUnfinalized (((accounts.zip owners).filter fun (_, owner) =>
      owner = some ctx.delegationProgramId).map (·.1))

/-! ### Recovery -/

/-- Finalizes the legacy commit of the account an error blames; `false` if it blames no commit. -/
def repairCommit (current : TransactionStrategy) (err : TransactionExecutionError) :
    Settle Bool := do
  match (err.taskIndex current.taskInstructionOffset).bind (current.tasks[·]?) with
  | some (.commitFinalize task) => do
    finalizeUnfinalized [task.committedAccount.pubkey]
    pure true
  | _ => pure false

/-- **Repairs rejected work**; `true` if the transaction is to be tried again.  Follow-ups cannot
repair commits, and standalone actions cannot be replayed. -/
def recover (ctx : ExecutionContext) (err : TransactionExecutionError) : Settle Bool := do
  let s ← get
  let current := s.executor.current
  let canRepairCommits := s.confirmedCommit.isNone && !s.executor.committedPubkeys.isEmpty &&
    current.tasks.any Task.isCommitFinalize
  if !canRepairCommits && s.confirmedCommit.isNone then pure false
  else match err with
    | .actionsError txErr signature => do
      let current ← handleActionsResult ctx current signature
        (.error (.actionsError txErr signature))
      setExecutor fun x => { x with current := current }
      pure true
    | .unfinalizedAccountError _ _ =>
      if canRepairCommits then repairCommit current err else pure false
    | .undelegationError _ _ =>
      if current.tasks.any Task.isUndelegate then do
        let (callbacks, rest) := current.handleUndelegationError ctx.assembler
        setExecutor fun x => { x with current := rest }
        reportCallbacks ctx (current.tasks.drop rest.tasks.length) callbacks err.signature
          (.error (.ofTransaction err))
        pure true
      else pure false
    | _ => pure false

/-! ### One transaction -/

/-- `resolve_pending_signature`. -/
def resolvePending (pending : PendingTransaction) : Settle Bool := do
  let checks ← await fun
    | .checked checks => some checks
    | _ => none
  let result ← Exec.ofOption (resolvePendingSignature pending checks) .stopped
  orFail result

/-- Looks into the outbox, once, for a transaction an interrupted run has recorded. -/
def reconcileOutbox (reconciledOutbox : Bool) : Settle Bool := do
  if (← get).executor.pendingTransaction.isNone && !reconciledOutbox then do
    let pending ← recoverPendingFromOutbox
    setExecutor fun x => { x with pendingTransaction := pending }
    pure true
  else pure reconciledOutbox

/-- Settles the fate of the pending transaction: its signature, if it has landed. -/
def settlePending : Settle (Option Signature) := do
  match (← get).executor.pendingTransaction with
  | none => pure none
  | some pending => do
    setTransaction (.submitted pending.signature)
    if ← resolvePending pending then do
      setTransaction (.confirmed pending.signature)
      emit (.confirmed pending.signature)
      pure (some pending.signature)
    else do
      setTransaction (.rejected pending.signature)
      emit (.rejected pending.signature)
      setExecutor fun x => { x with pendingTransaction := none }
      pure none

/-- Prepares and signs the current transaction, and records it in the outbox. -/
def prepareAndRecord (confirmedCommit : Option Signature) (hasFollowUp : Bool) :
    Settle PendingTransaction := do
  setExecutor fun x =>
    { x with
      currentAttempt := x.currentAttempt + 1
      preparations := x.preparations ++ [x.current] }
  let result ← await fun
    | .prepared result => some result
    | _ => none
  let pending ← orFail (result.mapError .failedPreparation)
  setTransaction (.prepared pending.signature)
  emit (.prepared pending)
  let nonces := recoveryCommitNonces (← get).executor.current.tasks
  setIntentExecutionStage
    (PendingExecution.intoStage ⟨pending, confirmedCommit, hasFollowUp⟩) nonces
  pure pending

/-- Sends the recorded transaction.  While it is under way it is the pending one. -/
def submit (pending : PendingTransaction) : Settle (Except TransactionExecutionError Unit) := do
  setExecutor fun x => { x with pendingTransaction := some pending }
  setTransaction (.submitted pending.signature)
  emit (.submitted pending (← get).executor.current.tasks)
  let result ← await fun
    | .sent result => some result
    | _ => none
  setExecutor fun x => { x with pendingTransaction := none }
  pure result

def reject (signature : Signature) (err : TransactionExecutionError) : Settle Unit :=
  if err.isRejected then do
    setTransaction (.rejected signature)
    emit (.rejected signature)
  else pure ()

def transactionLoopCeiling : ℕ := 10

/-- Failed actions can leave no work after a confirmed commit; undelegation failures stay visible.
-/
def giveUpOrPatch (confirmedCommit : Option Signature) (err : TransactionExecutionError) :
    Settle (Option (Except TransactionExecutionError Signature)) := do
  let s ← get
  match confirmedCommit, s.executor.current.tasks, err with
  | some commitSignature, [], .actionsError _ _ => do
    addPatchedError err
    pure (some (.ok commitSignature))
  | some _, [], _ => pure (some (.error err))
  | _, _, _ =>
    if transactionLoopCeiling ≤ s.executor.currentAttempt then pure (some (.error err))
    else do
      addPatchedError err
      pure none

/-- After a failed send: the result to return, or `none` to try again. -/
def afterFailure (ctx : ExecutionContext) (confirmedCommit : Option Signature)
    (signature : Signature) (err : TransactionExecutionError) :
    Settle (Option (Except TransactionExecutionError Signature)) := do
  reject signature err
  if ← recover ctx err then do
    await fun
      | .invalidated => some ()
      | _ => none
    giveUpOrPatch confirmedCommit err
  else pure (some (.error err))

/-- One more attempt, and what to return, unless it is to be tried again. -/
def attemptTransaction (ctx : ExecutionContext) (confirmedCommit : Option Signature)
    (hasFollowUp : Bool) : Settle (Option (Except TransactionExecutionError Signature)) := do
  let pending ← prepareAndRecord confirmedCommit hasFollowUp
  match ← submit pending with
  | .ok () => do
    setTransaction (.confirmed pending.signature)
    emit (.confirmed pending.signature)
    pure (some (.ok pending.signature))
  | .error err => afterFailure ctx confirmedCommit pending.signature err

/-- The confirmed commit, if nothing is left to do after it. -/
def nothingLeft (confirmedCommit : Option Signature) : Settle (Option Signature) := do
  if (← get).executor.current.tasks.isEmpty then pure confirmedCommit else pure none

def executeCurrentLoop (ctx : ExecutionContext) (confirmedCommit : Option Signature)
    (hasFollowUp : Bool) : ℕ → Bool → Settle (Except TransactionExecutionError Signature)
  | 0, _ => throw .stopped
  | fuel + 1, reconciledOutbox => do
    let reconciledOutbox ← reconcileOutbox reconciledOutbox
    match ← settlePending with
    | some signature => pure (.ok signature)
    | none => do
      match ← nothingLeft confirmedCommit with
      | some commitSignature => pure (.ok commitSignature)
      | none => do
        match ← attemptTransaction ctx confirmedCommit hasFollowUp with
        | some result => pure result
        | none => executeCurrentLoop ctx confirmedCommit hasFollowUp fuel reconciledOutbox

def executeCurrent (ctx : ExecutionContext) (fuel : ℕ) :
    Settle (Except TransactionExecutionError Signature) := do
  let s ← get
  executeCurrentLoop ctx s.confirmedCommit s.executor.followUp.isSome fuel false

/-! ### All transactions of an intent -/

/-- Only callbacks expire: the actions stay, and a pending transaction is resolved before another is
prepared, since the cancelled send may still land. -/
def expireCallbacks (ctx : ExecutionContext) (fuel : ℕ) :
    Settle (Except TransactionExecutionError Signature) := do
  executeCallbacks ctx none (.error .timeoutError)
  executeCurrent ctx fuel

def timeLeft : Settle Bool := do
  match ← next with
  | .timeLeft left => pure left
  | _ => throw .stopped

def executeWithTimeout (ctx : ExecutionContext) (fuel : ℕ) :
    Settle (Except TransactionExecutionError Signature) := do
  let x := (← get).executor
  if x.current.hasActionsCallbacks || x.followUp.any (·.hasActionsCallbacks) then do
    if ← timeLeft then do
      match ← timeout (executeCurrent ctx fuel) with
      | some result => pure result
      | none => expireCallbacks ctx fuel
    else expireCallbacks ctx fuel
  else executeCurrent ctx fuel

/-- Splits a combined transaction that was too much for one; `true` if it did. -/
def trySplit (ctx : ExecutionContext)
    (result : Except IntentExecutorError (Except TransactionExecutionError Signature)) :
    Settle Bool := do
  let s ← get
  match result with
  | .ok (.error err) =>
    if s.isCombined && !s.executor.committedPubkeys.isEmpty &&
        s.executor.current.hasTasksAfterCommit && err.isRecoverableBySplitting then do
      let (current, followUp) := s.executor.current.splitForFollowUp ctx.assembler
      setExecutor fun x =>
        { x with current := current, followUp := some followUp, currentAttempt := 0 }
      addPatchedError err
      pure true
    else pure false
  | _ => pure false

/-- Callbacks hear of a settled transaction and of actions alone; unsettled reservations stay
pending instead of reporting a failure. -/
def reportResult (ctx : ExecutionContext) (isOk : Bool)
    (result : Except IntentExecutorError Signature) : Settle Unit := do
  let s ← get
  let unsettled := s.confirmedCommit.isNone && !s.executor.committedPubkeys.isEmpty
  if (s.isCombined || isOk) && (!unsettled || result.isOk) then
    executeCallbacks ctx result.toOption ((result.map fun _ => ()).mapError .ofIntent)
  else pure ()

/-- Goes on with the follow-up, or ends with the output. -/
def advance (signature : Signature) : Settle (Option ExecutionOutput) := do
  let s ← get
  match s.executor.followUp with
  | some followUp => do
    setExecutor fun x =>
      { x with
        current := followUp, followUp := none, pendingTransaction := none, currentAttempt := 0 }
    setProgress { confirmedCommit := some signature }
    pure none
  | none => do
    let output : ExecutionOutput := ⟨s.confirmedCommit, signature⟩
    setProgress output.progress
    pure (some output)

/-- What comes after a transaction that is not split: `none` to go on with the follow-up. -/
def conclude (ctx : ExecutionContext)
    (result : Except IntentExecutorError (Except TransactionExecutionError Signature)) :
    Settle (Option ExecutionOutput) := do
  let flat := result.bind fun result => result.mapError .failedExecution
  reportResult ctx result.isOk flat
  let signature ← orFail flat
  advance signature

/-- **`TransactionExecutor::execute`.** -/
def execute (ctx : ExecutionContext) : ℕ → Settle ExecutionOutput
  | 0 => throw .stopped
  | fuel + 1 => do
    let result ← attempt (executeWithTimeout ctx fuel)
    if ← trySplit ctx result then execute ctx fuel
    else do
      match ← conclude ctx result with
      | some output => pure output
      | none => execute ctx fuel

end Magicblock.Settle
