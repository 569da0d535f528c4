import Magicblock.Foundations.Hoare
import Magicblock.Settlement.PendingSignature
import Magicblock.Settlement.TaskBuilder

/-!
# Settlement/Session — what an intent execution works on

A session holds the executor, its report, the outbox account and a log of what happened, and the
answers its environment will give: one for each await and each look at the clock.  An await can be
interrupted, by the deadline of the callbacks or by the end of the process.  A bookkeeping
transaction whose await is interrupted may have taken effect, be lost, or go on without it and take
effect during some later await.
-/

namespace Magicblock

/-! ### Progress -/

/-- Progress of the current settlement transaction. -/
inductive TransactionProgress where
  | preparing
  | prepared (signature : Signature)
  | submitted (signature : Signature)
  | rejected (signature : Signature)
  | confirmed (signature : Signature)
  deriving DecidableEq

structure ExecutionProgress where
  confirmedCommit : Option Signature := none
  transaction : TransactionProgress := .preparing
  deriving DecidableEq

/-- A fresh attempt must not repeat confirmed work or an unresolved submission. -/
def ExecutionProgress.canRetry (p : ExecutionProgress) : Bool :=
  p.confirmedCommit.isNone && match p.transaction with
    | .submitted _ | .confirmed _ => false
    | _ => true

structure ExecutionOutput where
  confirmedCommit : Option Signature
  signature : Signature
  deriving DecidableEq

def ExecutionOutput.progress (output : ExecutionOutput) : ExecutionProgress :=
  ⟨output.confirmedCommit, .confirmed output.signature⟩

/-- A recorded transaction, and whether commits are confirmed or a follow-up remains. -/
structure PendingExecution where
  transaction : PendingTransaction
  confirmedCommit : Option Signature
  hasFollowUp : Bool
  deriving DecidableEq

namespace PendingExecution

def fromStatus : OutboxIntentBundleStatus → Option PendingExecution
  | .accepted => none
  | .executing (.singleStage transaction) => some ⟨transaction, none, false⟩
  | .executing (.twoStage (.committing transaction)) => some ⟨transaction, none, true⟩
  | .executing (.twoStage (.finalizing commit finalize)) => some ⟨finalize, some commit, false⟩

def intoStage (p : PendingExecution) : ExecutionStage :=
  match p.confirmedCommit with
  | some commit => .twoStage (.finalizing commit p.transaction)
  | none =>
    if p.hasFollowUp then .twoStage (.committing p.transaction) else .singleStage p.transaction

end PendingExecution

/-! ### Reports -/

inductive ActionError where
  | timeoutError
  | actionsError (err : TransactionError) (signature : Option Signature)
  | intentFailedError (err : IntentExecutorError)
  deriving DecidableEq

def ActionError.ofTransaction : TransactionExecutionError → ActionError
  | .actionsError err signature => .actionsError err signature
  | err => .intentFailedError (.failedExecution err)

def ActionError.ofIntent : IntentExecutorError → ActionError
  | .failedExecution err => .ofTransaction err
  | err => .intentFailedError err

structure CallbackScheduleError where
  message : String
  deriving DecidableEq

structure IntentExecutionReport where
  progress : ExecutionProgress := {}
  patchedErrors : List TransactionExecutionError := []
  callbacksReport : List (Except CallbackScheduleError Signature) := []

/-- The services of an execution: transaction assembly, the owner of commit records, and the
scheduler of callbacks. -/
structure ExecutionContext where
  assembler : Assembler
  delegationProgramId : Pubkey
  schedule : List BaseActionCallback → Option Signature → Except ActionError Unit →
    List (Except CallbackScheduleError Signature)

/-! ### Answers and events -/

/-- How a bookkeeping transaction ends: executed, or with an error and perhaps executed all the
same. -/
inductive Write where
  | executed
  | failed (err : InternalOutboxClientError) (landed : Bool)

/-- What becomes of a bookkeeping transaction whose await is interrupted. -/
inductive WriteFate where
  | lost
  | landed
  | detached
  deriving DecidableEq

inductive Answer where
  | timeLeft (left : Bool)
  | interrupted (fate : WriteFate)
  /-- A detached write takes effect. -/
  | arrived
  | fetched (ok : Bool)
  | checked (checks : List (Except IntentExecutorError PendingSignatureStatus))
  | prepared (result : Except TransactionPreparatorError PendingTransaction)
  | stageWritten (write : Write)
  | sent (result : Except TransactionExecutionError Unit)
  /-- The finalize of a legacy commit has its blockhash and is signed. -/
  | legacyPrepared (result : Except TransactionPreparatorError Unit)
  /-- The owners of the commit records that were asked for. -/
  | commitRecords (result : Except ClientErrorKind (List (Option Pubkey)))
  | invalidated
  | metadata (result : MetadataResult)
  | baseAccounts (result : BaseAccountsResult)
  | notified (write : Write)

/-- What happens to legacy commits, which an earlier version has left unfinalized. -/
inductive LegacyEvent where
  /-- Commit records, or an error, tell that these accounts are not finalized. -/
  | unfinalized (accounts : List Pubkey)
  /-- A fresh finalize of the account is signed and sent: no failure, or one, or no outcome if the
  send is cut off. -/
  | signed (account : Pubkey) (outcome : Option (Option TransactionExecutionError))
  deriving DecidableEq

inductive Event where
  /-- An attempt starts from a recorded status. -/
  | started (status : OutboxIntentBundleStatus)
  /-- A stage is handed to the outbox program, which holds `stored`. -/
  | stageRequested (stored : Option OutboxIntentBundleStatus) (stage : ExecutionStage)
  | prepared (transaction : PendingTransaction)
  | recorded (transaction : PendingTransaction)
  | submitted (transaction : PendingTransaction) (tasks : List Task)
  | confirmed (signature : Signature)
  | rejected (signature : Signature)
  | fetchFailed
  /-- A stage write goes on although its await was cancelled. -/
  | detached
  /-- Callbacks, taken from `actions`, are handed to their scheduler. -/
  | reported (actions : List Task) (callbacks : List BaseActionCallback)
    (failure : Option ActionError)
  /-- The receipt of the intent takes effect. -/
  | notified (failure : Option IntentExecutorError)
  | legacy (event : LegacyEvent)
  deriving DecidableEq

structure TransactionExecutor where
  committedPubkeys : List Pubkey := []
  current : TransactionStrategy := {}
  followUp : Option TransactionStrategy := none
  pendingTransaction : Option PendingTransaction := none
  currentAttempt : ℕ := 0
  /-- What has been prepared; the report has a record of resources for each. -/
  preparations : List TransactionStrategy := []

structure Session where
  answers : List Answer
  cancellable : Bool := false
  outbox : Option OutboxIntentBundle
  /-- Stage writes that were cancelled and are still under way. -/
  detached : List (ExecutionStage × List (Pubkey × ℕ)) := []
  log : List Event := []
  report : IntentExecutionReport := {}
  executor : TransactionExecutor := {}

/-- Why code stops: an error, the deadline of the callbacks, or the end of the process. -/
inductive Halt where
  | error (err : IntentExecutorError)
  | timedOut
  | stopped
  deriving DecidableEq

abbrev Settle : Type → Type := Exec Session Halt

namespace Session

def confirmedCommit (s : Session) : Option Signature := s.report.progress.confirmedCommit

/-- One transaction does everything. -/
def isCombined (s : Session) : Bool := s.executor.followUp.isNone && s.confirmedCommit.isNone

/-- The outbox account with a stage applied to it, if it exists and the transition is allowed. -/
def staged (s : Session) (stage : ExecutionStage) (nonces : List (Pubkey × ℕ)) :
    Option OutboxIntentBundle :=
  s.outbox.bind fun bundle => (bundle.applyStageTransition stage nonces).toOption

/-- The outbox program applies a stage; a refused one changes nothing. -/
def land (s : Session) (stage : ExecutionStage) (nonces : List (Pubkey × ℕ)) : Session :=
  (s.staged stage nonces).elim s fun bundle =>
    { s with outbox := some bundle, log := s.log ++ [.recorded stage.pendingTransaction] }

/-- The oldest detached write takes effect. -/
def arrive (s : Session) : Session :=
  match s.detached with
  | [] => s
  | (stage, nonces) :: rest => land { s with detached := rest } stage nonces

end Session

/-! ### Waiting -/

namespace Settle

variable {α : Type}

/-- The first of the answers; detached writes may arrive before it. -/
def nextOf : List Answer → Settle Answer
  | [] => throw .stopped
  | .arrived :: rest => do
    modify Session.arrive
    nextOf rest
  | answer :: rest => do
    modify fun s => { s with answers := rest }
    pure answer

def next : Settle Answer := do
  nextOf (← get).answers

/-- Inside the callbacks' deadline an interrupted await is cancelled; elsewhere the process ends. -/
def interrupt : Settle α := do
  if (← get).cancellable then throw .timedOut else throw .stopped

/-- The answer of the kind `f` looks for. -/
def await (f : Answer → Option α) : Settle α := do
  let answer ← next
  match answer with
  | .interrupted _ => interrupt
  | answer => Exec.ofOption (f answer) .stopped

def emit (event : Event) : Settle Unit := modify fun s => { s with log := s.log ++ [event] }

def orFail (x : Except IntentExecutorError α) : Settle α := Exec.ofExcept (x.mapError .error)

/-- The result of `m`, or its error; an interruption is passed on. -/
def attempt (m : Settle α) : Settle (Except IntentExecutorError α) :=
  Exec.handle m fun
    | .ok a => pure (.ok a)
    | .error (.error err) => pure (.error err)
    | .error halt => throw halt

/-- `tokio::time::timeout`: `none` if the deadline passed. -/
def timeout (m : Settle α) : Settle (Option α) := do
  modify fun s => { s with cancellable := true }
  Exec.handle m fun result => do
    modify fun s => { s with cancellable := false }
    match result with
    | .ok a => pure (some a)
    | .error .timedOut => pure none
    | .error halt => throw halt

def setTransaction (t : TransactionProgress) : Settle Unit :=
  modify fun s =>
    { s with report := { s.report with progress := { s.report.progress with transaction := t } } }

def setProgress (progress : ExecutionProgress) : Settle Unit :=
  modify fun s => { s with report := { s.report with progress := progress } }

def addPatchedError (err : TransactionExecutionError) : Settle Unit :=
  modify fun s =>
    { s with report := { s.report with patchedErrors := s.report.patchedErrors ++ [err] } }

def setExecutor (f : TransactionExecutor → TransactionExecutor) : Settle Unit :=
  modify fun s => { s with executor := f s.executor }

/-! ### Guarantees -/

section

open Exec

variable {Q : α → Session → Prop}

theorem meets_interrupt (h : ∀ halt, E halt s) : (interrupt : Settle α).Meets s Q E := by
  rw [interrupt, meets_bind, meets_get, meets_ite]
  exact ⟨fun _ => h _, fun _ => h _⟩

theorem meets_orFail (hok : ∀ a, x = .ok a → Q a s)
    (herr : ∀ err, E (.error err) s) : (orFail x).Meets s Q E := by
  rcases x with err | a
  · exact herr err
  · exact hok a rfl

theorem meets_orFail_bind {f : α → Settle β} {Q : β → Session → Prop}
    (hok : ∀ a, x = .ok a → (f a).Meets s Q E) (herr : ∀ err, E (.error err) s) :
    (orFail x >>= f).Meets s Q E :=
  meets_bind.mpr (meets_orFail hok herr)

theorem meets_attempt (h : x.Meets s Q E) : (attempt x).Meets s (fun result s' => match result with
      | .ok a => Q a s'
      | .error err => E (.error err) s') E := by
  rw [attempt, meets_handle]
  refine h.mono (fun a s' hs' => hs') fun halt s' hs' => ?_
  cases halt with
  | error | timedOut | stopped => exact hs'

end

end Settle

end Magicblock
