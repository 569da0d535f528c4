import Magicblock.Intent.Limits
import Magicblock.Program.Callback

/-!
# Settlement/Tasks — the parts of a settlement transaction

A settlement transaction is a list of tasks: commits (each with its finalization), undelegations and
actions on the base layer.  How a task becomes an instruction is the business of the delegation
program's builder and is left out; what is modelled is what the executor looks at.
-/

namespace Magicblock

/-- How the data of a commit reaches the base layer. -/
inductive CommitDelivery where
  | stateInArgs
  | stateInBuffer
  | diffInArgs (baseAccount : Account)
  | diffInBuffer (baseAccount : Account)
  deriving DecidableEq

/-- Commits the state of a delegated account and finalizes it in the same instruction. -/
structure CommitFinalizeTask where
  commitId : ℕ
  allowUndelegation : Bool
  committedAccount : CommittedAccount
  delivery : CommitDelivery
  deriving DecidableEq

structure UndelegateTask where
  delegatedAccount : Pubkey
  ownerProgram : Pubkey
  rentReimbursement : Pubkey
  includeUndelegationRequest : Bool
  deriving DecidableEq

inductive BaseActionTask where
  | v1 (action : BaseAction)
  | v2 (action : BaseAction) (sourceProgram : Pubkey)
  deriving DecidableEq

inductive Task where
  | commitFinalize (task : CommitFinalizeTask)
  | undelegate (task : UndelegateTask)
  | baseAction (task : BaseActionTask)
  deriving DecidableEq

/-- Inline delivery moves to a buffer; `none` if it is in one already. -/
def CommitDelivery.tryUseBuffer : CommitDelivery → Option CommitDelivery
  | stateInArgs => some stateInBuffer
  | diffInArgs baseAccount => some (diffInBuffer baseAccount)
  | stateInBuffer | diffInBuffer _ => none

namespace BaseActionTask

def action : BaseActionTask → BaseAction
  | v1 action | v2 action _ => action

def withAction (action : BaseAction) : BaseActionTask → BaseActionTask
  | v1 _ => v1 action
  | v2 _ sourceProgram => v2 action sourceProgram

def hasCallback (task : BaseActionTask) : Bool := task.action.callback.isSome

/-- Takes the callback out of the action.  It is dropped if it does not return to the program that
scheduled the action. -/
def extractCallback (task : BaseActionTask) : Option BaseActionCallback × BaseActionTask :=
  (task.action.callback.filter fun callback =>
      (task.action.validateCallbackDestination callback.destinationProgram).isOk,
    task.withAction { task.action with callback := none })

end BaseActionTask

namespace Task

def isCommitFinalize : Task → Bool
  | commitFinalize _ => true
  | _ => false

def isUndelegate : Task → Bool
  | undelegate _ => true
  | _ => false

def isBaseAction : Task → Bool
  | baseAction _ => true
  | _ => false

/-- Switches inline commit data to buffer delivery; `none` if nothing changes. -/
def tryUseBuffer : Task → Option Task
  | commitFinalize task =>
    task.delivery.tryUseBuffer.map fun delivery => commitFinalize { task with delivery := delivery }
  | _ => none

def computeUnits : Task → ℕ
  | commitFinalize _ | undelegate _ => 120000
  | baseAction task => task.action.computeUnits

def hasCallback : Task → Bool
  | baseAction task => task.hasCallback
  | _ => false

/-- The callback of an action, and the task without it. -/
def extractCallback : Task → Option BaseActionCallback × Task
  | baseAction task => (task.extractCallback.1, baseAction task.extractCallback.2)
  | task => (none, task)

@[simp]
theorem isCommitFinalize_extractCallback (t : Task) :
    t.extractCallback.2.isCommitFinalize = t.isCommitFinalize := by
  cases t <;> rfl

/-- **The same work**: the task itself, or the same commit delivered by a buffer. -/
def Delivers (t t' : Task) : Prop :=
  t' = t ∨ t.tryUseBuffer = some t'

/-- Only how a commit is delivered can differ. -/
theorem Delivers.cases (h : t.Delivers t') :
    t' = t ∨ ∃ task delivery, t = commitFinalize task ∧
      t' = commitFinalize { task with delivery } := by
  refine h.imp_right fun h => ?_
  cases t with
  | commitFinalize task =>
    obtain ⟨delivery, -, rfl⟩ := Option.map_eq_some_iff.mp h
    exact ⟨task, delivery, rfl, rfl⟩
  | undelegate | baseAction => cases h

/-- What is in a buffer stays there. -/
theorem tryUseBuffer_of_tryUseBuffer {t t' : Task} (h : t.tryUseBuffer = some t') :
    t'.tryUseBuffer = none := by
  cases t with
  | commitFinalize task =>
    obtain ⟨delivery, hdel, rfl⟩ := Option.map_eq_some_iff.mp h
    rcases hold : task.delivery with _ | _ | _ | _
    all_goals
      rw [hold] at hdel
      cases hdel
    all_goals rfl
  | undelegate | baseAction => cases h

theorem Delivers.tryUseBuffer {t t' t'' : Task} (h : t.Delivers t')
    (hbuf : t'.tryUseBuffer = some t'') : t.Delivers t'' := by
  rcases h with rfl | h
  · exact .inr hbuf
  · cases hbuf.symm.trans (tryUseBuffer_of_tryUseBuffer h)

theorem Delivers.trans {t t' t'' : Task} (h : t.Delivers t') (h' : t'.Delivers t'') :
    t.Delivers t'' := by
  rcases h' with rfl | hbuf
  · exact h
  · exact h.tryUseBuffer hbuf

end Task

/-! ### Making tasks -/

def createActionTasks (actions : List BaseAction) : List Task :=
  actions.map fun action =>
    .baseAction (action.sourceProgram.elim (.v1 action) (.v2 action))

/-- Large accounts are committed as a difference, if the base account is known. -/
def commitDelivery (account : CommittedAccount) (baseAccount : Option Account) : CommitDelivery :=
  if commitStateSizeThreshold < account.account.data.length then
    baseAccount.elim .stateInArgs .diffInArgs
  else .stateInArgs

def createCommitFinalizeTask (commitId : ℕ) (allowUndelegation : Bool) (account : CommittedAccount)
    (baseAccount : Option Account) : CommitFinalizeTask where
  commitId := commitId
  allowUndelegation := allowUndelegation
  committedAccount := account
  delivery := commitDelivery account baseAccount

/-! ### Questions about a list of tasks -/

def recoveryCommitNonces (tasks : List Task) : List (Pubkey × ℕ) :=
  tasks.filterMap fun
    | .commitFinalize task => some (task.committedAccount.pubkey, task.commitId)
    | _ => none

/-- The first commit of a delegation may be byte-identical to one of an earlier delegation. -/
def requiresUniquenessNonce (commitTasks : List Task) : Bool :=
  commitTasks.any fun
    | .commitFinalize task => task.commitId ≤ 1
    | _ => false

def uniquenessNoopComputeUnits : ℕ := 1000

/-- A 32-bit sum that saturates. -/
def tasksComputeUnits (tasks : List Task) (uniquenessNonce : Option ℕ) : ℕ :=
  tasks.foldl (fun sum task => min (sum + task.computeUnits) (2 ^ 32 - 1))
    (if uniquenessNonce.isSome then uniquenessNoopComputeUnits else 0)

end Magicblock
