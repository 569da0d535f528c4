import Magicblock.Intent.Types

/-!
# Intent/Outbox — the outbox record of an accepted intent and its stage machine

`OutboxIntentBundle` is what an outbox account holds: the intent, how far its settlement got, and
the commit nonces of a recovery.  The stage machine is the on-chain side of the settlement run:

  `Accepted ──► SingleStage ──► TwoStage Committing ──► TwoStage Finalizing`

with every stage able to replace its own pending transaction, and with `Finalizing` tied for good
to the commit signature it was entered with.
-/

namespace Magicblock

/-- A transaction that was sent but not yet confirmed, with the blockhash it was built with. -/
structure PendingTransaction where
  signature : Signature
  blockhash : Hash
  deriving DecidableEq

inductive TwoStageProgress where
  | committing (pending : PendingTransaction)
  | finalizing (commit : Signature) (finalize : PendingTransaction)
  deriving DecidableEq

inductive ExecutionStage where
  | singleStage (pending : PendingTransaction)
  | twoStage (progress : TwoStageProgress)
  deriving DecidableEq

inductive StageTransitionError where
  | singleStageToFinalizingError
  | twoStageToSingleStageError
  | commitSignatureMismatchError
  | commitSignatureReplacementError
  | finalizingToCommittingDowngradeError
  deriving DecidableEq

namespace TwoStageProgress

def pendingTransaction : TwoStageProgress → PendingTransaction
  | committing pending => pending
  | finalizing _ finalize => finalize

def applyStageTransition :
    TwoStageProgress → TwoStageProgress → Except StageTransitionError TwoStageProgress
  -- the current signature did not succeed on the base layer: a new attempt replaces it
  | committing _, committing new => .ok (committing new)
  | committing this, finalizing commit finalize =>
    if this.signature ≠ commit then .error .commitSignatureMismatchError
    else .ok (finalizing commit finalize)
  | finalizing thisCommit _, finalizing commit finalize =>
    if thisCommit ≠ commit then .error .commitSignatureReplacementError
    else .ok (finalizing commit finalize)
  | finalizing _ _, committing _ => .error .finalizingToCommittingDowngradeError

end TwoStageProgress

namespace ExecutionStage

def pendingTransaction : ExecutionStage → PendingTransaction
  | singleStage pending => pending
  | twoStage progress => progress.pendingTransaction

def applyStageTransition :
    ExecutionStage → ExecutionStage → Except StageTransitionError ExecutionStage
  | singleStage _, singleStage sig => .ok (singleStage sig)
  -- single-stage execution failed (CPI limit and the like) and is split
  | singleStage _, twoStage (.committing sig) => .ok (twoStage (.committing sig))
  | singleStage _, twoStage (.finalizing _ _) => .error .singleStageToFinalizingError
  | twoStage this, twoStage value => (this.applyStageTransition value).map twoStage
  | twoStage _, singleStage _ => .error .twoStageToSingleStageError

end ExecutionStage

inductive OutboxIntentBundleStatus where
  | accepted
  | executing (stage : ExecutionStage)
  deriving DecidableEq

inductive OutboxStageTransitionError where
  | acceptedToFinalizingError
  | stageError (err : StageTransitionError)
  deriving DecidableEq

namespace OutboxIntentBundleStatus

def applyStageTransition :
    OutboxIntentBundleStatus → ExecutionStage →
      Except OutboxStageTransitionError OutboxIntentBundleStatus
  | accepted, .twoStage (.committing pending) =>
    .ok (executing (.twoStage (.committing pending)))
  | accepted, .twoStage (.finalizing _ _) => .error .acceptedToFinalizingError
  | accepted, .singleStage pending => .ok (executing (.singleStage pending))
  | executing this, stage =>
    ((this.applyStageTransition stage).mapError .stageError).map executing

/-- **The allowed transitions.** -/
inductive Advance : OutboxIntentBundleStatus → ExecutionStage → Prop where
  | single : Advance accepted (.singleStage p)
  | commits : Advance accepted (.twoStage (.committing p))
  | againSingle : Advance (executing (.singleStage p)) (.singleStage q)
  | split : Advance (executing (.singleStage p)) (.twoStage (.committing q))
  | againCommits : Advance (executing (.twoStage (.committing p))) (.twoStage (.committing q))
  | finalize :
    Advance (executing (.twoStage (.committing p))) (.twoStage (.finalizing p.signature q))
  | againFinalize :
    Advance (executing (.twoStage (.finalizing commit p))) (.twoStage (.finalizing commit q))

/-- A transition stores the new stage, and is one of the allowed. -/
theorem advance_of_applyStageTransition (h : status.applyStageTransition stage = .ok status') :
    status' = executing stage ∧ Advance status stage := by
  rcases status with _ | (p | (p | ⟨commit, p⟩)) <;> rcases stage with q | (q | ⟨commit', q⟩)
  all_goals
    simp only [applyStageTransition, ExecutionStage.applyStageTransition,
      TwoStageProgress.applyStageTransition] at h
  · exact ⟨(Except.ok.inj h).symm, .single⟩
  · exact ⟨(Except.ok.inj h).symm, .commits⟩
  · cases h
  · exact ⟨(Except.ok.inj h).symm, .againSingle⟩
  · exact ⟨(Except.ok.inj h).symm, .split⟩
  · cases h
  · cases h
  · exact ⟨(Except.ok.inj h).symm, .againCommits⟩
  · split_ifs at h with hcom
    · cases h
    · obtain rfl := not_not.mp hcom
      exact ⟨(Except.ok.inj h).symm, .finalize⟩
  · cases h
  · cases h
  · split_ifs at h with hcom
    · cases h
    · obtain rfl := not_not.mp hcom
      exact ⟨(Except.ok.inj h).symm, .againFinalize⟩

end OutboxIntentBundleStatus

/-- **The content of an outbox account.** -/
structure OutboxIntentBundle where
  inner : ScheduledIntentBundle
  status : OutboxIntentBundleStatus
  recoveryCommitNonces : List (Pubkey × ℕ)
  bump : UInt8
  deriving DecidableEq

namespace OutboxIntentBundle

def accepted (intentBundle : ScheduledIntentBundle) (bump : UInt8) : OutboxIntentBundle where
  inner := intentBundle
  status := .accepted
  recoveryCommitNonces := []
  bump := bump

def intentId (b : OutboxIntentBundle) : IntentID := b.inner.intentId

def getAllCommittedPubkeys (b : OutboxIntentBundle) : List Pubkey :=
  b.inner.getAllCommittedPubkeys

/-- Recovery nonces are replaced only by a non-empty list, and before the transition is tried. -/
def applyStageTransition (b : OutboxIntentBundle) (stage : ExecutionStage)
    (recoveryCommitNonces : List (Pubkey × ℕ)) :
    Except OutboxStageTransitionError OutboxIntentBundle :=
  (b.status.applyStageTransition stage).map fun status =>
    { b with
      status := status
      recoveryCommitNonces :=
        if recoveryCommitNonces.isEmpty then b.recoveryCommitNonces else recoveryCommitNonces }

end OutboxIntentBundle

/-- `create_test_intent_bundle`: standalone commits of the given keys. -/
def createTestIntentBundle (id : IntentID)
    (commitPubkeys commitAndUndelegatePubkeys : List Pubkey) : OutboxIntentBundle :=
  let toAccounts (keys : List Pubkey) : List CommittedAccount :=
    keys.map fun k => ⟨k, ⟨0, [], 0, false, 0⟩, 0, 1⟩
  .accepted
    { intentId := id
      slot := 0
      blockhash := 0
      payer := 0
      intentBundle :=
        { commit :=
            if commitPubkeys.isEmpty then none else some (.standalone (toAccounts commitPubkeys))
          commitAndUndelegate :=
            if commitAndUndelegatePubkeys.isEmpty then none
            else some ⟨.standalone (toAccounts commitAndUndelegatePubkeys), .standalone⟩ } }
    255

end Magicblock
