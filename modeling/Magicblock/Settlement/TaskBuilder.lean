import Magicblock.Settlement.Errors
import Magicblock.Settlement.Strategist

/-!
# Settlement/TaskBuilder — from an intent to its tasks

The commits of an intent and the actions that can run with them come first; the follow-up has the
remaining actions and the undelegations, and no commit (`commitFree_followUpTasks`).  Both need
facts fetched from the base layer, which are arguments here.
-/

namespace Magicblock

open List

open Magicblock.Except (bind_eq_ok)

/-- What the delegation program stores with a delegated account, as far as it is read. -/
structure DelegationMetadata where
  rentPayer : Pubkey
  requestedByOwnerProgram : Bool
  deriving DecidableEq

abbrev MetadataResult : Type := Except TaskInfoProviderError (List (Pubkey × DelegationMetadata))

abbrev BaseAccountsResult : Type := Except TaskInfoProviderError (List (Pubkey × Account))

/-- The accounts an intent commits, with their commit ids. -/
def ScheduledIntentBundle.commitKeys (intent : ScheduledIntentBundle) : List (Pubkey × ℕ) :=
  intent.intentBundle.getAllCommittedAccounts.map fun a => (a.pubkey, a.commitId)

namespace TaskBuilder

/-! ### Commits -/

/-- A commit for each account; each base account is used once. -/
def buildCommitTasks (allowUndelegation : Bool) :
    List CommittedAccount → List (Pubkey × Account) → List Task × List (Pubkey × Account)
  | [], baseAccounts => ([], baseAccounts)
  | account :: rest, baseAccounts =>
    let task := createCommitFinalizeTask account.commitId allowUndelegation account
      (baseAccounts.lookup account.pubkey)
    let (tasks, left) := buildCommitTasks allowUndelegation rest
      (baseAccounts.filter fun (pubkey, _) => pubkey ≠ account.pubkey)
    (.commitFinalize task :: tasks, left)

def baseActionsOf : CommitType → List BaseAction
  | .standalone _ => []
  | .withBaseActions _ baseActions => baseActions

/-- **Commits and the actions that can run before the follow-up.**  Without base accounts every
commit delivers its full state. -/
def commitTasks (intent : ScheduledIntentBundle) (metadata : MetadataResult)
    (baseAccounts : BaseAccountsResult) : Except TaskBuilderError (List Task) := do
  let _ ← metadata.mapError .commitTasksBuildError
  let bundle := intent.intentBundle
  let commits (allowUndelegation : Bool) (commitType : Option CommitType)
      (base : List (Pubkey × Account)) :=
    buildCommitTasks allowUndelegation ((commitType.map (·.getCommittedAccounts)).getD []) base
  let actions (commitType : Option CommitType) :=
    createActionTasks ((commitType.map baseActionsOf).getD [])
  let undelegated := bundle.commitAndUndelegate.map (·.commitAction)
  let finalizedUndelegated := bundle.commitFinalizeAndUndelegate.map (·.commitAction)
  let (commit, base₁) := commits false bundle.commit (baseAccounts.toOption.getD [])
  let (commitFinalize, base₂) := commits false bundle.commitFinalize base₁
  let (commitAndUndelegate, base₃) := commits true undelegated base₂
  let (commitFinalizeAndUndelegate, _) := commits true finalizedUndelegated base₃
  return createActionTasks bundle.standaloneActions ++ commit ++
    (commitFinalize ++ actions bundle.commitFinalize) ++ commitAndUndelegate ++
    (commitFinalizeAndUndelegate ++ actions finalizedUndelegated)

/-! ### The follow-up -/

def undelegateTask (metadata : List (Pubkey × DelegationMetadata)) (account : CommittedAccount) :
    Except TaskBuilderError Task :=
  match metadata.lookup account.pubkey with
  | none => .error (.missingDelegationMetadata account.pubkey)
  | some delegation => .ok (.undelegate
    { delegatedAccount := account.pubkey
      ownerProgram := account.account.owner
      rentReimbursement := delegation.rentPayer
      includeUndelegationRequest := delegation.requestedByOwnerProgram })

def createUndelegateTasks (metadata : List (Pubkey × DelegationMetadata))
    (value : CommitAndUndelegate) : Except TaskBuilderError (List Task) := do
  let tasks ← value.getCommittedAccounts.mapM (undelegateTask metadata)
  return tasks ++ createActionTasks (match value.undelegateAction with
    | .standalone => []
    | .withBaseActions actions => actions)

/-- **The remaining actions and the undelegations.** -/
def followUpTasks (intent : ScheduledIntentBundle) (metadata : MetadataResult) :
    Except TaskBuilderError (List Task) := do
  let metadata ← metadata.mapError .followUpTasksBuildError
  let bundle := intent.intentBundle
  let undelegations (value : Option CommitAndUndelegate) :=
    value.elim (.ok []) (createUndelegateTasks metadata)
  let commit := createActionTasks ((bundle.commit.map baseActionsOf).getD [])
  let commitAction := createActionTasks
    ((bundle.commitAndUndelegate.map fun value => baseActionsOf value.commitAction).getD [])
  let undelegated ← undelegations bundle.commitAndUndelegate
  let finalizedUndelegated ← undelegations bundle.commitFinalizeAndUndelegate
  return commit ++ (commitAction ++ undelegated) ++ finalizedUndelegated

/-! ### One commit for each account -/

theorem recoveryCommitNonces_append :
    recoveryCommitNonces (tasks ++ tasks') =
      recoveryCommitNonces tasks ++ recoveryCommitNonces tasks' :=
  filterMap_append

theorem recoveryCommitNonces_createActionTasks :
    recoveryCommitNonces (createActionTasks actions) = [] := by
  refine filterMap_eq_nil_iff.mpr fun t ht => ?_
  obtain ⟨action, -, rfl⟩ := mem_map.mp ht
  rfl

theorem recoveryCommitNonces_buildCommitTasks :
    recoveryCommitNonces (buildCommitTasks allowUndelegation accs base).1 =
      accs.map fun a => (a.pubkey, a.commitId) := by
  induction accs generalizing base with
  | nil => rfl
  | cons account accs ih =>
    rw [map_cons, ← ih]
    rfl

/-- **The tasks of an intent have one nonce for each account it commits.** -/
theorem recoveryCommitNonces_commitTasks (h : commitTasks intent metadata base = .ok tasks) :
    (recoveryCommitNonces tasks).Perm intent.commitKeys := by
  obtain ⟨_, -, ⟨⟩⟩ := bind_eq_ok.mp h
  simp only [recoveryCommitNonces_append, recoveryCommitNonces_createActionTasks,
    recoveryCommitNonces_buildCommitTasks, nil_append, append_nil]
  rw [ScheduledIntentBundle.commitKeys, MagicIntentBundle.getAllCommittedAccounts_eq]
  simp only [map_append, Option.map_map, append_assoc]
  exact (perm_append_comm_assoc ..).append_left _

/-! ### No commit in the follow-up -/

theorem commitFree_append (h : CommitFree tasks) (h' : CommitFree tasks') :
    CommitFree (tasks ++ tasks') :=
  forall_mem_append.mpr ⟨h, h'⟩

theorem commitFree_createActionTasks (actions : List BaseAction) :
    CommitFree (createActionTasks actions) := by
  intro t ht
  obtain ⟨action, -, rfl⟩ := mem_map.mp ht
  rfl

theorem eq_undelegate_of_mapM
    {accs : List CommittedAccount} (h : accs.mapM (undelegateTask metadata) = .ok tasks) :
    ∀ t ∈ tasks, ∃ task, t = .undelegate task := by
  rw [Except.mapM_eq_ok] at h
  induction h with
  | nil => exact nofun
  | cons htask _ ih =>
    refine forall_mem_cons.mpr ⟨?_, ih⟩
    unfold undelegateTask at htask
    split at htask
    · cases htask
    · cases htask
      exact ⟨_, rfl⟩

theorem commitFree_undelegations {value : Option CommitAndUndelegate}
    (h : value.elim (.ok []) (createUndelegateTasks metadata) = .ok tasks) : CommitFree tasks := by
  cases value with
  | none =>
    cases h
    exact nofun
  | some value =>
    obtain ⟨undelegations, hmap, ⟨⟩⟩ := bind_eq_ok.mp h
    refine commitFree_append (fun t ht => ?_) (commitFree_createActionTasks _)
    obtain ⟨task, rfl⟩ := eq_undelegate_of_mapM hmap t ht
    rfl

theorem commitFree_followUpTasks {metadata : MetadataResult}
    (h : followUpTasks intent metadata = .ok tasks) : CommitFree tasks := by
  obtain ⟨_, -, h⟩ := bind_eq_ok.mp h
  obtain ⟨undelegated, hund, h⟩ := bind_eq_ok.mp h
  obtain ⟨finalized, hfin, ⟨⟩⟩ := bind_eq_ok.mp h
  have hacts := commitFree_createActionTasks
  exact commitFree_append (commitFree_append (hacts _) (commitFree_append (hacts _)
    (commitFree_undelegations hund))) (commitFree_undelegations hfin)

end TaskBuilder

end Magicblock
