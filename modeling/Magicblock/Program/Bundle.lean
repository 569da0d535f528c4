import Magicblock.Program.Schedule

/-!
# Program/Bundle — `ScheduleIntentBundle`

A bundle is rebuilt from its wire arguments: each part is validated, its commit ids are reserved and
its actions are numbered, in the order commit, commit-and-undelegate, actions, commit-finalize,
commit-finalize-and-undelegate.  Only then the bundle as a whole is checked for repeated keys.
-/

namespace Magicblock

/-! ### Wire arguments -/

structure BaseActionArgs where
  args : ProgramArgs
  computeUnits : ℕ
  escrowAuthority : ℕ
  destinationProgram : Pubkey
  accounts : List ShortAccountMeta
  deriving DecidableEq

inductive CommitTypeArgs where
  | standalone (accounts : List ℕ)
  | withBaseActions (committedAccounts : List ℕ) (baseActions : List BaseActionArgs)
  deriving DecidableEq

def CommitTypeArgs.committedAccountsIndices : CommitTypeArgs → List ℕ
  | standalone accounts => accounts
  | withBaseActions committedAccounts _ => committedAccounts

def CommitTypeArgs.actionCount : CommitTypeArgs → ℕ
  | standalone _ => 0
  | withBaseActions _ baseActions => baseActions.length

inductive UndelegateTypeArgs where
  | standalone
  | withBaseActions (baseActions : List BaseActionArgs)
  deriving DecidableEq

def UndelegateTypeArgs.actionCount : UndelegateTypeArgs → ℕ
  | standalone => 0
  | withBaseActions baseActions => baseActions.length

structure CommitAndUndelegateArgs where
  commitType : CommitTypeArgs
  undelegateType : UndelegateTypeArgs
  deriving DecidableEq

def CommitAndUndelegateArgs.committedAccountsIndices (args : CommitAndUndelegateArgs) : List ℕ :=
  args.commitType.committedAccountsIndices

def CommitAndUndelegateArgs.actionCount (args : CommitAndUndelegateArgs) : ℕ :=
  args.commitType.actionCount + args.undelegateType.actionCount

structure MagicIntentBundleArgs where
  commit : Option CommitTypeArgs := none
  commitAndUndelegate : Option CommitAndUndelegateArgs := none
  commitFinalize : Option CommitTypeArgs := none
  commitFinalizeAndUndelegate : Option CommitAndUndelegateArgs := none
  standaloneActions : List BaseActionArgs := []
  deriving DecidableEq

/-! ### Construction -/

/-- The part of the construction context that stays fixed; `secure` asks for the call handler that
passes the source program on. -/
structure ConstructionContext where
  env : ProgramEnv
  ctx : InvokeContext
  parentProgramId : Option Pubkey
  secure : Bool

namespace ConstructionContext

variable (cc : ConstructionContext)

/-- An action with the next free id. -/
def baseAction (nextActionId : ℕ) (args : BaseActionArgs) :
    Except InstructionError BaseAction := do
  let authorityPubkey ← cc.ctx.getInstructionPubkeyWithIdx args.escrowAuthority
  if authorityPubkey ∉ cc.ctx.signers then throw .missingRequiredSignature
  let some parentProgramId := cc.parentProgramId | throw .unsupportedProgramId
  let sourceProgram ←
    if cc.secure then pure (some parentProgramId)
    else if args.destinationProgram = parentProgramId then pure none
    else throw .unsupportedProgramId
  return {
    id := nextActionId
    computeUnits := args.computeUnits
    destinationProgram := args.destinationProgram
    sourceProgram := sourceProgram
    escrowAuthority := authorityPubkey
    dataPerProgram := args.args
    accountMetasPerProgram := args.accounts
    callback := none }

/-- Actions in order, numbered from `nextActionId`. -/
def baseActions : ℕ → List BaseActionArgs → Except InstructionError (List BaseAction)
  | _, [] => return []
  | nextActionId, args :: rest => do
    let action ← cc.baseAction nextActionId args
    let actions ← baseActions (nextActionId + 1) rest
    return action :: actions

def extractCommitAccounts (accountIndices : List ℕ) :
    Except InstructionError (List InstructionAccount) :=
  accountIndices.mapM cc.ctx.getInstructionAccountWithIdx

def validateCommitTypeAccount (account : InstructionAccount) : Program Unit := do
  let acc ← Program.borrow account.pubkey
  Exec.ensure (acc.mode ≠ .magic) .invalidAccountData
  Exec.ensure (acc.mode = .delegated) .illegalOwner
  Exec.ensure (acc.data.length ≤ maxPermittedDataIncrease) .invalidAccountData
  Exec.ofExcept (validateCommitSchedulePermissions cc.env acc.owner account.pubkey
    cc.parentProgramId cc.ctx.signers)

def validateCommitAndUndelegateAccount (idx : ℕ) : Program Unit := do
  let account ← Exec.ofExcept (cc.ctx.getInstructionAccountWithIdx idx)
  let acc ← Program.borrow account.pubkey
  Exec.ensure (account.isWritable ∧ acc.mode = .delegated) .readonlyDataModified

/-- Here the id is reserved first, and the account is read with it. -/
def commitAccount (account : InstructionAccount) : Program CommittedAccount := do
  let _ ← reserveCommitId cc.env account
  let acc ← Program.borrow account.pubkey
  return CommittedAccount.fromAccountShared cc.env account.pubkey acc

def commitAccounts (accountIndices : List ℕ) : Program (List CommittedAccount) := do
  let committedAccountsRef ← Exec.ofExcept (cc.extractCommitAccounts accountIndices)
  committedAccountsRef.forM cc.validateCommitTypeAccount
  committedAccountsRef.mapM cc.commitAccount

def commitType (nextActionId : ℕ) : CommitTypeArgs → Program CommitType
  | .standalone accounts => return .standalone (← cc.commitAccounts accounts)
  | .withBaseActions accounts actions => do
    let committedAccounts ← cc.commitAccounts accounts
    let actions ← Exec.ofExcept (cc.baseActions nextActionId actions)
    return .withBaseActions committedAccounts actions

def undelegateType (nextActionId : ℕ) : UndelegateTypeArgs → Except InstructionError UndelegateType
  | .standalone => return .standalone
  | .withBaseActions actions => return .withBaseActions (← cc.baseActions nextActionId actions)

def commitAndUndelegate (nextActionId : ℕ) (args : CommitAndUndelegateArgs) :
    Program CommitAndUndelegate := do
  args.committedAccountsIndices.forM cc.validateCommitAndUndelegateAccount
  let commitAction ← cc.commitType nextActionId args.commitType
  let undelegateAction ← Exec.ofExcept
    (cc.undelegateType (nextActionId + args.commitType.actionCount) args.undelegateType)
  return ⟨commitAction, undelegateAction⟩

end ConstructionContext

/-! ### Checks on a bundle -/

/-- The accounts of a commit and of a commit-and-undelegate must not overlap. -/
def validateMagicIntentBundleArgs (args : MagicIntentBundleArgs) : Except InstructionError Unit :=
  match args.commit, args.commitAndUndelegate with
  | some commit, some undelegate =>
    if undelegate.committedAccountsIndices.any (· ∈ commit.committedAccountsIndices) then
      .error .invalidInstructionData
    else .ok ()
  | _, _ => .ok ()

/-- **All committed accounts of a bundle have distinct keys.** -/
def postValidateMagicIntentBundle (bundle : MagicIntentBundle) : Except InstructionError Unit :=
  if bundle.isEmpty then .error .invalidInstructionData
  else if (bundle.getAllCommittedAccounts.map (·.pubkey)).Nodup then .ok ()
  else .error .invalidInstructionData

/-- Builds a bundle; actions are numbered in the order of the parts. -/
def MagicIntentBundle.tryFromArgs (cc : ConstructionContext) (args : MagicIntentBundleArgs) :
    Program MagicIntentBundle := do
  Exec.ofExcept (validateMagicIntentBundleArgs args)
  let actionCount (t : Option CommitTypeArgs) := (t.map CommitTypeArgs.actionCount).getD 0
  let undelegateCount (t : Option CommitAndUndelegateArgs) :=
    (t.map CommitAndUndelegateArgs.actionCount).getD 0
  let next₁ := actionCount args.commit
  let next₂ := next₁ + undelegateCount args.commitAndUndelegate
  let next₃ := next₂ + args.standaloneActions.length
  let next₄ := next₃ + actionCount args.commitFinalize
  let commit ← Exec.forOption (cc.commitType 0) args.commit
  let commitAndUndelegate ← Exec.forOption (cc.commitAndUndelegate next₁) args.commitAndUndelegate
  let actions ← Exec.ofExcept (cc.baseActions next₂ args.standaloneActions)
  let commitFinalize ← Exec.forOption (cc.commitType next₃) args.commitFinalize
  let commitFinalizeAndUndelegate ←
    Exec.forOption (cc.commitAndUndelegate next₄) args.commitFinalizeAndUndelegate
  let this : MagicIntentBundle :=
    { commit := commit
      commitAndUndelegate := commitAndUndelegate
      commitFinalize := commitFinalize
      commitFinalizeAndUndelegate := commitFinalizeAndUndelegate
      standaloneActions := actions }
  Exec.ofExcept (postValidateMagicIntentBundle this)
  Exec.ofExcept (validateIntentSize cc.env this)
  return this

/-! ### Fees -/

def CommitType.calculateFee : CommitType → Except InstructionError ℕ
  | standalone committedAccounts => calculateCommitFee committedAccounts
  | withBaseActions committedAccounts baseActions =>
    return (← calculateCommitFee committedAccounts) + calculateActionsFee baseActions

def UndelegateType.calculateFee : UndelegateType → ℕ
  | standalone => 0
  | withBaseActions actions => calculateActionsFee actions

def CommitAndUndelegate.calculateFee (t : CommitAndUndelegate) : Except InstructionError ℕ :=
  return (← t.commitAction.calculateFee) + t.undelegateAction.calculateFee

def MagicIntentBundle.calculateFee (b : MagicIntentBundle) : Except InstructionError ℕ := do
  let part {α : Type} (fee : α → Except InstructionError ℕ) (x : Option α) := x.elim (pure 0) fee
  let commit ← part CommitType.calculateFee b.commit
  let commitAndUndelegate ← part CommitAndUndelegate.calculateFee b.commitAndUndelegate
  let commitFinalize ← part CommitType.calculateFee b.commitFinalize
  let commitFinalizeAndUndelegate ←
    part CommitAndUndelegate.calculateFee b.commitFinalizeAndUndelegate
  return commit + commitAndUndelegate + commitFinalize + commitFinalizeAndUndelegate +
    calculateActionsFee b.standaloneActions

/-! ### `process_schedule_intent_bundle` -/

/-- A delegated payer is charged; otherwise both commit kinds are held to the sponsored limit, and
undelegation stays available. -/
def chargeOrLimitBundle (payerAccount : InstructionAccount)
    (magicFeeVault : Option InstructionAccount) (bundle : MagicIntentBundle) : Program Unit :=
  match magicFeeVault with
  | some feeVault => do
    let fee ← Exec.ofExcept bundle.calculateFee
    chargeDelegatedPayer payerAccount feeVault fee
  | none =>
    ([bundle.commit, bundle.commitFinalize].reduceOption).forM fun part =>
      Exec.ofExcept (checkCommitLimits part.getCommittedAccounts)

def processScheduleIntentBundle (env : ProgramEnv) (ctx : InvokeContext)
    (args : MagicIntentBundleArgs) (secure : Bool) : Program Unit := do
  Exec.ofExcept (checkMagicContextId env ctx magicContextIdx)
  let parentProgramId ← Exec.ofExcept ctx.effectiveCaller
  let slot ← Exec.ofExcept ctx.getClock
  Exec.ensure (ctx.programKey = env.programId) .unsupportedProgramId
  let payerPubkey ← Exec.ofExcept (ctx.getInstructionPubkeyWithIdx payerIdx)
  Exec.ensure (payerPubkey ∈ ctx.signers) .missingRequiredSignature
  let (intentId, context) := (← get).context.nextIntentId
  let cc : ConstructionContext := ⟨env, ctx, parentProgramId, secure⟩
  let undelegatedAccountIndices :=
    ([args.commitAndUndelegate, args.commitFinalizeAndUndelegate].reduceOption).flatMap
      CommitAndUndelegateArgs.committedAccountsIndices
  let intentBundle ← MagicIntentBundle.tryFromArgs cc args
  let undelegatedAccounts ← Exec.ofExcept (cc.extractCommitAccounts undelegatedAccountIndices)
  undelegatedAccounts.forM (markAccountAsUndelegated env)
  let payerAccount ← Exec.ofExcept (ctx.getInstructionAccountWithIdx payerIdx)
  let (magicFeeVault, _) ← tryGetFeeVault env ctx payerIdx (magicContextIdx + 1)
  chargeOrLimitBundle payerAccount magicFeeVault intentBundle
  Program.writeContext env (context.addScheduledAction
    { intentId := intentId
      slot := slot
      blockhash := ctx.blockhash
      payer := payerPubkey
      intentBundle := intentBundle })

end Magicblock
