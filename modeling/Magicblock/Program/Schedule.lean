import Magicblock.Program.Runtime

/-!
# Program/Schedule — `ScheduleCommit` and what all scheduling shares

Reservation of commit ids, sponsored limits, fees, permissions, and the remapping of a delegated
token account to its eATA; on top of them `process_schedule_commit`, which serves `ScheduleCommit`
and `ScheduleCommitAndUndelegate`.
-/

namespace Magicblock

/-! ### The state to be committed -/

def Pubkey.ofBytes (bytes : List UInt8) : Pubkey :=
  BitVec.ofNat 256 (Nat.ofDigits 256 (bytes.map (·.toNat)))

/-- The `n` little-endian bytes of a number. -/
def leBytes (n value : ℕ) : List UInt8 :=
  (List.range n).map fun i => UInt8.ofNat (value / 256 ^ i)

structure EphemeralAta where
  owner : Pubkey
  mint : Pubkey
  amount : ℕ
  bump : UInt8
  deriving DecidableEq

def EphemeralAta.toAccount (env : ProgramEnv) (ata : EphemeralAta) : Account :=
  let data := leBytes 32 ata.owner.toNat ++ leBytes 32 ata.mint.toNat ++ leBytes 8 ata.amount ++
    [ata.bump] ++ List.replicate 7 0
  { lamports := env.minimumBalance data.length
    data := data
    owner := env.eataProgramId
    executable := false
    rentEpoch := 0 }

/-- A delegated associated token account is committed as the eATA of its owner and mint. -/
def tryRemapAtaToEata (env : ProgramEnv) (pubkey : Pubkey) (account : AccountSharedData) :
    Option (Pubkey × EphemeralAta) := do
  guard ((account.owner = env.tokenProgramId ∨ account.owner = env.token2022ProgramId) ∧
    account.mode = .delegated)
  guard (72 ≤ account.data.length)
  let mint := Pubkey.ofBytes (account.data.take 32)
  let owner := Pubkey.ofBytes ((account.data.drop 32).take 32)
  let amount := Nat.ofDigits 256 (((account.data.drop 64).take 8).map (·.toNat))
  let (eataPubkey, bump) ← env.tryDeriveEataAddressAndBump owner mint
  guard (env.deriveAtaWithTokenProgram owner mint account.owner = pubkey)
  return (eataPubkey, ⟨owner, mint, amount, bump⟩)

def CommittedAccount.fromAccountShared (env : ProgramEnv) (pubkey : Pubkey)
    (account : AccountSharedData) : CommittedAccount :=
  match tryRemapAtaToEata env pubkey account with
  | some (eataPubkey, eata) =>
    { pubkey := eataPubkey
      account := eata.toAccount env
      remoteSlot := account.slot
      commitId := account.commitSeq }
  | none =>
    { pubkey := pubkey
      account :=
        { lamports := account.lamports
          data := account.data
          owner := account.owner
          executable := account.executable
          rentEpoch := account.rentEpoch }
      remoteSlot := account.slot
      commitId := account.commitSeq }

/-! ### Checks -/

def maxPermittedDataIncrease : ℕ := 10240

/-- Sponsored commits are limited separately from the allowance of a delegated payer. -/
def commitLimit : ℕ := 10
def commitLimitErr : ℕ := 0xA0000000
def intentTooLargeErr : ℕ := 0xA0000002

def checkMagicContextId (env : ProgramEnv) (ctx : InvokeContext) (idx : ℕ) :
    Except InstructionError Unit := do
  let provided ← ctx.getInstructionPubkeyWithIdx idx
  if provided = env.magicContextPubkey then pure () else throw .missingAccount

def checkCommitLimits (commits : List CommittedAccount) : Except InstructionError Unit :=
  if commits.any (commitLimit < ·.commitId) then .error (.custom commitLimitErr) else .ok ()

def validateIntentSize (env : ProgramEnv) (intent : MagicIntentBundle) :
    Except InstructionError Unit :=
  if env.isIntentWithinLimits intent then .ok () else .error (.custom intentTooLargeErr)

/-- A committee must be owned by the calling program, or sign, or the validator must sign; the eATA
program may commit token accounts. -/
def validateCommitSchedulePermissions (env : ProgramEnv) (committeeOwner committeePubkey : Pubkey)
    (parentProgramId : Option Pubkey) (signers : List Pubkey) : Except InstructionError Unit :=
  let isTokenAccountOwner :=
    committeeOwner = env.tokenProgramId ∨ committeeOwner = env.token2022ProgramId
  let isEataTokenProgramCall := parentProgramId = some env.eataProgramId ∧ isTokenAccountOwner
  if parentProgramId ≠ some committeeOwner ∧ committeePubkey ∉ signers ∧ env.authority ∉ signers ∧
      ¬ isEataTokenProgramCall then
    match parentProgramId with
    | none => .error .invalidInstructionData
    | some _ => .error .invalidAccountOwner
  else .ok ()

/-! ### Fees -/

/-- Commits covered by the deposit of a delegation. -/
def actualCommitLimit : ℕ := 25
def commitFeeLamports : ℕ := 1000000
def computeUnitPriceMicroLamports : ℕ := 50000
def missingCommitNonceErr : ℕ := 0xA0000001

def calculateCommitFee (accounts : List CommittedAccount) : Except InstructionError ℕ :=
  accounts.foldlM (fun fee account =>
    if account.commitId = 0 then .error (.custom missingCommitNonceErr)
    else .ok (fee + if actualCommitLimit < account.commitId then commitFeeLamports else 0)) 0

/-- The additions saturate at 64 bits; the sum is rounded up to lamports. -/
def calculateActionsFee (actions : List BaseAction) : ℕ :=
  let microLamports := actions.foldl (fun acc action =>
    min (acc + action.computeUnits * computeUnitPriceMicroLamports) (2 ^ 64 - 1)) 0
  (microLamports + 999999) / 1000000

/-- The account at `feeVaultIdx`, if it is the magic fee vault; then it must be writable and
delegated. -/
def feeVaultAt (env : ProgramEnv) (ctx : InvokeContext) (feeVaultIdx : ℕ) :
    Program (Option InstructionAccount) :=
  match ctx.getInstructionAccountWithIdx feeVaultIdx with
  | .ok vaultAccount =>
    if vaultAccount.pubkey = env.magicFeeVaultPubkey then do
      let vault ← Program.borrow vaultAccount.pubkey
      Exec.ensure (vault.mode = .delegated ∧ vaultAccount.isWritable) .illegalOwner
      pure (some vaultAccount)
    else pure none
  | .error .missingAccount => pure none
  | .error err => throw err

/-- The vault to charge, if the payer is delegated, and the index of the next account. -/
def tryGetFeeVault (env : ProgramEnv) (ctx : InvokeContext) (payerIdx feeVaultIdx : ℕ) :
    Program (Option InstructionAccount × ℕ) := do
  let payerAccount ← Exec.ofExcept (ctx.getInstructionAccountWithIdx payerIdx)
  let payer ← Program.borrow payerAccount.pubkey
  let feeVault ← feeVaultAt env ctx feeVaultIdx
  let nextAccountIdx := feeVaultIdx + if feeVault.isSome then 1 else 0
  if payer.mode = .delegated then do
    Exec.ensure feeVault.isSome .missingAccount
    pure (feeVault, nextAccountIdx)
  else pure (none, nextAccountIdx)

/-- Transfers `fee` lamports from the payer to the vault; both must be delegated. -/
def chargeDelegatedPayer (payer feeVault : InstructionAccount) (fee : ℕ) : Program Unit := do
  Exec.ensure ((← Program.borrow payer.pubkey).mode = .delegated) .illegalOwner
  Exec.ensure ((← Program.borrow feeVault.pubkey).mode = .delegated) .illegalOwner
  if fee = 0 then pure ()
  else do
    let payerLamports := (← Program.borrow payer.pubkey).lamports
    Exec.ensure (fee ≤ payerLamports) .insufficientFunds
    Program.update payer.pubkey fun acc => { acc with lamports := payerLamports - fee }
    let vaultLamports := (← Program.borrow feeVault.pubkey).lamports
    Exec.ensure (vaultLamports + fee < 2 ^ 64) .arithmeticOverflow
    Program.update feeVault.pubkey fun acc => { acc with lamports := vaultLamports + fee }

/-! ### Account actions -/

/-- **Takes the next commit id of an account**; the 32-bit counter does not wrap. -/
def reserveCommitId (env : ProgramEnv) (account : InstructionAccount) : Program ℕ := do
  Exec.ensure account.isWritable .readonlyDataModified
  let acc ← Program.borrow account.pubkey
  let commitSeq := acc.commitSeq + 1
  Exec.ensure (commitSeq < 2 ^ 32) .arithmeticOverflow
  Exec.ensure (env.acceptsCommitSeq acc commitSeq) .invalidAccountData
  Program.update account.pubkey fun acc => { acc with commitSeq := commitSeq }
  modify fun bank =>
    { bank with reserved := bank.reserved ++ [⟨account.pubkey, commitSeq⟩] }
  return commitSeq

def setAccountMode (env : ProgramEnv) (pubkey : Pubkey) (mode : AccountMode) : Program Unit := do
  Exec.ensure (env.allowsLifecycle (← Program.borrow pubkey).mode mode) .invalidArgument
  Program.update pubkey fun acc => { acc with mode := mode }

/-- Undelegating revokes program writes and keeps the local image until the handoff. -/
def markAccountAsUndelegated (env : ProgramEnv) (account : InstructionAccount) : Program Unit := do
  Program.update account.pubkey fun acc => { acc with owner := env.delegationProgramId }
  setAccountMode env account.pubkey .undelegating

/-! ### `process_schedule_commit` -/

def payerIdx : ℕ := 0
def magicContextIdx : ℕ := 1

/-- Local-only and oversized accounts cannot be committed; the account must be delegated, and also
writable if it is to be undelegated, so that no account is undelegated twice. -/
def validateCommittee (env : ProgramEnv) (signers : List Pubkey) (parentProgramId : Option Pubkey)
    (requestUndelegation : Bool) (acc : InstructionAccount) : Program Unit := do
  let account ← Program.borrow acc.pubkey
  Exec.ensure (account.mode ≠ .magic) .invalidAccountData
  Exec.ensure (account.data.length ≤ maxPermittedDataIncrease) .invalidAccountData
  Exec.ensure (account.mode = .delegated ∧ (requestUndelegation → acc.isWritable))
    (if requestUndelegation then .readonlyDataModified else .illegalOwner)
  Exec.ofExcept (validateCommitSchedulePermissions env account.owner acc.pubkey parentProgramId
    signers)

/-- An account to be undelegated is locked at once. -/
def lockCommittee (env : ProgramEnv) (requestUndelegation : Bool) (acc : InstructionAccount) :
    Program Unit :=
  if requestUndelegation then markAccountAsUndelegated env acc else pure ()

/-- **One committee of `ScheduleCommit`.**  The set of keys seen so far is that of the accounts
collected so far: a key enters it together with its account. -/
def scheduleCommittee (env : ProgramEnv) (signers : List Pubkey) (parentProgramId : Option Pubkey)
    (requestUndelegation : Bool) (committedAccounts : List CommittedAccount)
    (acc : InstructionAccount) : Program (List CommittedAccount) := do
  validateCommittee env signers parentProgramId requestUndelegation acc
  let account ← Program.borrow acc.pubkey
  let committed := CommittedAccount.fromAccountShared env acc.pubkey account
  -- duplicates, by the key after remapping, are merged into their first occurrence
  if committed.pubkey ∈ committedAccounts.map (·.pubkey) then pure committedAccounts
  else do
    let commitId ← reserveCommitId env acc
    lockCommittee env requestUndelegation acc
    pure (committedAccounts ++ [{ committed with commitId := commitId }])

/-- A delegated payer is charged; otherwise plain commits are held to the sponsored limit. -/
def chargeOrLimit (payerAccount : InstructionAccount) (magicFeeVault : Option InstructionAccount)
    (requestUndelegation : Bool) (committedAccounts : List CommittedAccount) : Program Unit :=
  match magicFeeVault with
  | some feeVault => do
    let fee ← Exec.ofExcept (calculateCommitFee committedAccounts)
    chargeDelegatedPayer payerAccount feeVault fee
  | none =>
    if requestUndelegation then pure () else Exec.ofExcept (checkCommitLimits committedAccounts)

/-- `ScheduleCommit`, and with `requestUndelegation` `ScheduleCommitAndUndelegate`. -/
def processScheduleCommit (env : ProgramEnv) (ctx : InvokeContext) (requestUndelegation : Bool) :
    Program Unit := do
  Exec.ofExcept (checkMagicContextId env ctx magicContextIdx)
  Exec.ensure (ctx.programKey = env.programId) .unsupportedProgramId
  let payerPubkey ← Exec.ofExcept (ctx.getInstructionPubkeyWithIdx payerIdx)
  Exec.ensure (payerPubkey ∈ ctx.signers) .missingRequiredSignature
  let payerAccount ← Exec.ofExcept (ctx.getInstructionAccountWithIdx payerIdx)
  let (magicFeeVault, committeesStart) ← tryGetFeeVault env ctx payerIdx (magicContextIdx + 1)
  Exec.ensure (committeesStart < ctx.accounts.length) .missingAccount
  let parentProgramId ← Exec.ofExcept ctx.effectiveCaller
  let committedAccounts ← (ctx.accounts.drop committeesStart).foldlM
    (scheduleCommittee env ctx.signers parentProgramId requestUndelegation) []
  chargeOrLimit payerAccount magicFeeVault requestUndelegation committedAccounts
  let (intentId, context) := (← get).context.nextIntentId
  let slot ← Exec.ofExcept ctx.getClock
  let baseIntent : MagicIntentBundle :=
    if requestUndelegation then
      { commitFinalizeAndUndelegate := some ⟨.standalone committedAccounts, .standalone⟩ }
    else { commitFinalize := some (.standalone committedAccounts) }
  Exec.ofExcept (validateIntentSize env baseIntent)
  Program.writeContext env (context.addScheduledAction
    { intentId := intentId
      slot := slot
      blockhash := ctx.blockhash
      payer := payerPubkey
      intentBundle := baseIntent })

end Magicblock
