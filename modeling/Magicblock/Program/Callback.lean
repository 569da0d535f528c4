import Magicblock.Program.Bundle

/-!
# Program/Callback — `AddActionCallback`

Attaches a callback to one action of the newest queued intent.  The source holds a mutable reference
to that action; here `getActionMut` returns the action together with the way to put another in its
place.
-/

namespace Magicblock

open Option (map_eq_some_iff or_eq_some_iff)

/-- The first element with `p`, and the list with another one in its place. -/
def findMut {α : Type} (p : α → Bool) : List α → Option (α × (α → List α))
  | [] => none
  | a :: l =>
    if p a then some (a, (· :: l)) else (findMut p l).map fun (x, put) => (x, fun y => a :: put y)

def CommitType.getActionMut (id : ℕ) : CommitType → Option (BaseAction × (BaseAction → CommitType))
  | standalone _ => none
  | withBaseActions committedAccounts baseActions =>
    (findMut (·.id = id) baseActions).map fun (action, put) =>
      (action, fun y => withBaseActions committedAccounts (put y))

def UndelegateType.getActionMut (id : ℕ) :
    UndelegateType → Option (BaseAction × (BaseAction → UndelegateType))
  | standalone => none
  | withBaseActions actions =>
    (findMut (·.id = id) actions).map
      fun (action, put) => (action, fun y => withBaseActions (put y))

def CommitAndUndelegate.getActionMut (id : ℕ) (t : CommitAndUndelegate) :
    Option (BaseAction × (BaseAction → CommitAndUndelegate)) :=
  ((t.commitAction.getActionMut id).map fun (action, put) =>
      (action, fun y => { t with commitAction := put y })).or
    ((t.undelegateAction.getActionMut id).map fun (action, put) =>
      (action, fun y => { t with undelegateAction := put y }))

namespace MagicIntentBundle

/-- The parts in the order in which the source looks through them. -/
def getActionMut (id : ℕ) (b : MagicIntentBundle) :
    Option (BaseAction × (BaseAction → MagicIntentBundle)) :=
  ((b.commit.bind (CommitType.getActionMut id)).map fun (action, put) =>
      (action, fun y => { b with commit := some (put y) })).or <|
  ((b.commitAndUndelegate.bind (CommitAndUndelegate.getActionMut id)).map fun (action, put) =>
      (action, fun y => { b with commitAndUndelegate := some (put y) })).or <|
  ((findMut (·.id = id) b.standaloneActions).map fun (action, put) =>
      (action, fun y => { b with standaloneActions := put y })).or <|
  ((b.commitFinalize.bind (CommitType.getActionMut id)).map fun (action, put) =>
      (action, fun y => { b with commitFinalize := some (put y) })).or <|
  (b.commitFinalizeAndUndelegate.bind (CommitAndUndelegate.getActionMut id)).map
    fun (action, put) => (action, fun y => { b with commitFinalizeAndUndelegate := some (put y) })

end MagicIntentBundle

def callbackFeeLamports : ℕ := 5000

structure AddActionCallbackArgs where
  actionIndex : ℕ
  destinationProgram : Pubkey
  discriminator : List UInt8
  payload : List UInt8
  computeUnits : ℕ
  accounts : List ShortAccountMeta
  deriving DecidableEq

/-- Responses may only return to the authenticated scheduling source. -/
def BaseAction.validateCallbackDestination (action : BaseAction) (destination : Pubkey) :
    Except InstructionError Unit :=
  if action.sourceProgram = some destination then .ok () else .error .invalidInstructionData

/-- Restricts callback signers to the callback PDA and excludes the validator authority. -/
def validateCallbackAccounts (env : ProgramEnv) : List AccountMeta → Except InstructionError Unit
  | [] => .ok ()
  | ⟨pubkey, isSigner, isWritable⟩ :: rest =>
    if isWritable ∧ pubkey = env.callbackSigner then .error .immutable
    else if isSigner ∧ pubkey ≠ env.callbackSigner then .error .incorrectAuthority
    else if pubkey = env.authority then .error .incorrectAuthority
    else validateCallbackAccounts env rest

/-- **`AddActionCallback`** — only within the slot and block in which the intent was scheduled. -/
def processAddActionCallback (env : ProgramEnv) (ctx : InvokeContext)
    (args : AddActionCallbackArgs) : Program Unit := do
  Exec.ofExcept (checkMagicContextId env ctx magicContextIdx)
  let slot ← Exec.ofExcept ctx.getClock
  let parentProgramId ← Exec.ofExcept ctx.effectiveCaller
  Exec.ensure (ctx.programKey = env.programId) .unsupportedProgramId
  let payerAccount ← Exec.ofExcept (ctx.getInstructionAccountWithIdx payerIdx)
  Exec.ensure (payerAccount.pubkey ∈ ctx.signers) .missingRequiredSignature
  let (feeVault, _) ← tryGetFeeVault env ctx payerIdx (magicContextIdx + 1)
  let magicFeeVault ← Exec.ofOption feeVault .missingAccount
  chargeDelegatedPayer payerAccount magicFeeVault callbackFeeLamports
  let context := (← get).context
  let latestIntent ← Exec.ofOption context.scheduledBaseIntents.getLast? .invalidAccountData
  Exec.ensure (latestIntent.payer = payerAccount.pubkey) .invalidAccountData
  let (action, put) ← Exec.ofOption (latestIntent.intentBundle.getActionMut args.actionIndex)
    .invalidInstructionData
  Exec.ensure (action.callback = none) .invalidAccountData
  let sourceProgram ← Exec.ofOption action.sourceProgram .invalidAccountData
  Exec.ensure (some sourceProgram = parentProgramId) .invalidAccountData
  Exec.ensure (latestIntent.slot = slot ∧ latestIntent.blockhash = ctx.blockhash)
    .invalidInstructionData
  Exec.ofExcept (action.validateCallbackDestination args.destinationProgram)
  let accountsMeta := args.accounts.map fun acc =>
    AccountMeta.mk acc.pubkey (acc.pubkey = env.callbackSigner) acc.isWritable
  Exec.ofExcept (validateCallbackAccounts env accountsMeta)
  let callback : BaseActionCallback :=
    { destinationProgram := args.destinationProgram
      discriminator := args.discriminator
      payload := args.payload
      computeUnits := args.computeUnits
      accountMetasPerProgram := args.accounts }
  let intentBundle := put { action with callback := some callback }
  Program.writeContext env
    { context with
      scheduledBaseIntents := context.scheduledBaseIntents.dropLast ++
        [{ latestIntent with intentBundle := intentBundle }] }

/-! ### A callback changes actions only -/

variable {id : ℕ}

theorem CommitType.getCommittedAccounts_put {t : CommitType}
    (h : t.getActionMut id = some (action, put)) (y : BaseAction) :
    (put y).getCommittedAccounts = t.getCommittedAccounts := by
  cases t with
  | standalone accs => cases h
  | withBaseActions accs actions =>
    obtain ⟨⟨x, putList⟩, -, hput⟩ := map_eq_some_iff.mp h
    obtain ⟨-, rfl⟩ := Prod.mk.inj hput
    rfl

theorem CommitAndUndelegate.getCommittedAccounts_put {t : CommitAndUndelegate}
    (h : t.getActionMut id = some (action, put))
    (y : BaseAction) : (put y).getCommittedAccounts = t.getCommittedAccounts := by
  rcases or_eq_some_iff.mp h with h | ⟨-, h⟩
  · obtain ⟨⟨x, putCommit⟩, hx, hput⟩ := map_eq_some_iff.mp h
    obtain ⟨-, rfl⟩ := Prod.mk.inj hput
    exact CommitType.getCommittedAccounts_put hx y
  · obtain ⟨⟨x, putUndelegate⟩, -, hput⟩ := map_eq_some_iff.mp h
    obtain ⟨-, rfl⟩ := Prod.mk.inj hput
    rfl

/-- A changed part with the same accounts. -/
theorem accounts_of_part {getMut : α → Option (β × (β → α))}
    (hput : ∀ {t x put}, getMut t = some (x, put) → ∀ y, accs (put y) = accs t)
    {part : Option α} (h : part.bind getMut = some (x, put)) (y : β) :
    ((some (put y)).map accs).getD [] = (part.map accs).getD [] := by
  obtain ⟨t, rfl, ht⟩ := Option.bind_eq_some_iff.mp h
  exact hput ht y

/-- **Whatever is put in an action's place, the committed accounts stay.** -/
theorem MagicIntentBundle.getAllCommittedAccounts_put {b : MagicIntentBundle}
    {put : BaseAction → MagicIntentBundle} (h : b.getActionMut id = some (action, put))
    (y : BaseAction) : (put y).getAllCommittedAccounts = b.getAllCommittedAccounts := by
  rw [getAllCommittedAccounts_eq, getAllCommittedAccounts_eq]
  rcases or_eq_some_iff.mp h with h | ⟨-, h⟩
  · obtain ⟨⟨x, p⟩, hx, ⟨⟩⟩ := map_eq_some_iff.mp h
    rw [accounts_of_part CommitType.getCommittedAccounts_put hx]
  rcases or_eq_some_iff.mp h with h | ⟨-, h⟩
  · obtain ⟨⟨x, p⟩, hx, ⟨⟩⟩ := map_eq_some_iff.mp h
    rw [accounts_of_part CommitAndUndelegate.getCommittedAccounts_put hx]
  rcases or_eq_some_iff.mp h with h | ⟨-, h⟩
  · obtain ⟨⟨x, p⟩, hx, ⟨⟩⟩ := map_eq_some_iff.mp h
    rfl
  rcases or_eq_some_iff.mp h with h | ⟨-, h⟩
  · obtain ⟨⟨x, p⟩, hx, ⟨⟩⟩ := map_eq_some_iff.mp h
    rw [accounts_of_part CommitType.getCommittedAccounts_put hx]
  · obtain ⟨⟨x, p⟩, hx, ⟨⟩⟩ := map_eq_some_iff.mp h
    rw [accounts_of_part CommitAndUndelegate.getCommittedAccounts_put hx]

end Magicblock
