import Magicblock.Program.Schedule

/-!
# Program/Accept — `AcceptScheduledCommits`

The validator moves queued intents into outbox accounts: it passes one outbox PDA for each intent to
accept, and the program pops that many from the front of the queue and creates their accounts.
-/

namespace Magicblock

def validatorAuthorityIdx : ℕ := 0
def outboxProgramIdx : ℕ := 1
def acceptMagicContextIdx : ℕ := 2
def intentPdasOffset : ℕ := 3

def validateAccept (env : ProgramEnv) (ctx : InvokeContext) : Except InstructionError Unit := do
  checkMagicContextId env ctx acceptMagicContextIdx
  let outboxProgramPubkey ← ctx.getInstructionPubkeyWithIdx outboxProgramIdx
  if outboxProgramPubkey ≠ env.outboxIntentProgramId then throw .incorrectProgramId
  let providedValidatorAuth ← ctx.getInstructionPubkeyWithIdx validatorAuthorityIdx
  if providedValidatorAuth ≠ env.authority then throw .invalidArgument
  if env.authority ∉ ctx.signers then throw .missingRequiredSignature

/-- As many intents as PDAs were passed, from the front of the queue. -/
def popScheduledIntents (env : ProgramEnv) (ctx : InvokeContext) :
    Program (List ScheduledIntentBundle) := do
  Exec.ensure (intentPdasOffset ≤ ctx.accounts.length) .missingAccount
  let numAcceptIntents := ctx.accounts.length - intentPdasOffset
  if numAcceptIntents = 0 then pure []
  else do
    let (intents, context) := (← get).context.takeFrontScheduledCommits numAcceptIntents
    Exec.ensure (intents.length = numAcceptIntents) .invalidArgument
    Program.writeContext env context
    pure intents

def verifyIntentPda (env : ProgramEnv) (ctx : InvokeContext) (intentId : IntentID) (pdaIdx : ℕ) :
    Except InstructionError (Pubkey × UInt8) := do
  let provided ← ctx.getInstructionPubkeyWithIdx pdaIdx
  let expected := env.outboxIntentPdaWithBump intentId
  if provided = expected.1 then .ok expected else .error .invalidArgument

/-- The outbox program's side: an empty account at the PDA takes the encoded bundle. -/
def processCreateOutboxIntent (env : ProgramEnv) (pda : Pubkey) (data : List UInt8) :
    Program Unit := do
  Exec.ensure (env.outboxFromBytes data).isSome .invalidInstructionData
  let acc ← Program.borrow pda
  Exec.ensure ((acc.mode = .missing ∨ acc.mode = .magic) ∧ acc.lamports = 0 ∧
    acc.owner = env.systemProgramId ∧ acc.data = []) .invalidAccountData
  Program.update pda fun acc => { acc with owner := env.outboxIntentProgramId, data := data }
  if acc.mode = .magic then pure () else setAccountMode env pda .magic

def createOutboxIntentCpi (env : ProgramEnv) (pda : Pubkey) (outboxAccount : OutboxIntentBundle) :
    Program Unit := do
  let data ← Exec.ofOption (env.outboxToBytes outboxAccount) .invalidAccountData
  processCreateOutboxIntent env pda data

def acceptIntent (env : ProgramEnv) (ctx : InvokeContext) (entry : ScheduledIntentBundle × ℕ) :
    Program Unit := do
  let (pda, bump) ← Exec.ofExcept
    (verifyIntentPda env ctx entry.1.intentId (intentPdasOffset + entry.2))
  createOutboxIntentCpi env pda (OutboxIntentBundle.accepted entry.1 bump)

/-- **`AcceptScheduledCommits`.** -/
def processAcceptScheduledCommits (env : ProgramEnv) (ctx : InvokeContext) : Program Unit := do
  Exec.ofExcept (validateAccept env ctx)
  let intents ← popScheduledIntents env ctx
  intents.zipIdx.forM (acceptIntent env ctx)

end Magicblock
