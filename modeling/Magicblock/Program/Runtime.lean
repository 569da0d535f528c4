import Magicblock.Foundations.Exec
import Magicblock.Intent.Outbox

/-!
# Program/Runtime — what an instruction of the magic program sees

The engine's accounts, the invoke context of one instruction and the queue in `MagicContext`.
An instruction is code over the `Bank`; the runtime keeps its effect only if the whole transaction
succeeds.  Key derivations, encodings and lifecycle rules belong to other crates and are the fields
of `ProgramEnv`.
-/

namespace Magicblock

/-- `solana_instruction::error::InstructionError`; the kinds no code here names are numbered. -/
inductive InstructionError where
  | genericError
  | invalidArgument
  | invalidInstructionData
  | invalidAccountData
  | accountDataTooSmall
  | insufficientFunds
  | incorrectProgramId
  | missingRequiredSignature
  | readonlyDataModified
  | unsupportedProgramId
  | missingAccount
  | unsupportedSysvar
  | illegalOwner
  | arithmeticOverflow
  | immutable
  | incorrectAuthority
  | invalidAccountOwner
  | maxInstructionTraceLengthExceeded
  | custom (code : ℕ)
  | other (kind : ℕ)
  deriving DecidableEq

/-- The modes of `solana_account::AccountMode` that the validator names. -/
inductive AccountMode where
  | missing
  | mirrored
  | delegated
  | undelegating
  | magic
  | closed
  | runtime
  deriving DecidableEq

/-- An account of the engine; `commitSeq` is its 32-bit commit counter. -/
structure AccountSharedData where
  lamports : ℕ
  data : List UInt8
  owner : Pubkey
  executable : Bool
  rentEpoch : ℕ
  mode : AccountMode
  slot : Slot
  commitSeq : ℕ
  deriving DecidableEq

/-- The queue of scheduled intents, with the next intent id, a 64-bit word. -/
structure MagicContext where
  intentId : IntentID := 0
  scheduledBaseIntents : List ScheduledIntentBundle := []
  intentId_lt : intentId < 2 ^ 64 := by decide
  deriving DecidableEq

namespace MagicContext

instance : Inhabited MagicContext := ⟨{}⟩

def nextIntentId (c : MagicContext) : IntentID × MagicContext :=
  (c.intentId,
    { c with
      intentId := (c.intentId + 1) % 2 ^ 64
      intentId_lt := Nat.mod_lt _ (by decide) })

def addScheduledAction (c : MagicContext) (baseIntent : ScheduledIntentBundle) : MagicContext :=
  { c with scheduledBaseIntents := c.scheduledBaseIntents ++ [baseIntent] }

def takeFrontScheduledCommits (c : MagicContext) (n : ℕ) :
    List ScheduledIntentBundle × MagicContext :=
  (c.scheduledBaseIntents.take n, { c with scheduledBaseIntents := c.scheduledBaseIntents.drop n })

end MagicContext

/-- **What the program takes from elsewhere**: addresses, key derivation, encodings, rent, and the
rules of the engine about lifecycles and counters. -/
structure ProgramEnv where
  programId : Pubkey
  authority : Pubkey
  magicContextPubkey : Pubkey
  magicFeeVaultPubkey : Pubkey
  delegationProgramId : Pubkey
  outboxIntentProgramId : Pubkey
  systemProgramId : Pubkey
  tokenProgramId : Pubkey
  token2022ProgramId : Pubkey
  eataProgramId : Pubkey
  callbackSigner : Pubkey
  tryDeriveEataAddressAndBump : Pubkey → Pubkey → Option (Pubkey × UInt8)
  deriveAtaWithTokenProgram : Pubkey → Pubkey → Pubkey → Pubkey
  outboxIntentPdaWithBump : IntentID → Pubkey × UInt8
  minimumBalance : ℕ → ℕ
  isIntentWithinLimits : MagicIntentBundle → Bool
  contextFits : MagicContext → Bool
  acceptsCommitSeq : AccountSharedData → ℕ → Bool
  allowsLifecycle : AccountMode → AccountMode → Bool
  outboxToBytes : OutboxIntentBundle → Option (List UInt8)
  outboxFromBytes : List UInt8 → Option OutboxIntentBundle
  /-- Reading back what was written. -/
  outboxFromBytes_of_toBytes {bundle : OutboxIntentBundle} {data : List UInt8}
    (h : outboxToBytes bundle = some data) : outboxFromBytes data = some bundle
  /-- Without the discriminator nothing is read. -/
  outboxFromBytes_nil : outboxFromBytes [] = none

/-- A commit id and the account whose counter it was taken from. -/
structure Reservation where
  account : Pubkey
  commitId : ℕ
  deriving DecidableEq

/-- **The state the program works on.**  `reserved` is a ghost field: it lists every commit id in
the order of its reservation and is never read by the program. -/
structure Bank where
  accounts : Pubkey → AccountSharedData
  context : MagicContext
  reserved : List Reservation

abbrev Program : Type → Type := Exec Bank InstructionError

structure InstructionAccount where
  pubkey : Pubkey
  isWritable : Bool
  deriving DecidableEq

/-- **One instruction**: its program, its accounts, who signed, and its place in block and call
tree. -/
structure InvokeContext where
  programKey : Pubkey
  accounts : List InstructionAccount
  signers : List Pubkey
  effectiveCaller : Except InstructionError (Option Pubkey)
  clock : Option Slot
  blockhash : Hash

/-! ### Accounts of an instruction -/

namespace InvokeContext

def getInstructionAccountWithIdx (ctx : InvokeContext) (idx : ℕ) :
    Except InstructionError InstructionAccount :=
  (ctx.accounts[idx]?).elim (.error .missingAccount) .ok

def getInstructionPubkeyWithIdx (ctx : InvokeContext) (idx : ℕ) : Except InstructionError Pubkey :=
  (ctx.getInstructionAccountWithIdx idx).map (·.pubkey)

def getClock (ctx : InvokeContext) : Except InstructionError Slot :=
  ctx.clock.elim (.error .unsupportedSysvar) .ok

end InvokeContext

namespace Program

/-- The account as it is now. -/
def borrow (pubkey : Pubkey) : Program AccountSharedData :=
  return (← get).accounts pubkey

def update (pubkey : Pubkey) (f : AccountSharedData → AccountSharedData) : Program Unit :=
  modify fun bank =>
    { bank with accounts := Function.update bank.accounts pubkey (f (bank.accounts pubkey)) }

/-- `context.write_to(..)`. -/
def writeContext (env : ProgramEnv) (context : MagicContext) : Program Unit := do
  Exec.ensure (env.contextFits context) .accountDataTooSmall
  modify fun bank => { bank with context := context }

@[simp] theorem ok_borrow : (borrow pk).Ok b a b' ↔ b.accounts pk = a ∧ b = b' := by
  simp [borrow, and_comm]

@[simp] theorem ok_update : (update pk f).Ok b u b' ↔
      { b with accounts := Function.update b.accounts pk (f (b.accounts pk)) } = b' := by
  simp [update]

@[simp] theorem ok_writeContext : (writeContext env context).Ok b u b' ↔
      env.contextFits context = true ∧ { b with context := context } = b' := by
  simp [writeContext]

end Program

end Magicblock
