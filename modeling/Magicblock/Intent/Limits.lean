import Magicblock.Foundations.Fresh
import Magicblock.Foundations.Saturating
import Magicblock.Intent.Wire

/-!
# Intent/Limits — does an intent fit into its settlement transactions?

Scheduling rejects intents that are too large to be settled.  It lays out the two transactions the
settlement may use, with an instruction for each commit, action and undelegation, and checks their
compute units and their size.  The delegation program's builders and the compilation of messages are
arguments.
-/

namespace Magicblock

structure Instruction where
  programId : Pubkey
  accounts : List AccountMeta
  data : List UInt8
  deriving DecidableEq

/-- The arguments of a commit; bumps and padding have their defaults. -/
structure CommitFinalizeArgs where
  commitId : ℕ
  lamports : ℕ
  dataIsDiff : Bool
  allowUndelegation : Bool
  deriving DecidableEq

structure CallHandlerArgs where
  data : List UInt8
  escrowIndex : UInt8
  deriving DecidableEq

/-- **Instructions of the delegation program**, and the address of a buffer. -/
structure InstructionBuilder where
  commitFinalize : Pubkey → Pubkey → CommitFinalizeArgs → List UInt8 → Instruction
  commitFinalizeFromBuffer : Pubkey → Pubkey → Pubkey → CommitFinalizeArgs → Instruction
  undelegateWithRequest : Pubkey → Pubkey → Pubkey → Pubkey → Instruction
  callHandlerV2 : Pubkey → Pubkey → Pubkey → Pubkey → List AccountMeta → CallHandlerArgs →
    Instruction
  callHandler : Pubkey → Pubkey → Pubkey → List AccountMeta → CallHandlerArgs → Instruction
  bufferPda : Pubkey → Pubkey → ℕ → Pubkey

/-- **Compiling and measuring messages**: the wire size as version 1, if the message is valid, and
as version 0 with lookup tables. -/
structure MessageCompiler where
  loadedAccountsBytes : ℕ
  maxTransactionSize : ℕ
  packetDataSize : ℕ
  noopProgramId : Pubkey
  setComputeUnitLimit : ℕ → Instruction
  setComputeUnitPrice : ℕ → Instruction
  /-- Payer, instructions, priority fee, compute units, size of the loaded accounts. -/
  v1WireSize : Pubkey → List Instruction → ℕ → ℕ → ℕ → Option ℕ
  v0WireSize : Pubkey → List Instruction → List (Pubkey × List Pubkey) → Option ℕ

/-- Above this size execution may use a difference; scheduling assumes a buffer. -/
def commitStateSizeThreshold : ℕ := 256

namespace Limits

def taskCu : ℕ := 120000

/-- Instructions with their compute units. -/
abbrev EstimatedTransaction := List (Instruction × ℕ)

/-! ### The two transactions -/

section Estimate

variable (builder : InstructionBuilder) (auth : Pubkey)

def commitInstruction (account : CommittedAccount) : Instruction :=
  let args : CommitFinalizeArgs :=
    { commitId := account.commitId
      lamports := account.account.lamports
      dataIsDiff := false
      allowUndelegation := false }
  if commitStateSizeThreshold < account.account.data.length then
    builder.commitFinalizeFromBuffer auth account.pubkey
      (builder.bufferPda auth account.pubkey account.commitId) args
  else builder.commitFinalize auth account.pubkey args account.account.data

def action (a : BaseAction) : Instruction × ℕ :=
  let accounts := a.accountMetasPerProgram.map fun m => ⟨m.pubkey, false, m.isWritable⟩
  let args : CallHandlerArgs := ⟨a.dataPerProgram.data, a.dataPerProgram.escrowIndex⟩
  (match a.sourceProgram with
    | some source => builder.callHandlerV2 auth a.destinationProgram source a.escrowAuthority
      accounts args
    | none => builder.callHandler auth a.destinationProgram a.escrowAuthority accounts args,
    a.computeUnits)

def undelegation (account : CommittedAccount) (payer : Pubkey) : Instruction :=
  builder.undelegateWithRequest auth account.pubkey account.account.owner payer

/-- The transactions so far, and where in the second the undelegations are. -/
structure Estimate where
  commits : EstimatedTransaction
  followUp : EstimatedTransaction := []
  undelegations : List (ℕ × CommittedAccount) := []

/-- One kind of commit of a bundle: its accounts, what is undelegated with it, and whether its
actions run with the commits. -/
structure Part where
  commit : Option CommitType
  undelegate : Option UndelegateType
  combined : Bool

def parts (intent : MagicIntentBundle) : List Part :=
  [⟨intent.commit, none, false⟩,
    ⟨intent.commitFinalize, none, true⟩,
    ⟨intent.commitAndUndelegate.map (·.commitAction),
      intent.commitAndUndelegate.map (·.undelegateAction), false⟩,
    ⟨intent.commitFinalizeAndUndelegate.map (·.commitAction),
      intent.commitFinalizeAndUndelegate.map (·.undelegateAction), true⟩]

namespace Estimate

def addCommits (accounts : List CommittedAccount) (e : Estimate) : Estimate :=
  { e with commits := e.commits ++
    accounts.map fun account => (commitInstruction builder auth account, taskCu) }

def addActions (combined : Bool) (actions : List BaseAction) (e : Estimate) : Estimate :=
  if combined then { e with commits := e.commits ++ actions.map (action builder auth) }
  else { e with followUp := e.followUp ++ actions.map (action builder auth) }

/-- The rent payer is not known yet. -/
def addUndelegation (e : Estimate) (account : CommittedAccount) : Estimate :=
  { e with
    undelegations := e.undelegations ++ [(e.followUp.length, account)]
    followUp := e.followUp ++ [(undelegation builder auth account 0, taskCu)] }

def addUndelegate (accounts : List CommittedAccount) (undelegate : UndelegateType)
    (e : Estimate) : Estimate :=
  let e := accounts.foldl (addUndelegation builder auth) e
  match undelegate with
  | .standalone => e
  | .withBaseActions actions => e.addActions builder auth false actions

def addPart (e : Estimate) (part : Part) : Estimate :=
  match part.commit with
  | none => e
  | some commit =>
    let e := e.addCommits builder auth commit.getCommittedAccounts
    let e := match commit with
      | .withBaseActions _ baseActions => e.addActions builder auth part.combined baseActions
      | .standalone _ => e
    match part.undelegate with
    | some undelegate => e.addUndelegate builder auth commit.getCommittedAccounts undelegate
    | none => e

/-- Every key an instruction names. -/
def keys (e : Estimate) : List Pubkey :=
  (e.commits ++ e.followUp).flatMap fun entry =>
    entry.1.programId :: entry.1.accounts.map (·.pubkey)

end Estimate

/-! ### Rent payers -/

/-- The key whose first bytes are a counter. -/
def counterKey (counter : ℕ) : Pubkey := BitVec.ofNat 256 counter

/-- Each undelegation gets a payer of its own. -/
def assignPayers : List Pubkey → ℕ → List (ℕ × CommittedAccount) → EstimatedTransaction →
    EstimatedTransaction
  | _, _, [], followUp => followUp
  | used, counter, (index, account) :: rest, followUp =>
    let counter := Fresh.next counterKey used counter
    let payer := counterKey counter
    assignPayers (payer :: used) (counter + 1) rest
      (followUp.modify index fun entry => (undelegation builder auth account payer, entry.2))

def estimate (intent : MagicIntentBundle) : EstimatedTransaction × EstimatedTransaction :=
  let e := (parts intent).foldl (Estimate.addPart builder auth)
    { commits := intent.standaloneActions.map (action builder auth) }
  (e.commits, assignPayers builder auth (auth :: e.keys) 0 e.undelegations e.followUp)

end Estimate

/-! ### Do they fit? -/

section Fits

variable (compiler : MessageCompiler) (auth : Pubkey)

def maxComputeUnits : ℕ := 1400000

/-- A 32-bit sum that saturates, with the no-op that makes the transaction unique. -/
def computeUnits (tasks : EstimatedTransaction) : ℕ :=
  tasks.foldl (fun total entry => min (total + entry.2) (2 ^ 32 - 1)) 1000

theorem computeUnits_eq (tasks : EstimatedTransaction) :
    computeUnits tasks = saturatingSum (2 ^ 32 - 1) 1000 (tasks.map Prod.snd) := by
  rw [saturatingSum, List.foldl_map]
  rfl

/-- All keys in lookup tables of 256, in their order. -/
def lookupTables (instructions : List Instruction) : List (Pubkey × List Pubkey) :=
  let keys := (instructions.flatMap fun ix => ix.accounts.map (·.pubkey)).dedup.mergeSort
    fun a b => decide (Wincode.pubkey.encode a ≤ Wincode.pubkey.encode b)
  (keys.toChunks 256).zipIdx.map fun (addresses, i) => (counterKey i, addresses)

def fits (tasks : EstimatedTransaction) : Bool :=
  let units := computeUnits tasks
  let noop : Instruction := ⟨compiler.noopProgramId, [], Codec.wordBytes 8 0⟩
  let instructions := tasks.map (·.1) ++ [noop]
  let withBudget :=
    compiler.setComputeUnitLimit units :: compiler.setComputeUnitPrice 0 :: instructions
  decide (units ≤ maxComputeUnits) &&
  !instructions.any (fun ix => decide (2 ^ 16 - 1 < ix.data.length)) &&
  ((compiler.v1WireSize auth instructions 0 units compiler.loadedAccountsBytes).any
      (fun size => decide (size ≤ compiler.maxTransactionSize)) ||
    (compiler.v0WireSize auth withBudget (lookupTables withBudget)).any
      fun size => decide (size ≤ compiler.packetDataSize))

/-- **`is_intent_within_limits`**: both transactions fit. -/
def isIntentWithinLimits (builder : InstructionBuilder) (intent : MagicIntentBundle) : Bool :=
  let (commits, followUp) := estimate builder auth intent
  fits compiler auth commits && fits compiler auth followUp

variable {compiler auth}

/-- An intent within limits has the compute units for both of its transactions. -/
theorem computeUnits_le (h : isIntentWithinLimits compiler auth builder intent) :
    computeUnits (estimate builder auth intent).1 ≤ maxComputeUnits ∧
      computeUnits (estimate builder auth intent).2 ≤ maxComputeUnits := by
  simp only [isIntentWithinLimits, fits, Bool.and_eq_true, decide_eq_true_eq] at h
  exact ⟨h.1.1.1, h.2.1.1⟩

end Fits

end Limits

end Magicblock
