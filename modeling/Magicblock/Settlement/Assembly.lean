import Magicblock.Settlement.Strategist

/-!
# Settlement/Assembly — from tasks to transactions

`TransactionUtils` turns tasks into instructions and these into a transaction, as version 1 or, with
lookup tables, as version 0.  `TaskStrategist` measures with a placeholder for the authority, which
is known only when the transaction is signed; `TransactionUtils.assembler` is the `Assembler` that
it works with.

The delegation program's builders, the compilation of messages and their wire format are arguments.
What is needed of them is `MessageCompiler.Lawful`: renaming keys never makes a message larger, as
keys that become equal are stored once and all other parts keep their widths.
-/

namespace Magicblock

open List

open List (Forall₂ map_nil mem_map)

/-- Instructions of the delegation program that only settlement uses. -/
structure SettlementBuilder extends InstructionBuilder where
  undelegate : Pubkey → Pubkey → Pubkey → Pubkey → Instruction
  computeDiff : List UInt8 → List UInt8 → List UInt8

/-! ### Instructions -/

namespace CommitFinalizeTask

variable (builder : SettlementBuilder) (task : CommitFinalizeTask) (validator : Pubkey)

def args (dataIsDiff : Bool) : CommitFinalizeArgs where
  commitId := task.commitId
  lamports := task.committedAccount.account.lamports
  dataIsDiff := dataIsDiff
  allowUndelegation := task.allowUndelegation

def commitFinalizeIx (baseAccount : Option Account) : Instruction :=
  let data := task.committedAccount.account.data
  builder.commitFinalize validator task.committedAccount.pubkey (task.args baseAccount.isSome)
    (baseAccount.elim data fun base => builder.computeDiff base.data data)

def commitFinalizeFromBufferIx (baseAccount : Option Account) : Instruction :=
  builder.commitFinalizeFromBuffer validator task.committedAccount.pubkey
    (builder.bufferPda validator task.committedAccount.pubkey task.commitId)
    (task.args baseAccount.isSome)

def instruction : Instruction :=
  match task.delivery with
  | .stateInArgs => task.commitFinalizeIx builder validator none
  | .stateInBuffer => task.commitFinalizeFromBufferIx builder validator none
  | .diffInArgs base => task.commitFinalizeIx builder validator (some base)
  | .diffInBuffer base => task.commitFinalizeFromBufferIx builder validator (some base)

end CommitFinalizeTask

def UndelegateTask.instruction (builder : SettlementBuilder) (task : UndelegateTask)
    (validator : Pubkey) : Instruction :=
  let build :=
    if task.includeUndelegationRequest then builder.undelegateWithRequest else builder.undelegate
  build validator task.delegatedAccount task.ownerProgram task.rentReimbursement

def BaseActionTask.instruction (builder : SettlementBuilder) (task : BaseActionTask)
    (validator : Pubkey) : Instruction :=
  let action := task.action
  let accounts := action.accountMetasPerProgram.map fun m => ⟨m.pubkey, false, m.isWritable⟩
  let args : CallHandlerArgs := ⟨action.dataPerProgram.data, action.dataPerProgram.escrowIndex⟩
  match task with
  | .v1 _ => builder.callHandler validator action.destinationProgram action.escrowAuthority accounts
      args
  | .v2 _ source => builder.callHandlerV2 validator action.destinationProgram source
      action.escrowAuthority accounts args

def Task.instruction (builder : SettlementBuilder) (task : Task) (validator : Pubkey) :
    Instruction :=
  match task with
  | .commitFinalize task => task.instruction builder validator
  | .undelegate task => task.instruction builder validator
  | .baseAction task => task.instruction builder validator

def Instruction.keys (ix : Instruction) : List Pubkey := ix.accounts.map (·.pubkey)

def Task.involvedAccounts (builder : SettlementBuilder) (task : Task) (validator : Pubkey) :
    List Pubkey :=
  (task.instruction builder validator).keys

/-! ### Transactions -/

/-- **What transactions are made with.**  `placeholder` is the key that stands for the authority
while nothing is signed. -/
structure TransactionUtils where
  builder : SettlementBuilder
  compiler : MessageCompiler
  prioritizationFee : ℕ → ℕ → ℕ
  instructionSize : Instruction → ℕ
  placeholder : Pubkey

namespace TransactionUtils

variable (u : TransactionUtils)

def uniquenessNoopInstruction (id : ℕ) : Instruction :=
  ⟨u.compiler.noopProgramId, [], Codec.wordBytes 8 id⟩

def budgetInstructions (computeUnits computeUnitPrice : ℕ) : List Instruction :=
  [u.compiler.setComputeUnitLimit computeUnits, u.compiler.setComputeUnitPrice computeUnitPrice]

/-- The instructions of the tasks, and the no-op that makes them unique. -/
def instructions (authority : Pubkey) (tasks : List Task) (uniquenessNonce : Option ℕ) :
    List Instruction :=
  tasks.map (fun task => task.instruction u.builder authority) ++
    uniquenessNonce.toList.map u.uniquenessNoopInstruction

/-- `VersionedTransaction::try_new`, measured: no other signature than the authority's can be
given. -/
def sign (authority : Pubkey) (instructions : List Instruction) (wireSize : Option ℕ) :
    Except TaskStrategistError ℕ :=
  match wireSize with
  | none => .error .failedToFit
  | some size =>
    if ∀ ix ∈ instructions, ∀ m ∈ ix.accounts, m.isSigner → m.pubkey = authority then .ok size
    else .error .signer

/-- The size of `assemble_tasks_v1_tx_with_uniqueness_nonce`. -/
def assembleTasksV1Tx (authority : Pubkey) (tasks : List Task) (computeUnitPrice : ℕ)
    (uniquenessNonce : Option ℕ) : Except TaskStrategistError ℕ :=
  let units := tasksComputeUnits tasks uniquenessNonce
  let instructions := u.instructions authority tasks uniquenessNonce
  sign authority instructions (u.compiler.v1WireSize authority instructions
    (u.prioritizationFee units computeUnitPrice) units u.compiler.loadedAccountsBytes)

/-- The size of `assemble_tasks_tx_with_uniqueness_nonce`; the data of an instruction has a 16-bit
length. -/
def assembleTasksTx (authority : Pubkey) (tasks : List Task) (computeUnitPrice : ℕ)
    (lookupTables : List (Pubkey × List Pubkey)) (uniquenessNonce : Option ℕ) :
    Except TaskStrategistError ℕ :=
  let instructions := u.instructions authority tasks uniquenessNonce
  if ∃ ix ∈ instructions, 2 ^ 16 - 1 < ix.data.length then .error .failedToFit
  else
    let all := u.budgetInstructions (tasksComputeUnits tasks uniquenessNonce) computeUnitPrice ++
      instructions
    sign authority all (u.compiler.v0WireSize authority all lookupTables)

/-- Every key of the instructions once; the source collects a hash set. -/
def collectLookupTableKeys (authority : Pubkey) (tasks : List Task) (uniquenessNonce : Option ℕ) :
    List Pubkey :=
  let service := u.budgetInstructions (tasksComputeUnits tasks uniquenessNonce) 0 ++
    uniquenessNonce.toList.map u.uniquenessNoopInstruction
  (tasks.flatMap (fun task => task.involvedAccounts u.builder authority) ++
    service.flatMap Instruction.keys).dedup

/-- Tables of 256 keys. -/
def dummyLookupTable (pubkeys : List Pubkey) : List (Pubkey × List Pubkey) :=
  (pubkeys.toChunks 256).zipIdx.map fun (addresses, i) => (Limits.counterKey i, addresses)

/-- **How `TaskStrategist` measures**: signed by the placeholder, at no price. -/
def assembler (validator : Pubkey) : Assembler where
  maxTransactionV1WireSize := u.compiler.maxTransactionSize
  maxTransactionWireSize := u.compiler.packetDataSize
  v1Size tasks nonce := u.assembleTasksV1Tx u.placeholder tasks 0 nonce
  lookupTablesSize tasks nonce := u.assembleTasksTx u.placeholder tasks 0
    (dummyLookupTable (u.collectLookupTableKeys u.placeholder tasks nonce)) nonce
  instructionSize task := u.instructionSize (task.instruction u.builder u.placeholder)
  collectLookupTableKeys := u.collectLookupTableKeys validator

/-- **The size of the transaction of a strategy**, measured with tables of its own keys. -/
def transactionSize (authority : Pubkey) (computeUnitPrice : ℕ) (s : TransactionStrategy) :
    Except TaskStrategistError ℕ :=
  if s.usesAlts then
    u.assembleTasksTx authority s.tasks computeUnitPrice (dummyLookupTable s.lookupTablesKeys)
      s.uniquenessNonce
  else u.assembleTasksV1Tx authority s.tasks computeUnitPrice s.uniquenessNonce

def maxWireSize (s : TransactionStrategy) : ℕ :=
  if s.usesAlts then u.compiler.packetDataSize else u.compiler.maxTransactionSize

end TransactionUtils

/-! ### Renaming keys -/

/-- `ix'` is `ix` with other keys, and data of the same length. -/
structure Instruction.Renamed (σ : Pubkey → Pubkey) (ix ix' : Instruction) : Prop where
  programId : ix'.programId = σ ix.programId
  accounts : ix'.accounts = ix.accounts.map fun m => { m with pubkey := σ m.pubkey }
  data : ix'.data.length = ix.data.length

/-- **What is known of the wire formats.**  Renaming keys, to keys of which none that is a program
pays, never makes a message larger. -/
structure MessageCompiler.Lawful (c : MessageCompiler) : Prop where
  v1_renamed {σ : Pubkey → Pubkey} {payer : Pubkey} {ixs ixs' : List Instruction}
    {fee fee' units loaded size : ℕ} :
    Forall₂ (Instruction.Renamed σ) ixs ixs' → (∀ ix ∈ ixs', ix.programId ≠ σ payer) →
    c.v1WireSize payer ixs fee units loaded = some size →
    ∃ size' ≤ size, c.v1WireSize (σ payer) ixs' fee' units loaded = some size'
  v0_renamed {σ : Pubkey → Pubkey} {payer : Pubkey} {ixs ixs' : List Instruction}
    {keys keys' : List Pubkey} {size : ℕ} :
    Forall₂ (Instruction.Renamed σ) ixs ixs' → (∀ ix ∈ ixs', ix.programId ≠ σ payer) →
    keys.Nodup → keys'.Nodup → (∀ k, k ∈ keys ↔ ∃ ix ∈ ixs, k ∈ ix.keys) →
    (∀ k, k ∈ keys' ↔ ∃ ix ∈ ixs', k ∈ ix.keys) →
    c.v0WireSize payer ixs (TransactionUtils.dummyLookupTable keys) = some size →
    ∃ size' ≤ size,
      c.v0WireSize (σ payer) ixs' (TransactionUtils.dummyLookupTable keys') = some size'
  /-- Limits and prices have a fixed width and need no account. -/
  limit_renamed (units units' : ℕ) :
    Instruction.Renamed id (c.setComputeUnitLimit units) (c.setComputeUnitLimit units')
  price_renamed (price price' : ℕ) :
    Instruction.Renamed id (c.setComputeUnitPrice price) (c.setComputeUnitPrice price')
  limit_accounts (units : ℕ) : (c.setComputeUnitLimit units).accounts = []
  price_accounts (price : ℕ) : (c.setComputeUnitPrice price).accounts = []
  maxTransactionSize_lt : c.maxTransactionSize < 2 ^ 64 - 1
  /-- A transaction without tasks is small. -/
  v1_noTasks (payer : Pubkey) (nonce : Option ℕ) (fee units : ℕ) :
    ∃ size ≤ c.maxTransactionSize, c.v1WireSize payer
      (nonce.toList.map fun id => ⟨c.noopProgramId, [], Codec.wordBytes 8 id⟩) fee units
      c.loadedAccountsBytes = some size

/-! ### The placeholder -/

namespace TransactionUtils

/-- The instruction of a task is, for the authority, that for the placeholder with other keys; it
names an account, and the authority is not the program. -/
structure FreshTask (u : TransactionUtils) (σ : Pubkey → Pubkey) (authority : Pubkey) (t : Task) :
    Prop where
  instruction : Instruction.Renamed σ (t.instruction u.builder u.placeholder)
    (t.instruction u.builder authority)
  programId_ne : (t.instruction u.builder authority).programId ≠ authority
  accounts_ne_nil : (t.instruction u.builder authority).accounts ≠ []

/-- **The placeholder is a fresh key**, so that what is derived from it is fresh, and can be renamed
to what is derived from the authority. -/
structure FreshFor (u : TransactionUtils) (σ : Pubkey → Pubkey) (authority : Pubkey)
    (tasks : List Task) : Prop where
  placeholder : σ u.placeholder = authority
  noop : σ u.compiler.noopProgramId = u.compiler.noopProgramId
  limit : σ (u.compiler.setComputeUnitLimit 0).programId =
    (u.compiler.setComputeUnitLimit 0).programId
  price : σ (u.compiler.setComputeUnitPrice 0).programId =
    (u.compiler.setComputeUnitPrice 0).programId
  noop_ne : u.compiler.noopProgramId ≠ authority
  limit_ne : (u.compiler.setComputeUnitLimit 0).programId ≠ authority
  price_ne : (u.compiler.setComputeUnitPrice 0).programId ≠ authority
  tasks {t t' : Task} : t ∈ tasks → t.Delivers t' → u.FreshTask σ authority t'

variable {u : TransactionUtils} {σ : Pubkey → Pubkey} {auth : Pubkey} {tasks : List Task}

theorem FreshFor.task (h : u.FreshFor σ auth tasks) (ht : t ∈ tasks) :
    u.FreshTask σ auth t :=
  h.tasks ht (.inl rfl)

theorem FreshFor.delivers (h : u.FreshFor σ auth tasks)
    (hdels : Forall₂ Task.Delivers tasks tasks') : u.FreshFor σ auth tasks' := by
  refine { h with tasks := fun {t' t''} ht' hdel => ?_ }
  obtain ⟨i, hi, rfl⟩ := mem_iff_getElem.mp ht'
  have hi' : i < tasks.length := hdels.length_eq ▸ hi
  exact h.tasks (getElem_mem hi') ((Forall₂.get hdels hi' hi).trans hdel)

/-! ### Measured with the placeholder, sent with the authority -/

/-- A transaction is signed if it compiles and asks for no other signature. -/
theorem sign_eq_ok {instructions : List Instruction} {wireSize : Option ℕ} :
    sign auth instructions wireSize = .ok size ↔ wireSize = some size ∧
      ∀ ix ∈ instructions, ∀ m ∈ ix.accounts, m.isSigner → m.pubkey = auth := by
  rcases wireSize with _ | size'
  · simp [sign]
  · rw [sign]
    split_ifs with hsgrs
    · rw [and_iff_left hsgrs, Except.ok.injEq, Option.some.injEq]
    · simp [hsgrs]

theorem signers_renamed (hpay : σ payer = auth) (h : Forall₂ (Instruction.Renamed σ) ixs ixs')
    (hsgrs : ∀ ix ∈ ixs, ∀ m ∈ ix.accounts, m.isSigner → m.pubkey = payer) :
    ∀ ix ∈ ixs', ∀ m ∈ ix.accounts, m.isSigner → m.pubkey = auth := by
  induction h with
  | nil => simp
  | cons hfst _ ih =>
    obtain ⟨hone, hrest⟩ := forall_mem_cons.mp hsgrs
    refine forall_mem_cons.mpr ⟨fun m hm hsign => ?_, ih hrest⟩
    rw [hfst.accounts] at hm
    obtain ⟨old, hold, rfl⟩ := mem_map.mp hm
    rw [hone old hold hsign, hpay]

theorem data_renamed (h : Forall₂ (Instruction.Renamed σ) ixs ixs')
    (hdata : ¬ ∃ ix ∈ ixs, n < ix.data.length) : ¬ ∃ ix ∈ ixs', n < ix.data.length := by
  induction h with
  | nil => exact hdata
  | cons hfst _ ih =>
    simp only [exists_mem_cons_iff, not_or] at hdata ⊢
    exact ⟨hfst.data ▸ hdata.1, ih hdata.2⟩

section Sent

variable (hlaw : u.compiler.Lawful) (hfr : u.FreshFor σ auth tasks)
include hfr

theorem renamed_instructions (nonce : Option ℕ) : Forall₂ (Instruction.Renamed σ)
    (u.instructions u.placeholder tasks nonce) (u.instructions auth tasks nonce) := by
  refine rel_append ?_ ?_
  · rw [forall₂_map_left_iff, forall₂_map_right_iff, forall₂_same]
    exact fun t ht => (hfr.task ht).instruction
  · rw [forall₂_map_left_iff, forall₂_map_right_iff, forall₂_same]
    exact fun id _ => ⟨hfr.noop.symm, rfl, rfl⟩

theorem programId_ne_instructions : ∀ ix ∈ u.instructions auth tasks nonce,
    ix.programId ≠ auth := by
  intro ix hix
  rcases mem_append.mp hix with hix | hix
  · obtain ⟨t, ht, rfl⟩ := mem_map.mp hix
    exact (hfr.task ht).programId_ne
  · obtain ⟨id, -, rfl⟩ := mem_map.mp hix
    exact hfr.noop_ne

include hlaw

theorem renamed_budgetInstructions (units price price' : ℕ) :
    Forall₂ (Instruction.Renamed σ) (u.budgetInstructions units price)
      (u.budgetInstructions units price') := by
  refine .cons ⟨?_, ?_, rfl⟩ (.cons ⟨?_, ?_, (hlaw.price_renamed price price').data⟩ .nil)
  · rw [(hlaw.limit_renamed 0 units).programId, id_eq, hfr.limit]
  · rw [hlaw.limit_accounts, map_nil]
  · rw [(hlaw.price_renamed 0 price).programId, (hlaw.price_renamed 0 price').programId, id_eq,
      hfr.price]
  · rw [hlaw.price_accounts, hlaw.price_accounts, map_nil]

theorem programId_ne_budgetInstructions (units price : ℕ) :
    ∀ ix ∈ u.budgetInstructions units price, ix.programId ≠ auth := by
  refine forall_mem_cons.mpr ⟨?_, forall_mem_singleton.mpr ?_⟩
  · rw [(hlaw.limit_renamed 0 units).programId]
    exact hfr.limit_ne
  · rw [(hlaw.price_renamed 0 price).programId]
    exact hfr.price_ne

/-- **Without tables, the transaction that is sent is not larger than the one measured.** -/
theorem assembleTasksV1Tx_le (h : u.assembleTasksV1Tx u.placeholder tasks 0 nonce = .ok size)
    (price : ℕ) : ∃ size' ≤ size, u.assembleTasksV1Tx auth tasks price nonce = .ok size' := by
  obtain ⟨hsize, hsgrs⟩ := sign_eq_ok.mp h
  have hren := renamed_instructions hfr nonce
  obtain ⟨size', hle, hsize'⟩ := hlaw.v1_renamed hren
    (by rw [hfr.placeholder]; exact programId_ne_instructions hfr) hsize
  rw [hfr.placeholder] at hsize'
  exact ⟨size', hle, sign_eq_ok.mpr ⟨hsize', signers_renamed hfr.placeholder hren hsgrs⟩⟩

omit hfr in
/-- The tables hold the keys of all instructions. -/
theorem mem_collectLookupTableKeys (payer : Pubkey) (price : ℕ) (k : Pubkey) :
    k ∈ u.collectLookupTableKeys payer tasks nonce ↔
      ∃ ix ∈ u.budgetInstructions (tasksComputeUnits tasks nonce) price ++
        u.instructions payer tasks nonce, k ∈ ix.keys := by
  have hlim (units : ℕ) : (u.compiler.setComputeUnitLimit units).keys = [] := by
    rw [Instruction.keys, hlaw.limit_accounts, map_nil]
  have hprice (price : ℕ) : (u.compiler.setComputeUnitPrice price).keys = [] := by
    rw [Instruction.keys, hlaw.price_accounts, map_nil]
  have hnoop (id : ℕ) : (u.uniquenessNoopInstruction id).keys = [] := rfl
  rw [collectLookupTableKeys, mem_dedup]
  simp [budgetInstructions, instructions, Task.involvedAccounts, hlim, hprice, hnoop,
    or_and_right, exists_or]

/-- **With tables too.** -/
theorem assembleTasksTx_le (h : u.assembleTasksTx u.placeholder tasks 0
      (dummyLookupTable (u.collectLookupTableKeys u.placeholder tasks nonce)) nonce = .ok size)
    (price : ℕ) : ∃ size' ≤ size, u.assembleTasksTx auth tasks price
      (dummyLookupTable (u.collectLookupTableKeys auth tasks nonce)) nonce = .ok size' := by
  have hren := renamed_instructions hfr nonce
  simp only [assembleTasksTx] at h ⊢
  split_ifs at h with hdata
  obtain ⟨hsize, hsgrs⟩ := sign_eq_ok.mp h
  have hall := rel_append (renamed_budgetInstructions hlaw hfr
    (tasksComputeUnits tasks nonce) 0 price) hren
  have hprogs : ∀ ix ∈ u.budgetInstructions (tasksComputeUnits tasks nonce) price ++
      u.instructions auth tasks nonce, ix.programId ≠ auth := by
    refine forall_mem_append.mpr ⟨?_, programId_ne_instructions hfr⟩
    exact programId_ne_budgetInstructions hlaw hfr _ _
  obtain ⟨size', hle, hsize'⟩ := hlaw.v0_renamed hall (by rw [hfr.placeholder]; exact hprogs)
    (nodup_dedup _) (nodup_dedup _) (mem_collectLookupTableKeys hlaw u.placeholder 0)
    (mem_collectLookupTableKeys hlaw auth price) hsize
  rw [hfr.placeholder] at hsize'
  rw [if_neg (data_renamed hren hdata)]
  exact ⟨size', hle, sign_eq_ok.mpr ⟨hsize', signers_renamed hfr.placeholder hall hsgrs⟩⟩

end Sent

end TransactionUtils

end Magicblock
