import Mathlib.Data.List.ReduceOption
import Mathlib.Tactic

/-!
# Intent/Types — the intents a program schedules for settlement on the base layer

The data of `core/src/intent` and of `magic_scheduled_base_intent.rs`: what is committed
(`CommittedAccount`), what runs on the base layer with it (`BaseAction` and its optional callback),
and the bundle that groups them under one intent id.  Keys, hashes and signatures are the
fixed-width words they are in the source; amounts, slots and identifiers are naturals, and the
places where a counter can overflow say so themselves.
-/

namespace Magicblock

/-- A 32-byte account address. -/
abbrev Pubkey := BitVec 256

instance : LawfulBEq Pubkey := inferInstance

/-- A 32-byte block hash. -/
abbrev Hash := BitVec 256

/-- A 64-byte transaction signature. -/
abbrev Signature := BitVec 512

abbrev Slot := ℕ

/-- The monotonic identifier `MagicContext` assigns to an intent. -/
abbrev IntentID := ℕ

inductive CommitmentLevel where
  | processed
  | confirmed
  | finalized
  deriving DecidableEq

/-- A committed account state (`solana_account::Account`). -/
structure Account where
  lamports : ℕ
  data : List UInt8
  owner : Pubkey
  executable : Bool
  rentEpoch : ℕ
  deriving DecidableEq

/-- One account of a commit; `commitId` was reserved when the intent was scheduled. -/
structure CommittedAccount where
  pubkey : Pubkey
  account : Account
  remoteSlot : Slot
  commitId : ℕ
  deriving DecidableEq

structure ShortAccountMeta where
  pubkey : Pubkey
  isWritable : Bool
  deriving DecidableEq

structure AccountMeta where
  pubkey : Pubkey
  isSigner : Bool
  isWritable : Bool
  deriving DecidableEq

structure ProgramArgs where
  escrowIndex : UInt8
  data : List UInt8
  deriving DecidableEq

/-- A callback that is executed with the result of a `BaseAction`. -/
structure BaseActionCallback where
  destinationProgram : Pubkey
  discriminator : List UInt8
  payload : List UInt8
  computeUnits : ℕ
  accountMetasPerProgram : List ShortAccountMeta
  deriving DecidableEq

/-- A call on the base layer; `id` addresses it within its bundle. -/
structure BaseAction where
  id : ℕ
  computeUnits : ℕ
  destinationProgram : Pubkey
  sourceProgram : Option Pubkey
  escrowAuthority : Pubkey
  dataPerProgram : ProgramArgs
  accountMetasPerProgram : List ShortAccountMeta
  callback : Option BaseActionCallback
  deriving DecidableEq

inductive CommitType where
  /-- Regular commit without actions. -/
  | standalone (committedAccounts : List CommittedAccount)
  /-- Commits accounts and runs actions. -/
  | withBaseActions (committedAccounts : List CommittedAccount) (baseActions : List BaseAction)
  deriving DecidableEq

inductive UndelegateType where
  | standalone
  | withBaseActions (actions : List BaseAction)
  deriving DecidableEq

structure CommitAndUndelegate where
  commitAction : CommitType
  undelegateAction : UndelegateType
  deriving DecidableEq

/-- **Bundle of base intents** — at most one commit of each kind, and actions on their own. -/
structure MagicIntentBundle where
  commit : Option CommitType := none
  commitAndUndelegate : Option CommitAndUndelegate := none
  commitFinalize : Option CommitType := none
  commitFinalizeAndUndelegate : Option CommitAndUndelegate := none
  standaloneActions : List BaseAction := []
  deriving DecidableEq

structure ScheduledIntentBundle where
  intentId : IntentID
  slot : Slot
  blockhash : Hash
  payer : Pubkey
  intentBundle : MagicIntentBundle
  deriving DecidableEq

/-! ### What a bundle commits -/

namespace CommitType

def getCommittedAccounts : CommitType → List CommittedAccount
  | standalone committedAccounts => committedAccounts
  | withBaseActions committedAccounts _ => committedAccounts

def getCommittedPubkeys (t : CommitType) : List Pubkey :=
  t.getCommittedAccounts.map (·.pubkey)

def isEmpty (t : CommitType) : Bool := t.getCommittedAccounts.isEmpty

end CommitType

namespace CommitAndUndelegate

def getCommittedAccounts (t : CommitAndUndelegate) : List CommittedAccount :=
  t.commitAction.getCommittedAccounts

def getCommittedPubkeys (t : CommitAndUndelegate) : List Pubkey :=
  t.commitAction.getCommittedPubkeys

def isEmpty (t : CommitAndUndelegate) : Bool := t.commitAction.isEmpty

end CommitAndUndelegate

namespace MagicIntentBundle

/-- The accounts of the four commit kinds, in the order in which the source lists them. -/
def getAllCommittedAccounts (b : MagicIntentBundle) : List CommittedAccount :=
  [b.commit.map CommitType.getCommittedAccounts,
    b.commitAndUndelegate.map CommitAndUndelegate.getCommittedAccounts,
    b.commitFinalize.map CommitType.getCommittedAccounts,
    b.commitFinalizeAndUndelegate.map
      CommitAndUndelegate.getCommittedAccounts].reduceOption.flatten

/-- The committed accounts of a bundle, part by part. -/
theorem getAllCommittedAccounts_eq (b : MagicIntentBundle) :
    b.getAllCommittedAccounts = (b.commit.map CommitType.getCommittedAccounts).getD [] ++
      (b.commitAndUndelegate.map CommitAndUndelegate.getCommittedAccounts).getD [] ++
      (b.commitFinalize.map CommitType.getCommittedAccounts).getD [] ++
      (b.commitFinalizeAndUndelegate.map CommitAndUndelegate.getCommittedAccounts).getD [] := by
  obtain ⟨commit, commitAndUndelegate, commitFinalize, commitFinalizeAndUndelegate, -⟩ := b
  cases commit <;> cases commitAndUndelegate <;> cases commitFinalize <;>
    cases commitFinalizeAndUndelegate <;> simp [getAllCommittedAccounts]

def getAllCommittedPubkeys (b : MagicIntentBundle) : List Pubkey :=
  [b.commit.map CommitType.getCommittedPubkeys,
    b.commitAndUndelegate.map CommitAndUndelegate.getCommittedPubkeys,
    b.commitFinalize.map CommitType.getCommittedPubkeys,
    b.commitFinalizeAndUndelegate.map
      CommitAndUndelegate.getCommittedPubkeys].reduceOption.flatten

theorem getAllCommittedPubkeys_eq (b : MagicIntentBundle) :
    b.getAllCommittedPubkeys = b.getAllCommittedAccounts.map (·.pubkey) := by
  obtain ⟨commit, commitAndUndelegate, commitFinalize, commitFinalizeAndUndelegate, -⟩ := b
  cases commit <;> cases commitAndUndelegate <;> cases commitFinalize <;>
    cases commitFinalizeAndUndelegate <;>
      simp [getAllCommittedPubkeys, getAllCommittedAccounts, CommitType.getCommittedPubkeys,
        CommitAndUndelegate.getCommittedPubkeys, CommitAndUndelegate.getCommittedAccounts]

def isEmpty (b : MagicIntentBundle) : Bool :=
  (b.commit.map CommitType.isEmpty).getD true
    && (b.commitAndUndelegate.map CommitAndUndelegate.isEmpty).getD true
    && (b.commitFinalize.map CommitType.isEmpty).getD true
    && (b.commitFinalizeAndUndelegate.map CommitAndUndelegate.isEmpty).getD true
    && b.standaloneActions.isEmpty

end MagicIntentBundle

namespace ScheduledIntentBundle

def getAllCommittedPubkeys (b : ScheduledIntentBundle) : List Pubkey :=
  b.intentBundle.getAllCommittedPubkeys

end ScheduledIntentBundle

end Magicblock
