import Magicblock.Foundations.Codec
import Magicblock.Intent.Outbox

/-!
# Intent/Wire — intents and outbox records as bytes

`wincode` writes the fields of a record one after the other, an enum as a tag of fixed width and the
fields of its variant, a vector as its length and its elements.  On top of it the layout of an
outbox account: a discriminator, the record, and zeros up to the size the record can grow to.
-/

namespace Magicblock

/-- The widths `wincode` is set up with. -/
structure Wincode where
  tagWidth : ℕ+
  optionTagWidth : ℕ+
  lengthWidth : ℕ

namespace Wincode

instance : Inhabited Wincode := ⟨4, 1, 8⟩

open Codec

variable (w : Wincode)

/-! ### Intents -/

def pubkey : Codec Pubkey := bits 32

def hash : Codec Hash := bits 32

def signature : Codec Signature := bits 64

def u32 : Codec ℕ := word 4

def u64 : Codec ℕ := word 8

/-- Bytes, after their length. -/
def blob : Codec (List UInt8) := list w.lengthWidth byte

def account : Codec Account :=
  (u64.pair <| w.blob.pair <| pubkey.pair <| bool.pair u64).record
    (fun a => (a.lamports, a.data, a.owner, a.executable, a.rentEpoch))
    (fun a => ⟨a.1, a.2.1, a.2.2.1, a.2.2.2.1, a.2.2.2.2⟩) fun _ => rfl

def committedAccount : Codec CommittedAccount :=
  (pubkey.pair <| w.account.pair <| u64.pair u64).record
    (fun a => (a.pubkey, a.account, a.remoteSlot, a.commitId))
    (fun a => ⟨a.1, a.2.1, a.2.2.1, a.2.2.2⟩) fun _ => rfl

def shortAccountMeta : Codec ShortAccountMeta :=
  (pubkey.pair bool).record (fun a => (a.pubkey, a.isWritable)) (fun a => ⟨a.1, a.2⟩) fun _ => rfl

def programArgs : Codec ProgramArgs :=
  (byte.pair w.blob).record (fun a => (a.escrowIndex, a.data)) (fun a => ⟨a.1, a.2⟩) fun _ => rfl

def baseActionCallback : Codec BaseActionCallback :=
  (pubkey.pair <| w.blob.pair <| w.blob.pair <| u32.pair
      (list w.lengthWidth shortAccountMeta)).record
    (fun a => (a.destinationProgram, a.discriminator, a.payload, a.computeUnits,
      a.accountMetasPerProgram))
    (fun a => ⟨a.1, a.2.1, a.2.2.1, a.2.2.2.1, a.2.2.2.2⟩) fun _ => rfl

def baseAction : Codec BaseAction :=
  (u64.pair <| u32.pair <| pubkey.pair <| (option w.optionTagWidth pubkey).pair <| pubkey.pair <|
      w.programArgs.pair <| (list w.lengthWidth shortAccountMeta).pair
        (option w.optionTagWidth w.baseActionCallback)).record
    (fun a => (a.id, a.computeUnits, a.destinationProgram, a.sourceProgram, a.escrowAuthority,
      a.dataPerProgram, a.accountMetasPerProgram, a.callback))
    (fun a => ⟨a.1, a.2.1, a.2.2.1, a.2.2.2.1, a.2.2.2.2.1, a.2.2.2.2.2.1, a.2.2.2.2.2.2.1,
      a.2.2.2.2.2.2.2⟩) fun _ => rfl

/-- The tag, then the accounts and the actions if there are any. -/
def commitType : Codec CommitType :=
  (either w.tagWidth (list w.lengthWidth w.committedAccount)
      ((list w.lengthWidth w.committedAccount).pair (list w.lengthWidth w.baseAction))).record
    (fun
      | .standalone accounts => .inl accounts
      | .withBaseActions accounts actions => .inr (accounts, actions))
    (Sum.elim .standalone fun a => .withBaseActions a.1 a.2) fun t => by cases t <;> rfl

/-- The tag, then the actions if there are any. -/
def undelegateType : Codec UndelegateType :=
  (either w.tagWidth empty (list w.lengthWidth w.baseAction)).record
    (fun
      | .standalone => .inl ()
      | .withBaseActions actions => .inr actions)
    (Sum.elim (fun _ => .standalone) .withBaseActions) fun t => by cases t <;> rfl

def commitAndUndelegate : Codec CommitAndUndelegate :=
  (w.commitType.pair w.undelegateType).record (fun a => (a.commitAction, a.undelegateAction))
    (fun a => ⟨a.1, a.2⟩) fun _ => rfl

def magicIntentBundle : Codec MagicIntentBundle :=
  ((option w.optionTagWidth w.commitType).pair <|
      (option w.optionTagWidth w.commitAndUndelegate).pair <|
      (option w.optionTagWidth w.commitType).pair <|
      (option w.optionTagWidth w.commitAndUndelegate).pair (list w.lengthWidth w.baseAction)).record
    (fun a => (a.commit, a.commitAndUndelegate, a.commitFinalize, a.commitFinalizeAndUndelegate,
      a.standaloneActions))
    (fun a => ⟨a.1, a.2.1, a.2.2.1, a.2.2.2.1, a.2.2.2.2⟩) fun _ => rfl

def scheduledIntentBundle : Codec ScheduledIntentBundle :=
  (u64.pair <| u64.pair <| hash.pair <| pubkey.pair w.magicIntentBundle).record
    (fun a => (a.intentId, a.slot, a.blockhash, a.payer, a.intentBundle))
    (fun a => ⟨a.1, a.2.1, a.2.2.1, a.2.2.2.1, a.2.2.2.2⟩) fun _ => rfl

/-! ### Outbox records -/

def pendingTransaction : Codec PendingTransaction :=
  (signature.pair hash).record (fun a => (a.signature, a.blockhash)) (fun a => ⟨a.1, a.2⟩)
    fun _ => rfl

/-- The commit is stored with the finalize that follows it. -/
def twoStageProgress : Codec TwoStageProgress :=
  (either w.tagWidth pendingTransaction (signature.pair pendingTransaction)).record
    (fun
      | .committing pending => .inl pending
      | .finalizing commit finalize => .inr (commit, finalize))
    (Sum.elim .committing fun a => .finalizing a.1 a.2) fun t => by cases t <;> rfl

def executionStage : Codec ExecutionStage :=
  (either w.tagWidth pendingTransaction w.twoStageProgress).record
    (fun
      | .singleStage pending => .inl pending
      | .twoStage progress => .inr progress)
    (Sum.elim .singleStage .twoStage) fun t => by cases t <;> rfl

def outboxIntentBundleStatus : Codec OutboxIntentBundleStatus :=
  (either w.tagWidth empty w.executionStage).record
    (fun
      | .accepted => .inl ()
      | .executing stage => .inr stage)
    (Sum.elim (fun _ => .accepted) .executing) fun t => by cases t <;> rfl

/-- A nonce for each account. -/
def commitNonces : Codec (List (Pubkey × ℕ)) := list w.lengthWidth (pubkey.pair u64)

def outboxIntentBundle : Codec OutboxIntentBundle :=
  (w.scheduledIntentBundle.pair <| w.outboxIntentBundleStatus.pair <| w.commitNonces.pair
      byte).record
    (fun a => (a.inner, a.status, a.recoveryCommitNonces, a.bump))
    (fun a => ⟨a.1, a.2.1, a.2.2.1, a.2.2.2⟩) fun _ => rfl

/-! ### Outbox accounts -/

/-- `b"obintent"`. -/
def outboxIntentDiscriminator : List UInt8 := [111, 98, 105, 110, 116, 101, 110, 116]

/-- The largest status. -/
def maxSizeVariant : OutboxIntentBundleStatus :=
  .executing (.twoStage (.finalizing 0 ⟨0, 0⟩))

/-- The room a record may need: its intent, the largest status, a nonce for every committed
account, and the bump. -/
def maxBodySize (bundle : OutboxIntentBundle) : Option ℕ := do
  let inner ← w.scheduledIntentBundle.serializedSize bundle.inner
  let status ← w.outboxIntentBundleStatus.serializedSize maxSizeVariant
  let nonces ← w.commitNonces.serializedSize
    (List.replicate bundle.getAllCommittedPubkeys.length (0, 0))
  let bump ← byte.serializedSize bundle.bump
  return inner + status + nonces + bump

/-- **`try_to_bytes`**: a buffer of the largest size, with the record at its beginning. -/
def tryToBytes (bundle : OutboxIntentBundle) : Option (List UInt8) := do
  let size ← w.maxBodySize bundle
  let body ← w.outboxIntentBundle.serialize bundle
  if body.length ≤ size then
    some (outboxIntentDiscriminator ++ (body ++ List.replicate (size - body.length) 0))
  else none

/-- **`try_from_bytes`**: what comes after the record is not looked at. -/
def tryFromBytes (data : List UInt8) : Option OutboxIntentBundle :=
  if outboxIntentDiscriminator <+: data then
    (w.outboxIntentBundle.decode (data.drop outboxIntentDiscriminator.length)).map Prod.fst
  else none

variable {w}

/-- What was written has room, and is at the beginning. -/
theorem tryToBytes_eq_some : w.tryToBytes bundle = some data ↔
    ∃ size, w.maxBodySize bundle = some size ∧ w.outboxIntentBundle.valid bundle ∧
      (w.outboxIntentBundle.encode bundle).length ≤ size ∧
      outboxIntentDiscriminator ++ (w.outboxIntentBundle.encode bundle ++
        List.replicate (size - (w.outboxIntentBundle.encode bundle).length) 0) = data := by
  constructor
  · intro h
    obtain ⟨size, hsize, h⟩ := Option.bind_eq_some_iff.mp h
    obtain ⟨body, hbody, h⟩ := Option.bind_eq_some_iff.mp h
    obtain ⟨hval, rfl⟩ := serialize_eq_some.mp hbody
    split_ifs at h with hfits
    exact ⟨size, hsize, hval, hfits, Option.some.inj h⟩
  · rintro ⟨size, hsize, hval, hfits, rfl⟩
    rw [tryToBytes, hsize]
    simp [serialize, hval, hfits]

/-- The account is as large as the record can get. -/
theorem length_of_tryToBytes (hsize : w.maxBodySize bundle = some size)
    (h : w.tryToBytes bundle = some data) :
    data.length = outboxIntentDiscriminator.length + size := by
  obtain ⟨size', hsize', -, hfits, rfl⟩ := tryToBytes_eq_some.mp h
  cases hsize.symm.trans hsize'
  simp only [List.length_append, List.length_replicate]
  omega

/-- **What is written is read back.** -/
theorem tryFromBytes_of_tryToBytes (h : w.tryToBytes bundle = some data) :
    w.tryFromBytes data = some bundle := by
  obtain ⟨size, -, hval, -, rfl⟩ := tryToBytes_eq_some.mp h
  rw [tryFromBytes, if_pos (List.prefix_append ..), List.drop_left,
    w.outboxIntentBundle.decode_encode _ hval]
  rfl

/-! ### Sizes -/

variable (w)

/-- Each nonce takes 40 bytes. -/
theorem length_encode_commitNonces (nonces : List (Pubkey × ℕ)) :
    (w.commitNonces.encode nonces).length = w.lengthWidth + nonces.length * 40 :=
  length_encode_list fun nonce _ => by
    rw [length_encode_pair, pubkey, length_encode_bits, u64, length_encode_word]

theorem length_encode_pendingTransaction : (pendingTransaction.encode pending).length = 96 := by
  rw [pendingTransaction, encode_record, length_encode_pair, signature, length_encode_bits, hash,
    length_encode_bits]

/-- A finalize with its commit is the largest progress… -/
theorem length_encode_twoStageProgress (progress : TwoStageProgress) :
    (w.twoStageProgress.encode progress).length ≤ w.tagWidth + 160 := by
  rw [twoStageProgress, encode_record]
  cases progress with
  | committing pending =>
    rw [length_encode_inl, length_encode_pendingTransaction]
    omega
  | finalizing commit finalize =>
    rw [length_encode_inr, length_encode_pair, signature, length_encode_bits,
      length_encode_pendingTransaction]

/-- …and stage. -/
theorem length_encode_executionStage (stage : ExecutionStage) :
    (w.executionStage.encode stage).length ≤ 2 * w.tagWidth + 160 := by
  rw [executionStage, encode_record]
  cases stage with
  | singleStage pending =>
    rw [length_encode_inl, length_encode_pendingTransaction]
    omega
  | twoStage progress =>
    have hprog := w.length_encode_twoStageProgress progress
    rw [length_encode_inr]
    omega

/-- No status is larger than the largest. -/
theorem length_encode_status_le (status : OutboxIntentBundleStatus) :
    (w.outboxIntentBundleStatus.encode status).length ≤
      (w.outboxIntentBundleStatus.encode maxSizeVariant).length := by
  have hmax : (w.outboxIntentBundleStatus.encode maxSizeVariant).length = 3 * w.tagWidth + 160 := by
    rw [outboxIntentBundleStatus, encode_record, maxSizeVariant, length_encode_inr, executionStage,
      encode_record, length_encode_inr, twoStageProgress, encode_record, length_encode_inr,
      length_encode_pair, signature, length_encode_bits, length_encode_pendingTransaction]
    ring
  rw [hmax, outboxIntentBundleStatus, encode_record]
  cases status with
  | accepted =>
    rw [length_encode_inl]
    change (w.tagWidth : ℕ) + 0 ≤ _
    omega
  | executing stage =>
    have hstg := w.length_encode_executionStage stage
    rw [length_encode_inr]
    omega

end Wincode

end Magicblock
