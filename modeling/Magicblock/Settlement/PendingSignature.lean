import Magicblock.Foundations.Chain
import Magicblock.Settlement.Errors

/-!
# Settlement/PendingSignature — is a sent transaction dead?

`check_pending_signature` and `resolve_pending_signature` of `execution/transaction/utils.rs`, over
the base chain of `Foundations/Chain`.  A check makes two RPC reads, and the chain may grow between
them: the blockhash is judged on the confirmed prefix, the signature on the finalized one.

`Rejected` is safe for a transaction that failed and for one that never landed.  It is not for one
that landed shortly before its blockhash expired and is still to be finalized.
-/

namespace Magicblock

open List

/-! ### The two reads -/

/-- `solana_transaction_status_client_types::TransactionStatus`, as far as it is read. -/
structure TransactionStatus where
  err : Option TransactionError
  confirmationStatus : CommitmentLevel
  deriving DecidableEq

namespace TransactionStatus

/-- The SDK's method, for statuses without `confirmations` exactly if they are finalized. -/
def satisfiesCommitment (status : TransactionStatus) : CommitmentLevel → Bool
  | .finalized => status.confirmationStatus = .finalized
  | .confirmed => status.confirmationStatus ≠ .processed
  | .processed => true

/-- `status.err.map_or(Ok(()), Err)`. -/
def outcome (status : TransactionStatus) : Except TransactionError Unit :=
  status.err.elim (.ok ()) .error

end TransactionStatus

/-- What the client makes of the answer to `getSignatureStatuses`. -/
def getSignatureStatusesWithHistoryAtCommitment (commitmentConfig : CommitmentLevel)
    (value : List (Option TransactionStatus)) : List (Option (Except TransactionError Unit)) :=
  value.map fun status => status.bind fun status =>
    if status.satisfiesCommitment commitmentConfig then some status.outcome else none

/-! ### One check, and the waiting loop -/

inductive PendingSignatureStatus where
  | succeeded
  | rejected
  | pending
  | anomalous
  deriving DecidableEq

/-- **One check**, given the two answers; the blockhash is asked for first. -/
def checkPendingSignature (isBlockhashValid : Except MagicBlockRpcClientError Bool)
    (statusesWithHistory : Except MagicBlockRpcClientError (List (Option TransactionStatus))) :
    Except IntentExecutorError PendingSignatureStatus := do
  let blockhashStillValid ← isBlockhashValid.mapError .getPendingSignatureStatusError
  let statuses ← (statusesWithHistory.map
    (getSignatureStatusesWithHistoryAtCommitment .finalized)).mapError
      .getPendingSignatureStatusError
  match statuses.head? with
  | some (some (.ok ())) => return .succeeded
  | some (some (.error _)) => return .rejected
  | some none => return if blockhashStillValid then .pending else .rejected
  | none => return .anomalous

def maxConsecutiveAnomalies : ℕ := 5

/-- The loop of `resolve_pending_signature`, one turn for each check; `none` while it waits. -/
def resolveLoop (signature : Signature) (consecutiveAnomalies : ℕ) :
    List (Except IntentExecutorError PendingSignatureStatus) →
      Option (Except IntentExecutorError Bool)
  | [] => none
  | .error err :: _ => some (.error err)
  | .ok .succeeded :: _ => some (.ok true)
  | .ok .rejected :: _ => some (.ok false)
  | .ok .pending :: rest => resolveLoop signature 0 rest
  | .ok .anomalous :: rest =>
    if maxConsecutiveAnomalies ≤ consecutiveAnomalies + 1 then
      some (.error (.pendingSignatureResolutionError signature))
    else resolveLoop signature (consecutiveAnomalies + 1) rest

/-- **Waits until a pending signature resolves**: `true` if it landed, `false` if it is dead. -/
def resolvePendingSignature (pending : PendingTransaction)
    (checks : List (Except IntentExecutorError PendingSignatureStatus)) :
    Option (Except IntentExecutorError Bool) :=
  resolveLoop pending.signature 0 checks

/-- A loop that still waits passes the next check on. -/
theorem resolveLoop_concat (hwait : resolveLoop sig n checks = none) :
    resolveLoop sig n (checks ++ [check]) = some (.ok false) ↔ check = .ok .rejected := by
  fun_induction resolveLoop sig n checks with
  | case1 n =>
    rcases check with err | (_ | _ | _ | _)
    all_goals simp [resolveLoop]
  | case5 n rest ih => simpa [resolveLoop] using ih hwait
  | case7 n rest hlt ih => simpa [resolveLoop, hlt] using ih hwait
  | _ => cases hwait

/-! ### Truthful answers -/

/-- The base layer at some moment; `hashOf` is the blockhash in the message a signature signs. -/
abbrev BaseLayer (age : ℕ) (hashOf : Signature → Hash) : Type :=
  Moment (η := Hash) age hashOf TransactionError

namespace BaseLayer

variable {age : ℕ} {hashOf : Signature → Hash}

/-- `isBlockhashValid` at the commitment of the client, which is `confirmed`. -/
def isBlockhashValid (m : BaseLayer age hashOf) (blockhash : Hash) : Bool :=
  blockhash ∈ recentHashes age m.confirmedBlocks

/-- How settled block `p` is. -/
def levelAt (m : BaseLayer age hashOf) (p : ℕ) : CommitmentLevel :=
  if p < m.finalized then .finalized else if p < m.confirmed then .confirmed else .processed

/-- The entry of `getSignatureStatuses` with history: the transaction wherever it landed. -/
def signatureStatus (m : BaseLayer age hashOf) (signature : Signature) : Option TransactionStatus :=
  m.blocks.zipIdx.findSome? fun (b, p) =>
    (b.landed.find? fun t => t.id = signature).map fun t =>
      { err := match t.outcome with
          | .ok () => none
          | .error err => some err
        confirmationStatus := m.levelAt p }

variable {m : BaseLayer age hashOf}

theorem levelAt_eq_finalized : m.levelAt p = .finalized ↔ p < m.finalized := by
  unfold levelAt
  split_ifs with h₁ h₂ <;> simp [h₁]

/-- A status tells of a transaction in the chain. -/
theorem landed_of_signatureStatus (h : m.signatureStatus sig = some status) :
    ∃ p b, m.blocks[p]? = some b ∧ status.confirmationStatus = m.levelAt p ∧
      ∃ t ∈ b.landed, t.id = sig ∧ t.outcome = status.outcome := by
  obtain ⟨⟨b, p⟩, hbp, hfind⟩ := exists_of_findSome?_eq_some h
  obtain ⟨t, ht, rfl⟩ := Option.map_eq_some_iff.mp hfind
  have hid : decide (t.id = sig) = true := by simpa using find?_some ht
  refine ⟨p, b, mk_mem_zipIdx_iff_getElem?.mp hbp, rfl, t, mem_of_find?_eq_some ht,
    of_decide_eq_true hid, ?_⟩
  rcases t.outcome with err | _ <;> rfl

/-- Every transaction in the chain has a status. -/
theorem signatureStatus_of_landed
    (h : LandedIn m.blocks sig o) : ∃ status, m.signatureStatus sig = some status := by
  obtain ⟨b, hb, t, ht, hid, -⟩ := h
  obtain ⟨p, hp⟩ := mem_iff_getElem?.mp hb
  refine Option.isSome_iff_exists.mp (findSome?_isSome_iff.mpr
    ⟨(b, p), mk_mem_zipIdx_iff_getElem?.mpr hp, ?_⟩)
  rw [Option.isSome_map, find?_isSome]
  exact ⟨t, ht, decide_eq_true hid⟩

/-- **At `finalized` the client sees the finalized prefix**, and of it only. -/
theorem finalizedStatus_eq_some :
    getSignatureStatusesWithHistoryAtCommitment .finalized [m.signatureStatus sig] =
      [some o] ↔ LandedIn m.finalizedBlocks sig o := by
  have hfilt : getSignatureStatusesWithHistoryAtCommitment .finalized
      [m.signatureStatus sig] = [some o] ↔ ∃ status, m.signatureStatus sig =
        some status ∧ status.confirmationStatus = .finalized ∧ status.outcome = o := by
    simp [getSignatureStatusesWithHistoryAtCommitment, TransactionStatus.satisfiesCommitment,
      Option.bind_eq_some_iff]
  rw [hfilt]
  constructor
  · rintro ⟨status, hstat, hlevel, rfl⟩
    obtain ⟨p, b, hb, hp, ht⟩ := landed_of_signatureStatus hstat
    have hlt : p < m.finalized := levelAt_eq_finalized.mp (hp ▸ hlevel)
    refine ⟨b, mem_of_getElem? (i := p) ?_, ht⟩
    rw [Moment.finalizedBlocks, getElem?_take, if_pos hlt]
    exact hb
  · intro h
    have hall : LandedIn m.blocks sig o := h.mono (take_subset _ _)
    obtain ⟨status, hstat⟩ := signatureStatus_of_landed hall
    obtain ⟨p, b, hb, hp, t, ht, hid, hout⟩ := landed_of_signatureStatus hstat
    refine ⟨status, hstat, ?_, m.valid.outcome_unique
      ⟨b, mem_of_getElem? hb, t, ht, hid, hout⟩ hall⟩
    obtain ⟨c, hc, u, hu, huid, -⟩ := h
    obtain ⟨q, hq⟩ := mem_iff_getElem?.mp hc
    rw [Moment.finalizedBlocks, getElem?_take] at hq
    split_ifs at hq with hlt
    rw [hp, m.valid.position_unique hb hq ht hu (hid.trans huid.symm)]
    exact levelAt_eq_finalized.mpr hlt

end BaseLayer

/-! ### Rounds -/

/-- **One round of reads**: the blockhash is read at `first`, the signature at `second`.  A read
can fail, the second can come back without an entry, and is truthful otherwise.  The blockhash is
one the signer was given, hence of a block confirmed by then. -/
structure CheckRound (age : ℕ) (hashOf : Signature → Hash) (pending : PendingTransaction) where
  first : BaseLayer age hashOf
  second : BaseLayer age hashOf
  grows : first.Grows second
  signed : hashOf pending.signature = pending.blockhash
  issued : pending.blockhash ∈ first.confirmedBlocks.map (·.hash)
  blockhashAnswer : Except MagicBlockRpcClientError Bool
  statusAnswer : Except MagicBlockRpcClientError (List (Option TransactionStatus))
  blockhash_truthful {v : Bool} (h : blockhashAnswer = .ok v) :
    v = first.isBlockhashValid pending.blockhash
  status_truthful {value : List (Option TransactionStatus)} (h : statusAnswer = .ok value) :
    value = [] ∨ value = [second.signatureStatus pending.signature]

namespace CheckRound

variable {age : ℕ} {hashOf : Signature → Hash} {pending : PendingTransaction}

def check (r : CheckRound age hashOf pending) :
    Except IntentExecutorError PendingSignatureStatus :=
  checkPendingSignature r.blockhashAnswer r.statusAnswer

/-- Both reads of the round come back with an answer. -/
def Answered (r : CheckRound age hashOf pending) : Prop :=
  r.blockhashAnswer = .ok (r.first.isBlockhashValid pending.blockhash) ∧
    r.statusAnswer = .ok [r.second.signatureStatus pending.signature]

/-- **The round falls between expiry and finality**: the blockhash has left the window of the
confirmed prefix, and the transaction landed as a success that is still to be finalized. -/
def ExpiredBeforeFinal (r : CheckRound age hashOf pending) : Prop :=
  r.Answered ∧ pending.blockhash ∉ recentHashes age r.first.confirmedBlocks ∧
    LandedIn r.second.blocks pending.signature (.ok ()) ∧
      ¬ LandedIn r.second.finalizedBlocks pending.signature (.ok ())

variable {r : CheckRound age hashOf pending}

/-- A check of an answered round. -/
theorem check_of_answered (h : r.Answered) :
    ∃ entry, (∀ o, entry = some o ↔ LandedIn r.second.finalizedBlocks pending.signature o) ∧
      r.check = .ok (match entry with
        | some (.ok ()) => .succeeded
        | some (.error _) => .rejected
        | none => if r.first.isBlockhashValid pending.blockhash then .pending else .rejected) := by
  refine ⟨(r.second.signatureStatus pending.signature).bind fun status =>
    if status.satisfiesCommitment .finalized then some status.outcome else none, fun o => ?_, ?_⟩
  · rw [← BaseLayer.finalizedStatus_eq_some]
    exact singleton_inj.symm
  · rw [check, checkPendingSignature, h.1, h.2]
    generalize hent : Option.bind (r.second.signatureStatus pending.signature) _ = entry
    have hvalue : getSignatureStatusesWithHistoryAtCommitment .finalized
        [r.second.signatureStatus pending.signature] = [entry] := hent ▸ rfl
    rcases entry with _ | (err | _)
    all_goals
      simp [Except.mapError, Except.map, hvalue]
      rfl

/-- Anything else than a pair of answers is not a verdict. -/
theorem answered_of_check (h : r.check = .ok .rejected) : r.Answered := by
  rw [check, checkPendingSignature] at h
  rcases hb : r.blockhashAnswer with err | v
  · simp [hb, Except.mapError, bind, Except.bind] at h
  rcases hs : r.statusAnswer with err | value
  · simp [hb, hs, Except.mapError, Except.map, bind, Except.bind] at h
  rcases r.status_truthful hs with rfl | rfl
  · simp [hb, hs, Except.mapError, Except.map, bind, Except.bind,
      getSignatureStatusesWithHistoryAtCommitment, pure, Except.pure] at h
  · exact ⟨r.blockhash_truthful hb ▸ hb, hs⟩

/-- **A verdict is safe outside that window.** -/
theorem neverSucceeds_iff :
    (r.check = .ok .rejected → r.second.NeverSucceeds pending.signature) ↔
      ¬ r.ExpiredBeforeFinal := by
  constructor
  · rintro h ⟨hans, hexp, hland, hfinal⟩
    obtain ⟨entry, hent, hcheck⟩ := check_of_answered hans
    refine h ?_ r.second (Moment.Grows.refl _) hland
    rcases entry with _ | (err | _)
    · rw [hcheck, BaseLayer.isBlockhashValid, decide_eq_false hexp]
      rfl
    · exact hcheck
    · exact absurd ((hent _).mp rfl) hfinal
  · intro hno hrej m' hgrow hland
    have hans := answered_of_check hrej
    obtain ⟨entry, hent, hcheck⟩ := check_of_answered hans
    rcases entry with _ | (err | _)
    · have hexp : pending.blockhash ∉ recentHashes age r.first.confirmedBlocks := by
        intro hmem
        rw [hcheck, BaseLayer.isBlockhashValid, decide_eq_true hmem] at hrej
        cases hrej
      have hfst : LandedIn r.first.blocks pending.signature (.ok ()) :=
        Moment.landed_of_expired (r.grows.trans hgrow) (r.signed ▸ r.issued) (r.signed ▸ hexp) hland
      refine hno ⟨hans, hexp, hfst.mono r.grows.blocks.subset, fun hfinal => ?_⟩
      cases (hent _).mpr hfinal
    · have herr : LandedIn m'.blocks pending.signature (.error err) :=
        ((hent _).mp rfl).mono (List.Subset.trans (take_subset _ _) hgrow.blocks.subset)
      cases m'.valid.outcome_unique hland herr
    · rw [hcheck] at hrej
      cases hrej

/-! ### The transaction that landed late -/

/-- A transaction with the hash of block `0`, landed as the last block that still allows it. -/
def lateBlocks : List (ChainBlock Hash Signature TransactionError) :=
  (List.range 151).map fun i : ℕ => ⟨BitVec.ofNat 256 i, if i = 150 then [⟨1, .ok ()⟩] else []⟩

theorem validChain_lateBlocks : ValidChain 150 (fun _ => (0 : Hash)) lateBlocks where
  hashes := by decide +kernel
  once := by decide +kernel
  recent {p b} hb t ht := by
    obtain ⟨i, hi, rfl⟩ := Option.map_eq_some_iff.mp (List.getElem?_map .. ▸ hb)
    obtain ⟨-, rfl⟩ : p < 151 ∧ p = i := List.getElem?_eq_some_iff.mp hi |>.elim
      fun hlt heq => ⟨by simpa using hlt, by simpa using heq⟩
    split_ifs at ht with hp
    · subst hp
      decide +kernel
    · cases ht

/-- Confirmed to the end; finality lags by the usual 32 blocks. -/
def lateLayer : BaseLayer 150 (fun _ => (0 : Hash)) where
  blocks := lateBlocks
  confirmed := 151
  finalized := 119
  valid := validChain_lateBlocks
  confirmed_le := by decide +kernel
  finalized_le := by decide

def lateRound : CheckRound 150 (fun _ => (0 : Hash)) ⟨1, 0⟩ where
  first := lateLayer
  second := lateLayer
  grows := Moment.Grows.refl _
  signed := rfl
  issued := by decide +kernel
  blockhashAnswer := .ok (lateLayer.isBlockhashValid 0)
  statusAnswer := .ok [lateLayer.signatureStatus 1]
  blockhash_truthful h := (Except.ok.inj h).symm
  status_truthful h := .inr (Except.ok.inj h).symm

theorem lateRound_check : lateRound.check = .ok .rejected := by
  obtain ⟨entry, hent, hcheck⟩ := check_of_answered (r := lateRound) ⟨rfl, rfl⟩
  have hnone : entry = none := by
    by_contra hsome
    obtain ⟨o, ho⟩ := Option.ne_none_iff_exists'.mp hsome
    obtain ⟨b, hb, t, ht, -⟩ := (hent o).mp ho
    have hemp : ∀ b ∈ lateLayer.finalizedBlocks, b.landed = [] := by decide +kernel
    rw [hemp b hb] at ht
    cases ht
  have hexp : lateLayer.isBlockhashValid 0 = false := by decide +kernel
  rw [hcheck, hnone]
  exact congrArg Except.ok (if_neg (by rw [lateRound, hexp]; exact Bool.false_ne_true))

theorem lateRound_landed : LandedIn lateRound.second.blocks 1 (.ok ()) :=
  ⟨⟨150, [⟨1, .ok ()⟩]⟩, mem_map.mpr ⟨150, by decide, rfl⟩, _, mem_singleton_self _, rfl,
    rfl⟩

end CheckRound

/-! ### Main result -/

open CheckRound in
/-- **`Rejected` is wrong on a transaction that succeeded**: block 150 holds it, the confirmed
prefix has outrun its blockhash, the finalized prefix has not reached it. -/
theorem rejected_of_unfinalized_success :
    lateRound.check = .ok .rejected ∧
      resolvePendingSignature ⟨1, 0⟩ [lateRound.check] = some (.ok false) ∧
      LandedIn lateRound.second.blocks 1 (.ok ()) ∧ ¬ lateRound.second.NeverSucceeds 1 := by
  refine ⟨lateRound_check, ?_, lateRound_landed,
    fun h => h lateRound.second (Moment.Grows.refl _) lateRound_landed⟩
  rw [lateRound_check]
  rfl

/-- **A pending transaction is given up only when it is dead, but for one window** — for every chain
and every growth between the reads: a check that answers `Rejected`, and a wait that ends in
`Ok(false)` with this check, are right if and only if the reads do not fall between the expiry of
the blockhash and the finality of a transaction that succeeded. -/
theorem dead_iff_not_expiredBeforeFinal {age : ℕ} {hashOf : Signature → Hash}
    {pending : PendingTransaction} (earlier : List (CheckRound age hashOf pending))
    (hwait : resolvePendingSignature pending (earlier.map (·.check)) = none)
    (r : CheckRound age hashOf pending) :
    ((r.check = .ok .rejected → r.second.NeverSucceeds pending.signature) ↔
        ¬ r.ExpiredBeforeFinal) ∧
      ((resolvePendingSignature pending ((earlier ++ [r]).map (·.check)) = some (.ok false) →
          r.second.NeverSucceeds pending.signature) ↔ ¬ r.ExpiredBeforeFinal) := by
  rw [List.map_append, List.map_singleton, resolvePendingSignature, resolveLoop_concat hwait]
  exact ⟨CheckRound.neverSucceeds_iff, CheckRound.neverSucceeds_iff⟩

/-- The round above is in the window. -/
theorem dead_iff_not_expiredBeforeFinal_of_late :
    ((CheckRound.lateRound.check = .ok .rejected → CheckRound.lateRound.second.NeverSucceeds 1) ↔
        ¬ CheckRound.lateRound.ExpiredBeforeFinal) ∧ CheckRound.lateRound.ExpiredBeforeFinal := by
  have hiff := (dead_iff_not_expiredBeforeFinal [] rfl CheckRound.lateRound).1
  refine ⟨hiff, Classical.byContradiction fun hno => ?_⟩
  exact hiff.mpr hno CheckRound.lateRound_check _ (Moment.Grows.refl _) CheckRound.lateRound_landed

end Magicblock
