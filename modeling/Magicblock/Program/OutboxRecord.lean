import Magicblock.Program.SetStage
import Magicblock.Settlement.TaskBuilder

/-!
# Program/OutboxRecord — the record of an intent fits in its account

An outbox account gets its size when the intent is accepted; after that the record changes in place.
Whatever stages the runner records, and whatever commit nonces it takes from the tasks of the
intent, the record keeps to that size and is read back as it was written.  So the bytes follow the
record: `update` is the instruction without them.
-/

namespace Magicblock

open Exec Codec Magicblock.Except List SetStage

/-! ### The instruction without bytes -/

namespace SetStage

/-- The record after an attempt. -/
def update (env : SetStageEnv) (a : SetStage) (bundle : OutboxIntentBundle) :
    Except InstructionError OutboxIntentBundle := do
  let providedValidatorAuth ← a.ctx.getInstructionPubkeyWithIdx 0
  if providedValidatorAuth ≠ env.authority then .error .invalidArgument else
  if env.authority ∉ a.ctx.signers then .error .missingRequiredSignature else do
  let providedPda ← a.ctx.getInstructionPubkeyWithIdx intentPdaIdx
  if !env.verifyOutboxIntentPda a.intentId bundle.bump providedPda then .error .invalidArgument else
  (bundle.applyStageTransition a.stage a.recoveryCommitNonces).mapError fun _ => .invalidArgument

end SetStage

/-! ### Nonces of an intent -/

/-- Commit nonces there is room for. -/
structure NoncesFit (inner : ScheduledIntentBundle) (nonces : List (Pubkey × ℕ)) : Prop where
  length : nonces.length ≤ inner.getAllCommittedPubkeys.length
  valid : ∀ nonce ∈ nonces, Wincode.u64.valid nonce.2

/-! ### What can be written -/

section Valid

variable {w : Wincode}

theorem valid_of_mem_commitType (h : w.commitType.valid t)
    (hacc : acc ∈ t.getCommittedAccounts) : w.committedAccount.valid acc := by
  cases t with
  | standalone accounts => exact (valid_list.mp h).2 acc hacc
  | withBaseActions accounts actions =>
    exact (valid_list.mp (valid_pair.mp h).1).2 acc hacc

/-- The accounts of a bundle that can be written can be written. -/
theorem valid_of_mem_getAllCommittedAccounts
    (h : w.magicIntentBundle.valid bundle) (hacc : acc ∈ bundle.getAllCommittedAccounts) :
    w.committedAccount.valid acc := by
  have hcom {x : Option CommitType} (hx : (option w.optionTagWidth w.commitType).valid x)
      (hmem : acc ∈ (x.map CommitType.getCommittedAccounts).getD []) :
      w.committedAccount.valid acc := by
    cases x with
    | none => cases hmem
    | some t => exact valid_of_mem_commitType (valid_of_mem_option hx rfl) hmem
  have hund {x : Option CommitAndUndelegate}
      (hx : (option w.optionTagWidth w.commitAndUndelegate).valid x)
      (hmem : acc ∈ (x.map CommitAndUndelegate.getCommittedAccounts).getD []) :
      w.committedAccount.valid acc := by
    cases x with
    | none => cases hmem
    | some t =>
      have ht : w.commitAndUndelegate.valid t := valid_of_mem_option hx rfl
      exact valid_of_mem_commitType (t := t.commitAction) (valid_pair.mp ht).1 hmem
  obtain ⟨h₁, h⟩ := valid_pair.mp h
  obtain ⟨h₂, h⟩ := valid_pair.mp h
  obtain ⟨h₃, h⟩ := valid_pair.mp h
  obtain ⟨h₄, -⟩ := valid_pair.mp h
  rw [MagicIntentBundle.getAllCommittedAccounts_eq] at hacc
  simp only [mem_append] at hacc
  rcases hacc with ((hmem | hmem) | hmem) | hmem
  · exact hcom h₁ hmem
  · exact hund h₂ hmem
  · exact hcom h₃ hmem
  · exact hund h₄ hmem

/-- The accounts of an intent that can be written have commit ids that can be written. -/
theorem valid_commitId {inner : ScheduledIntentBundle} (h : w.scheduledIntentBundle.valid inner)
    (hacc : acc ∈ inner.intentBundle.getAllCommittedAccounts) :
    Wincode.u64.valid acc.commitId := by
  obtain ⟨-, h⟩ := valid_pair.mp h
  obtain ⟨-, h⟩ := valid_pair.mp h
  obtain ⟨-, h⟩ := valid_pair.mp h
  obtain ⟨-, h⟩ := valid_pair.mp h
  obtain ⟨-, h⟩ := valid_pair.mp (valid_of_mem_getAllCommittedAccounts h hacc)
  obtain ⟨-, h⟩ := valid_pair.mp h
  exact (valid_pair.mp h).2

theorem valid_pendingTransaction :
    Wincode.pendingTransaction.valid pending :=
  valid_pair.mpr ⟨valid_bits, valid_bits⟩

/-- Every status can be written. -/
theorem valid_status :
    w.outboxIntentBundleStatus.valid status := by
  rcases status with _ | (pending | (pending | ⟨commit, finalize⟩))
  · rfl
  · exact valid_pendingTransaction
  · exact valid_pendingTransaction
  · exact valid_pair.mpr ⟨valid_bits, valid_pendingTransaction⟩

end Valid

/-- **Nonces taken from the tasks of an intent fit.** -/
theorem noncesFit_of_subperm {w : Wincode} {inner : ScheduledIntentBundle}
    (hinner : w.scheduledIntentBundle.valid inner)
    (hts : TaskBuilder.commitTasks inner metadata base = .ok tasks)
    (h : nonces.Subperm (recoveryCommitNonces tasks)) : NoncesFit inner nonces where
  length := by
    have hperm := TaskBuilder.recoveryCommitNonces_commitTasks hts
    refine h.length_le.trans (le_of_eq ?_)
    rw [hperm.length_eq, ScheduledIntentBundle.commitKeys, length_map,
      ScheduledIntentBundle.getAllCommittedPubkeys, MagicIntentBundle.getAllCommittedPubkeys_eq,
      length_map]
  valid nonce hnonce := by
    have hmem := (TaskBuilder.recoveryCommitNonces_commitTasks hts).subset (h.subset hnonce)
    obtain ⟨acc, hacc, rfl⟩ := mem_map.mp hmem
    exact valid_commitId hinner hacc

/-! ### The record keeps its size -/

section Size

variable {w : Wincode}

/-- The room of a record depends on its intent. -/
theorem maxBodySize_congr (h : bundle.inner = bundle'.inner) :
    w.maxBodySize bundle = w.maxBodySize bundle' := by
  obtain ⟨inner, status, nonces, bump⟩ := bundle
  obtain ⟨inner', status', nonces', bump'⟩ := bundle'
  obtain rfl : inner = inner' := h
  rfl

/-- What a record that could be written needs at most. -/
theorem maxBodySize_eq_some :
    w.maxBodySize bundle = some size ↔ w.scheduledIntentBundle.valid bundle.inner ∧
      bundle.getAllCommittedPubkeys.length < 256 ^ w.lengthWidth ∧
      size = (w.scheduledIntentBundle.encode bundle.inner).length +
        (w.outboxIntentBundleStatus.encode Wincode.maxSizeVariant).length +
        (w.lengthWidth + bundle.getAllCommittedPubkeys.length * 40) + 1 := by
  have hnonces : w.commitNonces.valid (replicate bundle.getAllCommittedPubkeys.length (0, 0)) ↔
      bundle.getAllCommittedPubkeys.length < 256 ^ w.lengthWidth := by
    rw [Wincode.commitNonces, valid_list, length_replicate, and_iff_left]
    intro nonce hnonce
    obtain rfl := eq_of_mem_replicate hnonce
    exact valid_pair.mpr ⟨valid_bits, rfl⟩
  have hbump : (byte.encode bundle.bump).length = 1 := rfl
  simp only [Wincode.maxBodySize, Option.bind_eq_bind, Option.bind_eq_some_iff,
    serializedSize_eq_some, hnonces, w.length_encode_commitNonces, length_replicate]
  constructor
  · rintro ⟨_, ⟨hinner, rfl⟩, _, ⟨-, rfl⟩, _, ⟨hlen, rfl⟩, _, ⟨-, rfl⟩, h⟩
    exact ⟨hinner, hlen, (Option.some.inj h).symm⟩
  · rintro ⟨hinner, hlen, rfl⟩
    exact ⟨_, ⟨hinner, rfl⟩, _, ⟨valid_status, rfl⟩, _, ⟨hlen, rfl⟩, _, ⟨rfl, rfl⟩, rfl⟩

/-- **A record whose nonces fit can be written.** -/
theorem exists_tryToBytes (hsize : w.maxBodySize bundle = some size)
    (hnonces : NoncesFit bundle.inner bundle.recoveryCommitNonces) :
    ∃ data, w.tryToBytes bundle = some data := by
  obtain ⟨hinner, hlen, rfl⟩ := maxBodySize_eq_some.mp hsize
  refine ⟨_, Wincode.tryToBytes_eq_some.mpr ⟨_, hsize, ?_, ?_, rfl⟩⟩
  · refine valid_pair.mpr ⟨hinner, valid_pair.mpr ⟨valid_status, valid_pair.mpr ⟨?_, rfl⟩⟩⟩
    exact valid_list.mpr ⟨hnonces.length.trans_lt hlen, fun nonce hnonce =>
      valid_pair.mpr ⟨valid_bits, hnonces.valid nonce hnonce⟩⟩
  · have hstat := w.length_encode_status_le bundle.status
    have hroom : bundle.recoveryCommitNonces.length * 40 ≤
      bundle.getAllCommittedPubkeys.length * 40 := Nat.mul_le_mul_right 40 hnonces.length
    have hbump : (byte.encode bundle.bump).length = 1 := rfl
    simp only [Wincode.outboxIntentBundle, encode_record, length_encode_pair,
      w.length_encode_commitNonces]
    omega

end Size

/-! ### The bytes follow the record -/

/-- The record after the first `i` attempts. -/
def recordAfter (env : SetStageEnv) (bundle : OutboxIntentBundle) (attempts : List SetStage)
    (i : ℕ) : OutboxIntentBundle :=
  (attempts.take i).foldl (fun bundle a => ((a.update env bundle).toOption).getD bundle) bundle

/-- An account that holds a record of the intent, in the room it got at the beginning. -/
structure HoldsRecord (w : Wincode) (inner : ScheduledIntentBundle) (size : ℕ)
    (bundle : OutboxIntentBundle) (data : List UInt8) : Prop where
  intent : bundle.inner = inner
  nonces : NoncesFit inner bundle.recoveryCommitNonces
  written : w.tryToBytes bundle = some data
  length : data.length = size

section Refines

variable {env : SetStageEnv} {a : SetStage} {inner : ScheduledIntentBundle}

theorem pubkeyWithIdx_of_ok
    (h : a.ctx.getInstructionPubkeyWithIdx idx = .ok key) : a.pubkeyWithIdx idx = pure key := by
  rw [pubkeyWithIdx, h]
  rfl

theorem pubkeyWithIdx_of_error (h : a.ctx.getInstructionPubkeyWithIdx idx = .error err) :
    a.pubkeyWithIdx idx = throw (.error err) := by
  rw [pubkeyWithIdx, h]
  rfl

/-- Up to the transition the instruction fails as `update` does. -/
theorem meets_validate_update (hread : w.tryFromBytes data = some bundle) :
    (a.validate w env).Meets data
      (fun read data' => data' = data ∧ read = bundle ∧
        a.update env bundle = (bundle.applyStageTransition a.stage a.recoveryCommitNonces).mapError
          fun _ => .invalidArgument)
      fun fault data' => data' = data ∧ ∃ err, fault = .error err ∧
        a.update env bundle = .error err := by
  rw [validate, meets_bind]
  rcases hauth : a.ctx.getInstructionPubkeyWithIdx 0 with err | auth
  · rw [pubkeyWithIdx_of_error hauth, meets_throw, update, hauth]
    exact ⟨rfl, err, rfl, rfl⟩
  rw [pubkeyWithIdx_of_ok hauth, meets_pure, meets_bind, meets_ensure]
  refine ⟨fun hval => ?_, fun hval => ⟨rfl, _, rfl, ?_⟩⟩
  swap
  · rw [update, hauth]
    exact if_pos (by simpa using hval)
  obtain rfl := of_decide_eq_true hval
  rw [meets_bind, meets_ensure]
  refine ⟨fun hsign => ?_, fun hsign => ⟨rfl, _, rfl, ?_⟩⟩
  swap
  · rw [update, hauth]
    have habs : env.authority ∉ a.ctx.signers := by simpa using hsign
    simp [bind, Except.bind, habs]
  replace hsign : env.authority ∈ a.ctx.signers := of_decide_eq_true hsign
  rw [meets_bind]
  rcases hpda : a.ctx.getInstructionPubkeyWithIdx intentPdaIdx with err | pda
  · rw [pubkeyWithIdx_of_error hpda, meets_throw, update, hauth, hpda]
    exact ⟨rfl, err, rfl, by simp [bind, Except.bind, hsign]⟩
  have hupd : a.update env bundle =
      if !env.verifyOutboxIntentPda a.intentId bundle.bump pda then .error .invalidArgument
      else (bundle.applyStageTransition a.stage a.recoveryCommitNonces).mapError
        fun _ => .invalidArgument := by
    rw [update, hauth, hpda]
    simp [bind, Except.bind, hsign]
  rw [pubkeyWithIdx_of_ok hpda, meets_pure, meets_bind, meets_get, hread, meets_bind,
    meets_ofOption]
  refine ⟨?_, fun h => by cases h⟩
  rintro _ ⟨⟩
  rw [meets_bind, meets_ensure]
  constructor
  · intro hver
    exact ⟨rfl, rfl, hupd.trans (if_neg (by simpa using hver))⟩
  · intro hver
    exact ⟨rfl, _, rfl, hupd.trans (if_pos (by simpa using hver))⟩

/-- An update leaves the intent, and takes nonces that fit. -/
theorem update_eq_ok (h : a.update env bundle = .ok bundle')
    (hbun : NoncesFit bundle.inner bundle.recoveryCommitNonces)
    (hnonces : NoncesFit bundle.inner a.recoveryCommitNonces) :
    bundle'.inner = bundle.inner ∧ NoncesFit bundle.inner bundle'.recoveryCommitNonces := by
  obtain ⟨_, -, h⟩ := bind_eq_ok.mp h
  obtain ⟨-, h⟩ := of_ite_error h
  obtain ⟨-, h⟩ := of_ite_error h
  obtain ⟨_, -, h⟩ := bind_eq_ok.mp h
  obtain ⟨-, h⟩ := of_ite_error h
  obtain ⟨_, -, rfl⟩ := map_eq_ok.mp (mapError_eq_ok.mp h)
  refine ⟨rfl, ?_⟩
  change NoncesFit bundle.inner (if _ then _ else _)
  split_ifs
  · exact hbun
  · exact hnonces

/-- **The instruction does what `update` says**: there is room for what came of it. -/
theorem HoldsRecord.meets_process (h : HoldsRecord w inner size bundle data)
    (hnonces : NoncesFit inner a.recoveryCommitNonces) :
    (a.process w env).Meets data
      (fun _ data' => ∃ bundle', a.update env bundle = .ok bundle' ∧
        HoldsRecord w inner size bundle' data')
      fun fault data' => data' = data ∧ ∃ err, fault = .error err ∧
        a.update env bundle = .error err := by
  obtain ⟨rfl, hbun, hwrite, rfl⟩ := h
  obtain ⟨room, hroom, -⟩ := Wincode.tryToBytes_eq_some.mp hwrite
  rw [process, meets_bind]
  refine (meets_validate_update (Wincode.tryFromBytes_of_tryToBytes hwrite)).mono ?_ fun _ _ => id
  rintro read data' ⟨hdata, hread, hupd⟩
  rw [hdata, hread, setNewExecutionStage, meets_bind, meets_ofExcept]
  constructor
  · intro bundle' hbun'
    have hok : a.update env bundle = .ok bundle' :=
      hupd.trans (Except.mapError_eq_ok.mpr (Except.mapError_eq_ok.mp hbun'))
    obtain ⟨hinner, hfit⟩ := update_eq_ok hok hbun hnonces
    have hroom' := (maxBodySize_congr hinner).trans hroom
    obtain ⟨stored, hstor⟩ := exists_tryToBytes hroom' (by rwa [hinner])
    have hlen : stored.length = data.length :=
      (Wincode.length_of_tryToBytes hroom' hstor).trans
        (Wincode.length_of_tryToBytes hroom hwrite).symm
    rw [hstor, meets_bind, meets_ofOption]
    refine ⟨?_, fun h => by cases h⟩
    rintro _ ⟨⟩
    rw [meets_bind, meets_get, meets_bind, meets_ensure]
    exact ⟨fun _ => ⟨bundle', hok, hinner, hfit, hstor, hlen⟩,
      fun hne => absurd (decide_eq_true hlen) hne⟩
  · intro fault hfault
    refine ⟨rfl, .invalidArgument, ?_⟩
    rw [hupd]
    rcases hstg : bundle.applyStageTransition a.stage a.recoveryCommitNonces with e | bundle'
    · rw [hstg] at hfault
      exact ⟨(Except.error.inj hfault).symm, rfl⟩
    · rw [hstg] at hfault
      cases hfault

variable (env) in
theorem HoldsRecord.process (h : HoldsRecord w inner size bundle data)
    (hnonces : NoncesFit inner a.recoveryCommitNonces) :
    ((a.process w env).outcome data).1 =
        ((a.update env bundle).map fun _ => ()).mapError .error ∧
      HoldsRecord w inner size (((a.update env bundle).toOption).getD bundle)
        ((a.process w env).outcome data).2 := by
  have hmeets : (a.process w env).Meets data _ _ := h.meets_process hnonces
  unfold Meets at hmeets
  rcases hout : (a.process w env).outcome data with ⟨fault | _, data'⟩
  · rw [hout] at hmeets
    obtain ⟨rfl, err, rfl, hupd⟩ := hmeets
    rw [hupd]
    exact ⟨rfl, h⟩
  · rw [hout] at hmeets
    obtain ⟨bundle', hupd, hholds⟩ := hmeets
    rw [hupd]
    exact ⟨rfl, hholds⟩

theorem recordAfter_succ (h : attempts[i]? = some a) : recordAfter env bundle attempts (i + 1) =
      ((a.update env (recordAfter env bundle attempts i)).toOption).getD
        (recordAfter env bundle attempts i) := by
  rw [recordAfter, recordAfter, take_add_one, h]
  exact foldl_concat ..

theorem recordAfter_succ_of_none (h : attempts[i]? = none) :
    recordAfter env bundle attempts (i + 1) = recordAfter env bundle attempts i := by
  rw [recordAfter, recordAfter, take_add_one, h, Option.toList_none, append_nil]

variable (env) in
/-- **The account holds the record, after any number of attempts.** -/
theorem HoldsRecord.after (h : HoldsRecord w inner size bundle data)
    (hnonces : ∀ a ∈ attempts, NoncesFit inner a.recoveryCommitNonces) (i : ℕ) :
    HoldsRecord w inner size (recordAfter env bundle attempts i)
      (accountAfter w env data attempts i) := by
  induction i with
  | zero => exact h
  | succ i ih =>
    rcases ha : attempts[i]? with _ | a
    · rwa [recordAfter_succ_of_none ha, accountAfter_succ_of_none ha]
    · rw [recordAfter_succ ha, accountAfter_succ ha]
      exact (ih.process env (hnonces a (mem_of_getElem? ha))).2

end Refines

/-- The attempts of a runner of the intent: their nonces come from tasks that the task builder makes
of it. -/
def SentByRunner (inner : ScheduledIntentBundle) (a : SetStage) : Prop :=
  ∃ metadata baseAccounts tasks, TaskBuilder.commitTasks inner metadata baseAccounts = .ok tasks ∧
    a.recoveryCommitNonces.Subperm (recoveryCommitNonces tasks)

/-- **The record fits in place.**  Whatever stages a runner sets, the record re-encoded has the size
the account got when the intent was accepted, the account holds these bytes, and from them the
record is read back; every attempt ends as it does without bytes, so it does not panic. -/
theorem record_fits (w : Wincode) (env : SetStageEnv) (inner : ScheduledIntentBundle) (bump : UInt8)
    (data : List UInt8) (hacpt : w.tryToBytes (.accepted inner bump) = some data)
    (attempts : List SetStage) (hsent : ∀ a ∈ attempts, SentByRunner inner a) (i : ℕ) :
    (accountAfter w env data attempts i).length = data.length ∧
    w.tryToBytes (recordAfter env (.accepted inner bump) attempts i) =
      some (accountAfter w env data attempts i) ∧
    w.tryFromBytes (accountAfter w env data attempts i) =
      some (recordAfter env (.accepted inner bump) attempts i) ∧
    ∀ a, attempts[i]? = some a →
      ((a.process w env).outcome (accountAfter w env data attempts i)).1 =
        ((a.update env (recordAfter env (.accepted inner bump) attempts i)).map
          fun _ => ()).mapError .error ∧
      ((a.process w env).outcome (accountAfter w env data attempts i)).1 ≠ .error .panicked := by
  have hinner : w.scheduledIntentBundle.valid inner := by
    obtain ⟨size, hsize, -⟩ := Wincode.tryToBytes_eq_some.mp hacpt
    exact (maxBodySize_eq_some.mp hsize).1
  have hfit (a : SetStage) (ha : a ∈ attempts) : NoncesFit inner a.recoveryCommitNonces := by
    obtain ⟨_, _, _, hts, hnonces⟩ := hsent a ha
    exact noncesFit_of_subperm hinner hts hnonces
  have hstart : HoldsRecord w inner data.length (.accepted inner bump) data :=
    ⟨rfl, ⟨Nat.zero_le _, List.forall_mem_nil _⟩, hacpt, rfl⟩
  have hholds := hstart.after env hfit i
  refine ⟨hholds.length, hholds.written, Wincode.tryFromBytes_of_tryToBytes hholds.written, ?_⟩
  intro a ha
  have hout := (hholds.process env (hfit a (List.mem_of_getElem? ha))).1
  refine ⟨hout, ?_⟩
  rw [hout]
  rcases a.update env _ with err | bundle'
  · exact nofun
  · exact nofun

namespace OutboxExample

/-- The stages of an intent, and then a step back, which is refused. -/
def stages : List SetStage := [toCommitting, toFinalizing, toCommitting]

theorem sentByRunner_stages : ∀ a ∈ stages, SentByRunner inner a := by
  have hnonces (a : SetStage) (h : a.recoveryCommitNonces = toCommitting.recoveryCommitNonces) :
      SentByRunner inner a := ⟨.ok [], .ok [], _, rfl, h ▸ List.Subperm.refl _⟩
  simp only [stages, forall_mem_cons]
  exact ⟨hnonces _ rfl, hnonces _ rfl, hnonces _ rfl, forall_mem_nil _⟩

end OutboxExample

open OutboxExample in
/-- After all stages the record has the nonces and the last stage, and is read back. -/
theorem record_fits_committing :
    wincode.tryToBytes (.accepted inner 255) = some data ∧
      (∀ a ∈ stages, SentByRunner inner a) ∧
      (recordAfter env (.accepted inner 255) stages 3).status = .executing toFinalizing.stage ∧
      (accountAfter wincode env data stages 3).length = data.length ∧
      wincode.tryFromBytes (accountAfter wincode env data stages 3) =
        some (recordAfter env (.accepted inner 255) stages 3) := by
  have hfits := record_fits wincode env inner 255 data tryToBytes_inner stages sentByRunner_stages 3
  exact ⟨tryToBytes_inner, sentByRunner_stages, by decide +kernel, hfits.1, hfits.2.2.1⟩

end Magicblock
