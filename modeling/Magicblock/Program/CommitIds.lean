import Magicblock.Foundations.History
import Magicblock.Program.Effects

/-!
# Program/CommitIds — commit ids over whole histories

Transactions run any instructions of the magic program and of other programs; a failed one is rolled
back as a whole.  Over every such history the ids taken from an account's counter have no gap and
each is in one intent, in the order of the intents (`commitIds_gapFree`).  Intent ids count up and
wrap at 64 bits; an id belongs to the counter it was taken from, which for an ATA is not the counter
of the eATA it is committed as.
-/

open scoped List

namespace Magicblock

open List (Forall₂ map_append map_cons map_nil map_singleton suffix_rfl)

/-! ### Histories -/

/-- An intent that joined the queue, with the ids reserved for it. -/
structure Scheduling where
  intent : ScheduledIntentBundle
  reserved : List Reservation
  deriving DecidableEq

/-- **One instruction of a transaction**, and what it scheduled.  Other programs may change every
account but not its counter. -/
inductive InstructionStep (env : ProgramEnv) (b : Bank) : List Scheduling → Bank → Prop
  | scheduleCommit (ctx : InvokeContext) (requestUndelegation : Bool) {b' : Bank} {s : Scheduling}
      (h : (processScheduleCommit env ctx requestUndelegation).Ok b () b')
      (hint : b'.context.scheduledBaseIntents = b.context.scheduledBaseIntents ++ [s.intent])
      (hrsv : b'.reserved = b.reserved ++ s.reserved) : InstructionStep env b [s] b'
  | scheduleIntentBundle (ctx : InvokeContext) (args : MagicIntentBundleArgs) (secure : Bool)
      {b' : Bank} {s : Scheduling}
      (h : (processScheduleIntentBundle env ctx args secure).Ok b () b')
      (hint : b'.context.scheduledBaseIntents = b.context.scheduledBaseIntents ++ [s.intent])
      (hrsv : b'.reserved = b.reserved ++ s.reserved) : InstructionStep env b [s] b'
  | addActionCallback (ctx : InvokeContext) (args : AddActionCallbackArgs) {b' : Bank}
      (h : (processAddActionCallback env ctx args).Ok b () b') : InstructionStep env b [] b'
  | acceptScheduledCommits (ctx : InvokeContext) {b' : Bank}
      (h : (processAcceptScheduledCommits env ctx).Ok b () b') : InstructionStep env b [] b'
  | otherProgram (accounts : Pubkey → AccountSharedData)
      (h : ∀ a, (accounts a).commitSeq = (b.accounts a).commitSeq) :
      InstructionStep env b [] { b with accounts := accounts }

/-- **A transaction that succeeds**, instruction by instruction. -/
inductive Executes (env : ProgramEnv) : Bank → List Scheduling → Bank → Prop
  | nil (b : Bank) : Executes env b [] b
  | cons {log log' : List Scheduling} (hstep : InstructionStep env b log b₁)
      (hrest : Executes env b₁ log' b') : Executes env b (log ++ log') b'

inductive BankEvent where
  | transaction (log : List Scheduling)
  | rolledBack
  | materialized (account : Pubkey)

/-- A transaction succeeds or is rolled back; or the validator materializes an account anew, with
the counter of its new delegation session. -/
inductive BankStep (env : ProgramEnv) (b : Bank) : BankEvent → Bank → Prop
  | transaction (h : Executes env b log b') : BankStep env b (.transaction log) b'
  | rolledBack : BankStep env b .rolledBack b
  | materialized (a : Pubkey) (account : AccountSharedData) :
      BankStep env b (.materialized a) { b with accounts := Function.update b.accounts a account }

def bankMachine (env : ProgramEnv) (b₀ : Bank) : Machine Bank BankEvent where
  start b := b = b₀
  step _ := BankStep env

/-- What was scheduled, in order. -/
def scheduled (es : List BankEvent) : List Scheduling :=
  es.flatMap fun
    | .transaction log => log
    | _ => []

/-- The intent ids handed out, in order. -/
def handedOut (log : List Scheduling) : List IntentID :=
  log.map (·.intent.intentId)

/-- The commit ids taken from one account's counter, each with its intent. -/
def commitLog (a : Pubkey) (log : List Scheduling) : List (IntentID × ℕ) :=
  log.flatMap fun s => (commitIdsOf a s.reserved).map (s.intent.intentId, ·)

/-- What an intent commits. -/
def ScheduledIntentBundle.commits (intent : ScheduledIntentBundle) :
    IntentID × List CommittedAccount :=
  (intent.intentId, intent.intentBundle.getAllCommittedAccounts)

/-! ### What a history amounts to -/

/-- **The effect of scheduling `log`**, on the accounts of `session` also on their counters. -/
structure Logged (env : ProgramEnv) (session : Pubkey → Prop) (b : Bank) (log : List Scheduling)
    (b' : Bank) : Prop where
  ids : handedOut log = (List.range log.length).map fun k => (b.context.intentId + k) % 2 ^ 64
  next : b'.context.intentId = (b.context.intentId + log.length) % 2 ^ 64
  countsUp {a : Pubkey} (ha : session a) :
    CountsUp (b.accounts a).commitSeq ((commitLog a log).map Prod.snd) (b'.accounts a).commitSeq
  stored {s : Scheduling} (hs : s ∈ log) :
    Forall₂ (CommitsAs env) s.intent.intentBundle.getAllCommittedAccounts s.reserved
  distinct {s : Scheduling} (hs : s ∈ log) : (s.reserved.map (·.account)).Nodup
  queue : b'.context.scheduledBaseIntents.map (·.commits) <:+
    (b.context.scheduledBaseIntents ++ log.map (·.intent)).map (·.commits)

theorem commitLog_append :
    commitLog a (log ++ log') = commitLog a log ++ commitLog a log' :=
  List.flatMap_append ..

namespace Logged

/-- Nothing was scheduled; the queue may have lost its oldest intents. -/
theorem quiet (hid : b'.context.intentId = b.context.intentId)
    (hseq : ∀ a, session a → (b'.accounts a).commitSeq = (b.accounts a).commitSeq)
    (hqueue : b'.context.scheduledBaseIntents.map (·.commits) <:+
      b.context.scheduledBaseIntents.map (·.commits)) :
    Logged env session b [] b' where
  ids := rfl
  next := hid.trans (Nat.mod_eq_of_lt b.context.intentId_lt).symm
  countsUp ha := hseq _ ha ▸ CountsUp.nil _
  stored := nofun
  distinct := nofun
  queue := by rwa [map_nil, List.append_nil]

theorem trans (h : Logged env session b log b') (h' : Logged env session b' log' b'') :
    Logged env session b (log ++ log') b'' where
  ids := by
    rw [handedOut, map_append, List.length_append, List.range_add, map_append]
    refine congrArg₂ _ h.ids (h'.ids.trans ?_)
    rw [List.map_map]
    refine List.map_congr_left fun k _ => ?_
    rw [h.next, Nat.mod_add_mod, Function.comp_apply, Nat.add_assoc]
  next := by rw [h'.next, h.next, Nat.mod_add_mod, List.length_append, Nat.add_assoc]
  countsUp ha := by
    rw [commitLog_append, map_append]
    exact (h.countsUp ha).append (h'.countsUp ha)
  stored hs := (List.mem_append.mp hs).elim h.stored h'.stored
  distinct hs := (List.mem_append.mp hs).elim h.distinct h'.distinct
  queue := by
    obtain ⟨gone, hgone⟩ := h.queue
    refine h'.queue.trans ⟨gone, ?_⟩
    rw [map_append, ← List.append_assoc, hgone, ← map_append, List.append_assoc, ← map_append]

theorem of_schedules (h : Schedules env b s.intent s.reserved b') :
    Logged env session b [s] b' where
  ids := by
    rw [handedOut, map_singleton, h.intentId]
    exact congrArg (fun n => [n]) (Nat.mod_eq_of_lt b.context.intentId_lt).symm
  next := h.next
  countsUp {a} _ := by
    have hids : (commitLog a [s]).map Prod.snd = commitIdsOf a s.reserved := by
      simp [commitLog, Function.comp_def]
    exact hids ▸ h.countsUp a
  stored hs := List.mem_singleton.mp hs ▸ h.commitsAs
  distinct hs := List.mem_singleton.mp hs ▸ h.distinct
  queue := by
    rw [h.queue]
    exact suffix_rfl

theorem of_amends (h : Amends b b') : Logged env session b [] b' := by
  obtain ⟨front, latest, bundle, hold, hnew, haccs⟩ := h.newest
  refine quiet (hnew ▸ rfl) (fun a _ => h.commitSeq a) ⟨[], ?_⟩
  rw [List.nil_append, hold, hnew, map_append, map_append, map_singleton,
    map_singleton,
    ScheduledIntentBundle.commits, haccs]
  rfl

theorem of_accepts (h : Accepts env b popped b') : Logged env session b [] b' := by
  refine quiet h.intentId (fun a _ => h.commitSeq a) ?_
  rw [h.queue, map_append]
  exact List.suffix_append ..

/-- Every instruction. -/
theorem of_instructionStep (h : InstructionStep env b log b') : Logged env session b log b' := by
  have hcall {s : Scheduling} (hs : ∃ bundle r, Schedules env b bundle r b' ∧
        (bundle.intentBundle.getAllCommittedAccounts.map (·.pubkey)).Nodup)
      (hint : b'.context.scheduledBaseIntents = b.context.scheduledBaseIntents ++ [s.intent])
      (hrsv : b'.reserved = b.reserved ++ s.reserved) :
      Schedules env b s.intent s.reserved b' := by
    obtain ⟨bundle, r, hs, -⟩ := hs
    obtain rfl : bundle = s.intent :=
      List.singleton_inj.mp (List.append_cancel_left (hs.queue.symm.trans hint))
    obtain rfl : r = s.reserved := List.append_cancel_left (hs.reserved.symm.trans hrsv)
    exact hs
  cases h with
  | scheduleCommit ctx undelegate hok hint hrsv =>
    exact of_schedules (hcall (schedules_processScheduleCommit hok) hint hrsv)
  | scheduleIntentBundle ctx args secure hok hint hrsv =>
    exact of_schedules (hcall (schedules_processScheduleIntentBundle hok) hint hrsv)
  | addActionCallback ctx args hok => exact of_amends (amends_processAddActionCallback hok)
  | acceptScheduledCommits ctx hok =>
    obtain ⟨popped, -, hacpt⟩ := accepts_processAcceptScheduledCommits hok
    exact of_accepts hacpt
  | otherProgram accounts hseq => exact quiet rfl (fun a _ => hseq a) suffix_rfl

theorem of_executes (h : Executes env b log b') : Logged env session b log b' := by
  induction h with
  | nil b => exact quiet rfl (fun _ _ => rfl) suffix_rfl
  | cons hstep _ ih => exact (of_instructionStep hstep).trans ih

theorem mono (h : Logged env session b log b')
    (hsub : ∀ a, session' a → session a) : Logged env session' b log b' :=
  { h with countsUp := fun ha => h.countsUp (hsub _ ha) }

end Logged

/-- **Every run is logged**, on the accounts that stayed in one session. -/
theorem logged_of_run (h : (bankMachine env b₀).Run es b) :
    Logged env (fun a => .materialized a ∉ es) b₀ (scheduled es) b := by
  refine Machine.Run.invariant ?_ ?_ h
  · rintro _ rfl
    exact .quiet rfl (fun _ _ => rfl) suffix_rfl
  · intro es b e b' _ ih hstep
    rw [scheduled, List.flatMap_append, List.flatMap_singleton]
    refine (ih.mono fun a ha hmem => ha (List.mem_append_left _ hmem)).trans ?_
    cases hstep with
    | transaction hexec => exact .of_executes hexec
    | rolledBack => exact .quiet rfl (fun _ _ => rfl) suffix_rfl
    | materialized a account =>
      refine .quiet rfl (fun a' ha' => ?_) suffix_rfl
      have hne : a' ≠ a := by
        rintro rfl
        exact ha' (List.mem_append_right _ (List.mem_singleton_self _))
      exact congrArg AccountSharedData.commitSeq (Function.update_of_ne hne ..)

/-! ### Main result -/

/-- An intent takes at most one id from an account. -/
theorem length_commitIdsOf_le (h : (r.map (·.account)).Nodup)
    (a : Pubkey) : (commitIdsOf a r).length ≤ 1 := by
  have hcnt := List.nodup_iff_count_le_one.mp h a
  rw [List.count_eq_countP, List.countP_map, List.countP_eq_length_filter] at hcnt
  rw [commitIdsOf, List.length_map]
  simpa [Function.comp_def, beq_eq_decide] using hcnt

/-- The intents of an account's ids are among all intents, each once and in order. -/
theorem commitLog_intents_sublist (h : ∀ s ∈ log, (s.reserved.map (·.account)).Nodup) :
    (commitLog a log).map Prod.fst <+ handedOut log := by
  induction log with
  | nil => exact List.Sublist.slnil
  | cons s log ih =>
    obtain ⟨hs, hlog⟩ := List.forall_mem_cons.mp h
    have hone : (commitLog a [s]).map Prod.fst <+ handedOut [s] := by
      have hle := length_commitIdsOf_le hs a
      rcases hids : commitIdsOf a s.reserved with _ | ⟨n, _ | _⟩
      · simp [commitLog, hids]
      · simp [commitLog, hids, handedOut]
      · simp [hids] at hle
    rw [← List.singleton_append, commitLog_append, map_append, handedOut, map_append]
    exact hone.append (ih hlog)

/-- Ids that have not wrapped are strictly increasing. -/
theorem Logged.pairwise_handedOut
    (h : Logged env session b log b') (hwrap : b.context.intentId + log.length ≤ 2 ^ 64) :
    (handedOut log).Pairwise (· < ·) := by
  rw [h.ids, List.pairwise_map]
  refine List.pairwise_lt_range.imp_of_mem fun {i j} _ hj hij => ?_
  have hlt : b.context.intentId + j < 2 ^ 64 :=
    Nat.lt_of_lt_of_le (Nat.add_lt_add_left (List.mem_range.mp hj) _) hwrap
  have hij : b.context.intentId + i < b.context.intentId + j := Nat.add_lt_add_left hij _
  rwa [Nat.mod_eq_of_lt (hij.trans hlt), Nat.mod_eq_of_lt hlt]

/-- **Commit ids are gap-free and follow intent order** — over every history of transactions:
intent ids count up from the first one, modulo 64 bits, and strictly increase until they wrap; the
ids taken from an account's counter during one delegation session are consecutive, each belongs to
one intent, and they grow with the intents; they are the ids stored in those intents, and the queue
holds the last of these intents as they were scheduled. -/
theorem commitIds_gapFree {env : ProgramEnv} {b₀ b : Bank} {es : List BankEvent}
    (h : (bankMachine env b₀).Run es b) :
    handedOut (scheduled es) = (List.range (scheduled es).length).map
        (fun k => (b₀.context.intentId + k) % 2 ^ 64) ∧
      (b₀.context.intentId + (scheduled es).length ≤ 2 ^ 64 →
        (handedOut (scheduled es)).Pairwise (· < ·)) ∧
      (∀ a, .materialized a ∉ es →
        (commitLog a (scheduled es)).map Prod.snd = List.range' ((b₀.accounts a).commitSeq + 1)
            (commitLog a (scheduled es)).length ∧
          (commitLog a (scheduled es)).map Prod.fst <+ handedOut (scheduled es)) ∧
      (∀ s ∈ scheduled es, Forall₂ (CommitsAs env)
        s.intent.intentBundle.getAllCommittedAccounts s.reserved) ∧
      b.context.scheduledBaseIntents.map (·.commits) <:+
        (b₀.context.scheduledBaseIntents ++ (scheduled es).map (·.intent)).map (·.commits) := by
  have hlog := logged_of_run h
  refine ⟨hlog.ids, hlog.pairwise_handedOut, fun a ha => ⟨?_, ?_⟩, fun s hs => hlog.stored hs,
    hlog.queue⟩
  · have hrange := (hlog.countsUp ha).eq_range
    rwa [List.length_map] at hrange
  · exact commitLog_intents_sublist fun s hs => hlog.distinct hs

/-! ### Two commits -/

namespace ProgramExample

/-- A validator whose program ids are small numbers; account 20 is the ATA that maps to 21. -/
def env : ProgramEnv where
  programId := 1
  authority := 2
  magicContextPubkey := 3
  magicFeeVaultPubkey := 4
  delegationProgramId := 5
  outboxIntentProgramId := 6
  systemProgramId := 0
  tokenProgramId := 7
  token2022ProgramId := 8
  eataProgramId := 9
  callbackSigner := 10
  tryDeriveEataAddressAndBump _ _ := some (21, 255)
  deriveAtaWithTokenProgram _ _ _ := 20
  outboxIntentPdaWithBump _ := (22, 255)
  minimumBalance n := n
  isIntentWithinLimits _ := true
  contextFits context := context.scheduledBaseIntents.length ≤ 2
  acceptsCommitSeq _ _ := true
  allowsLifecycle _ _ := true
  outboxToBytes _ := none
  outboxFromBytes _ := none
  outboxFromBytes_of_toBytes h := nomatch h
  outboxFromBytes_nil := rfl

def account (mode : AccountMode) (owner : Pubkey) (data : List UInt8) : AccountSharedData where
  lamports := 0
  data := data
  owner := owner
  executable := false
  rentEpoch := 0
  mode := mode
  slot := 0
  commitSeq := 0

/-- The ATA 20 and the eATA 21 are delegated; the rest is mirrored. -/
def bank (context : MagicContext) : Bank where
  accounts a :=
    if a = 20 then account .delegated 7 (List.replicate 72 0)
    else if a = 21 then account .delegated 9 []
    else account .mirrored 0 []
  context := context
  reserved := []

/-- An instruction with payer 30, signed by the payer and the validator, on one more account. -/
def ctx (committee : Pubkey) : InvokeContext where
  programKey := 1
  accounts := [⟨30, true⟩, ⟨3, true⟩, ⟨committee, true⟩]
  signers := [30, 2]
  effectiveCaller := .ok none
  clock := some 0
  blockhash := 0

def commit (committee : Pubkey) (b : Bank) : Bank :=
  ((processScheduleCommit env (ctx committee) false).outcome b).2

/-- Two transactions, one commit each. -/
theorem run_commit_commit (c d : Pubkey) (b : Bank)
    (h : ((processScheduleCommit env (ctx c) false).outcome b).1 = .ok ())
    (h' : ((processScheduleCommit env (ctx d) false).outcome (commit c b)).1 = .ok ()) :
    ∃ s s', (bankMachine env b).Run [.transaction [s], .transaction [s']] (commit d (commit c b)) ∧
      handedOut [s, s'] = [b.context.intentId, (commit c b).context.intentId] := by
  obtain ⟨bundle, r, hs, -⟩ := schedules_processScheduleCommit (Exec.ok_of_outcome h)
  obtain ⟨bundle', r', hs', -⟩ := schedules_processScheduleCommit (Exec.ok_of_outcome h')
  refine ⟨⟨bundle, r⟩, ⟨bundle', r'⟩, ?_, ?_⟩
  · have hstep : BankStep env b (.transaction [⟨bundle, r⟩]) (commit c b) :=
      .transaction (.cons (.scheduleCommit _ _ (Exec.ok_of_outcome h) hs.queue hs.reserved)
        (.nil _))
    have hstep' : BankStep env (commit c b) (.transaction [⟨bundle', r'⟩])
        (commit d (commit c b)) :=
      .transaction (.cons (.scheduleCommit _ _ (Exec.ok_of_outcome h') hs'.queue hs'.reserved)
        (.nil _))
    exact .step (.step (.start rfl) hstep) hstep'
  · simp [handedOut, hs.intentId, hs'.intentId]

end ProgramExample

open ProgramExample in
/-- **Where the counter ends** — after the last 64-bit id the next intent gets id 0. -/
theorem intentIds_wrap :
    ∃ es b, (bankMachine env (bank ⟨2 ^ 64 - 1, [], by decide⟩)).Run es b ∧
      handedOut (scheduled es) = [2 ^ 64 - 1, 0] := by
  obtain ⟨s, s', hrun, hids⟩ := run_commit_commit 20 21 (bank ⟨2 ^ 64 - 1, [], by decide⟩)
    (by decide +kernel) (by decide +kernel)
  exact ⟨_, _, hrun, hids.trans (by decide +kernel)⟩

open ProgramExample in
/-- Two commits of the ATA: its counter gives 1 and then 2. -/
theorem commitIds_gapFree_of_two :
    ∃ es b, (bankMachine env (bank {})).Run es b ∧
      (b.context.scheduledBaseIntents.map fun i => i.commits.2.map (·.commitId)) = [[1], [2]] ∧
      (commitLog 20 (scheduled es)).map Prod.snd =
        List.range' 1 (commitLog 20 (scheduled es)).length := by
  obtain ⟨s, s', hrun, -⟩ := run_commit_commit 20 20 (bank {})
    (by decide +kernel) (by decide +kernel)
  obtain ⟨-, -, hgap, -⟩ := commitIds_gapFree hrun
  exact ⟨_, _, hrun, by decide +kernel, (hgap 20 (by simp)).1⟩

end Magicblock
