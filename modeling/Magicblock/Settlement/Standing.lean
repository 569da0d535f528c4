import Magicblock.Settlement.Session

/-!
# Settlement/Standing — where the settlement of an intent stands

What the safety of a run depends on, without the code: the stage the outbox holds, the log, the
confirmed commit, the tasks that remain and the transaction under way.  A run is in one of three
modes — combined, commits before a follow-up, follow-up — and every write it makes belongs to its
mode.  `Permitted` says which events are safe at which moment; the lemmas carry a standing from one
moment of a transaction's life to the next.
-/

namespace Magicblock

open Option List PendingExecution

/-! ### The log -/

namespace Event

/-- The transaction an event submits. -/
def submission : Event → Option Signature
  | submitted transaction _ => some transaction.signature
  | _ => none

/-- The transaction an event records. -/
def record : Event → Option Signature
  | recorded transaction => some transaction.signature
  | _ => none

/-- The transaction an event shows to have landed. -/
def success : Event → Option Signature
  | confirmed signature => some signature
  | _ => none

/-- The transaction an event settles. -/
def verdict : Event → Option Signature
  | confirmed signature | rejected signature => some signature
  | _ => none

end Event

/-- **Transactions without a verdict**, oldest first, of those that `opens` picks out and the one
the starting status tells of. -/
def unresolved (opens : Event → Option Signature) (start : OutboxIntentBundleStatus)
    (log : List Event) : List Signature :=
  log.foldl (fun signatures e =>
      signatures.filter (e.verdict ≠ some ·) ++ (opens e).toList)
    ((PendingExecution.fromStatus start).map (·.transaction.signature)).toList

/-- A transaction with the commits is known to have landed. -/
def CommitsSettled (start : OutboxIntentBundleStatus) (log : List Event) : Prop :=
  (∃ pending, PendingExecution.fromStatus start = some pending ∧ pending.confirmedCommit.isSome) ∨
    ∃ signature, .confirmed signature ∈ log

/-- `commit` is known to have landed. -/
def CommitConfirmed (start : OutboxIntentBundleStatus) (log : List Event) (commit : Signature) :
    Prop :=
  (∃ pending, PendingExecution.fromStatus start = some pending ∧
      pending.confirmedCommit = some commit) ∨
    .confirmed commit ∈ log

/-- So far the outbox has told all: no read failed, and no write has outlived its await. -/
def Undisturbed (log : List Event) : Prop := .fetchFailed ∉ log ∧ .detached ∉ log

/-- **What may happen after `log`**: only allowed stages are written; commits are not submitted
after they have landed; nothing is submitted while the fate of another transaction is open. -/
def Permitted (start : OutboxIntentBundleStatus) (log : List Event) : Event → Prop
  | .stageRequested stored stage =>
    Undisturbed log → ∃ status, stored = some status ∧ (status.applyStageTransition stage).isOk
  | .submitted transaction tasks =>
    (CommitsSettled start log → CommitFree tasks) ∧
      unresolved Event.submission start log = [] ∧
      (Undisturbed log → unresolved Event.record start log = [transaction.signature])
  | _ => True

/-- Every event was permitted when it happened. -/
def LogOk (start : OutboxIntentBundleStatus) (log : List Event) : Prop :=
  ∀ before e after, log = before ++ e :: after → Permitted start before e

theorem LogOk.concat (h : LogOk start log) (he : Permitted start log e) :
    LogOk start (log ++ [e]) := by
  intro before e' after heq
  rcases concat_eq_append_cons heq with ⟨after', -, hlog⟩ | ⟨rfl, rfl, -⟩
  · exact h before e' after' hlog
  · exact he

theorem unresolved_concat : unresolved opens start (log ++ [e]) =
    (unresolved opens start log).filter (e.verdict ≠ some ·) ++ (opens e).toList :=
  foldl_concat ..

/-- An event that settles nothing. -/
theorem unresolved_open (he : e.verdict = none) :
    unresolved opens start (log ++ [e]) = unresolved opens start log ++ (opens e).toList := by
  rw [unresolved_concat, he]
  simp

/-- The verdict on the only open transaction. -/
theorem unresolved_verdict {p : PendingTransaction}
    (hlog : unresolved opens start log = (sent.map (·.signature)).toList)
    (hsent : ∀ q, sent = some q → q = p) (he : e.verdict = some p.signature)
    (hopens : opens e = none) : unresolved opens start (log ++ [e]) = [] := by
  rw [unresolved_concat, hlog, he, hopens, toList_none, append_nil, filter_eq_nil_iff]
  intro sig hmem
  obtain ⟨q, hq, rfl⟩ := map_eq_some_iff.mp (mem_toList.mp hmem)
  simp [hsent q hq]

theorem CommitsSettled.of_concat (h : CommitsSettled start (log ++ [e])) (he : e.success = none) :
    CommitsSettled start log := by
  refine h.imp_right fun ⟨sig, hmem⟩ => ⟨sig, ?_⟩
  rcases mem_append.mp hmem with hmem | hmem
  · exact hmem
  · rw [← mem_singleton.mp hmem] at he
    cases he

theorem CommitConfirmed.concat (h : CommitConfirmed start log commit) :
    CommitConfirmed start (log ++ [e]) commit :=
  h.imp_right fun hmem => mem_append_left _ hmem

theorem Undisturbed.of_concat (h : Undisturbed (log ++ [e])) : Undisturbed log :=
  ⟨fun hmem => h.1 (mem_append_left _ hmem), fun hmem => h.2 (mem_append_left _ hmem)⟩

/-! ### Modes -/

/-- **The mode of an executor**: combined, commits before a follow-up, or the follow-up of a
confirmed commit. -/
structure Mode where
  confirmedCommit : Option Signature
  hasFollowUp : Bool

namespace Mode

def pending (m : Mode) (p : PendingTransaction) : PendingExecution :=
  ⟨p, m.confirmedCommit, m.hasFollowUp⟩

/-- The stage that records a transaction. -/
def stage (m : Mode) (p : PendingTransaction) : ExecutionStage := (m.pending p).intoStage

/-- The outbox takes whatever transaction this mode records. -/
def Admits (m : Mode) (status : OutboxIntentBundleStatus) : Prop :=
  ∀ p, (status.applyStageTransition (m.stage p)).isOk

end Mode

namespace Mode

variable {m : Mode}

theorem pendingTransaction_stage : (m.stage p).pendingTransaction = p := by
  obtain ⟨_ | commit, _ | _⟩ := m <;> rfl

/-- What a mode has recorded can be replaced in the same mode. -/
theorem admits_stage : m.Admits (.executing (m.stage p)) := by
  intro q
  obtain ⟨_ | commit, _ | _⟩ := m <;>
    simp [stage, pending, intoStage, OutboxIntentBundleStatus.applyStageTransition,
      ExecutionStage.applyStageTransition, TwoStageProgress.applyStageTransition] <;> rfl

/-- A combined transaction may be split. -/
theorem Admits.split (h : (Mode.mk none false).Admits status) :
    (Mode.mk none true).Admits status := by
  intro q
  have hq := h q
  rcases status with _ | (_ | (_ | _))
  · rfl
  · rfl
  · cases hq
  · cases hq

/-- The follow-up of the recorded commits. -/
theorem admits_followUp (h : PendingExecution.fromStatus status = some ⟨p, none, true⟩) :
    (Mode.mk (some p.signature) false).Admits status := by
  intro q
  rcases status with _ | (_ | (_ | _))
  · cases h
  · cases h
  · obtain rfl := (PendingExecution.mk.inj (some.inj h)).1
    simp [stage, pending, PendingExecution.intoStage, OutboxIntentBundleStatus.applyStageTransition,
      ExecutionStage.applyStageTransition, TwoStageProgress.applyStageTransition]
    rfl
  · cases h

/-- A status that tells of a transaction is the stage that records it. -/
theorem eq_executing_of_fromStatus {pending : PendingExecution}
    (h : fromStatus status = some pending) :
    status = .executing pending.intoStage := by
  rcases status with _ | (_ | (_ | _))
  · cases h
  all_goals
    cases h
    rfl

/-- An intent that was only accepted is in no mode yet. -/
theorem admits_accepted (h : fromStatus status = none)
    (hm : m.confirmedCommit = none) : m.Admits status := by
  intro q
  obtain ⟨commit, _ | _⟩ := m
  all_goals
    obtain rfl : commit = none := hm
    rcases status with _ | (_ | (_ | _))
  all_goals
    first
    | rfl
    | cases h

theorem fromStatus_stage (hm : m.confirmedCommit.isSome → m.hasFollowUp = false) :
    fromStatus (.executing (m.stage p)) = some (m.pending p) := by
  obtain ⟨_ | commit, _ | _⟩ := m
  · rfl
  · rfl
  · rfl
  · cases hm rfl

/-- A recorded transaction that looks like one of this mode is one of this mode. -/
theorem Admits.eq_pending (h : m.Admits status) {pending : PendingExecution}
    (hstat : fromStatus status = some pending)
    (hfu : pending.hasFollowUp = m.hasFollowUp)
    (hcom : pending.confirmedCommit.isSome = m.confirmedCommit.isSome) :
    pending = m.pending pending.transaction := by
  obtain ⟨transaction, commit, hasFollowUp⟩ := pending
  obtain ⟨commit', hasFollowUp'⟩ := m
  obtain rfl : hasFollowUp = hasFollowUp' := hfu
  obtain rfl : commit = commit' := by
    rcases commit with _ | commit <;> rcases commit' with _ | commit'
    · rfl
    · cases hcom
    · cases hcom
    · have hok := h transaction
      rw [eq_executing_of_fromStatus hstat] at hok
      by_contra hne
      have hne : commit ≠ commit' := fun heq => hne (congrArg some heq)
      simp [stage, Mode.pending, intoStage, hne,
        OutboxIntentBundleStatus.applyStageTransition, ExecutionStage.applyStageTransition,
        TwoStageProgress.applyStageTransition, Except.mapError, Except.map, Except.isOk,
        Except.toBool] at hok
  rfl

end Mode

/-! ### Standings -/

structure Standing where
  status : Option OutboxIntentBundleStatus
  /-- No write is detached. -/
  quiet : Bool
  log : List Event
  confirmedCommit : Option Signature
  tasks : List Task
  followUp : Option (List Task)

def Session.standing (s : Session) : Standing where
  status := s.outbox.map (·.status)
  quiet := s.detached.isEmpty
  log := s.log
  confirmedCommit := s.confirmedCommit
  tasks := s.executor.current.tasks
  followUp := s.executor.followUp.map (·.tasks)

namespace Standing

def mode (v : Standing) : Mode := ⟨v.confirmedCommit, v.followUp.isSome⟩

/-- The outbox holds `p`, recorded in mode `m`. -/
def Holds (v : Standing) (m : Mode) (p : PendingTransaction) : Prop :=
  v.status.bind PendingExecution.fromStatus = some (m.pending p)

/-- **What holds at every moment**: the log is as permitted, and a commit is taken for confirmed
only if it is. -/
structure Sound (start : OutboxIntentBundleStatus) (v : Standing) : Prop where
  logOk : LogOk start v.log
  confirmed (commit : Signature) : v.confirmedCommit = some commit →
    CommitConfirmed start v.log commit

/-- **What holds throughout a transaction's life**: commits are neither in a follow-up nor left over
after a confirmed commit, and the outbox takes what this mode records. -/
structure Base (start : OutboxIntentBundleStatus) (m : Mode) (v : Standing) : Prop extends
    Sound start v where
  mode : v.mode = m
  followUp (tasks : List Task) : v.followUp = some tasks → CommitFree tasks
  followed : m.confirmedCommit.isSome → CommitFree v.tasks ∧ m.hasFollowUp = false
  quiet : Undisturbed v.log → v.quiet
  admits : Undisturbed v.log → ∃ status, v.status = some status ∧ m.Admits status

/-- **A moment of a transaction's life**: `sent` is submitted and not settled, `noted` is recorded
and not settled, as far as the outbox tells. -/
structure At (start : OutboxIntentBundleStatus) (m : Mode) (sent noted : Option PendingTransaction)
    (v : Standing) : Prop extends Base start m v where
  settled : CommitsSettled start v.log → m.confirmedCommit.isSome
  submitted : unresolved Event.submission start v.log = (sent.map (·.signature)).toList
  recorded : Undisturbed v.log →
    unresolved Event.record start v.log = (noted.map (·.signature)).toList
  holds (p : PendingTransaction) : Undisturbed v.log → noted = some p → v.Holds m p

/-- **Where an interrupted run can be taken up**: the transaction `pending` is the recorded one, and
no other is under way. -/
def Coherent (start : OutboxIntentBundleStatus) (m : Mode) (pending : Option PendingTransaction)
    (v : Standing) : Prop :=
  (∃ sent noted, At start m sent noted v ∧ ∀ p, sent = some p → pending = some p) ∧
    ∀ p, Undisturbed v.log → pending = some p → v.Holds m p

/-- The transaction of this mode is settled, by `signature`. -/
structure Done (start : OutboxIntentBundleStatus) (m : Mode) (signature : Signature)
    (v : Standing) : Prop extends Base start m v where
  landed : CommitConfirmed start v.log signature
  submitted : unresolved Event.submission start v.log = []
  recorded : Undisturbed v.log → unresolved Event.record start v.log = []
  holds : Undisturbed v.log → m.confirmedCommit = none → ∃ p, p.signature = signature ∧ v.Holds m p

variable {v v' : Standing} {pending : Option PendingTransaction}

theorem Holds.inj (hp : v.Holds m p) (hq : v.Holds m q) : p = q :=
  (PendingExecution.mk.inj (some.inj (hp.symm.trans hq))).1

/-! ### From one moment to the next -/

theorem Base.emit (h : Base start m v) (he : Permitted start v.log e) :
    Base start m { v with log := v.log ++ [e] } where
  logOk := h.logOk.concat he
  mode := h.mode
  followUp := h.followUp
  followed := h.followed
  confirmed commit hcom := (h.confirmed commit hcom).concat
  quiet hu := h.quiet hu.of_concat
  admits hu := h.admits hu.of_concat

/-- Something happens that opens and settles nothing. -/
theorem At.emit (h : At start m sent noted v) (he : Permitted start v.log e)
    (hsucc : e.success = none) (hverd : e.verdict = none) (hsubm : e.submission = none)
    (hrec : Undisturbed v.log → e.record = none) :
    At start m sent noted { v with log := v.log ++ [e] } where
  toBase := h.toBase.emit he
  settled hs := h.settled (hs.of_concat hsucc)
  submitted := (unresolved_open hverd).trans (by simpa [hsubm] using h.submitted)
  recorded hu := (unresolved_open hverd).trans (by
    simpa [hrec hu.of_concat] using h.recorded hu.of_concat)
  holds p hu := h.holds p hu.of_concat

/-- Once the outbox does not tell all, it may hold anything. -/
theorem At.unsettle {status : Option OutboxIntentBundleStatus} {quiet : Bool}
    (h : At start m sent noted v) (hu : ¬ Undisturbed v.log) :
    At start m sent noted { v with status := status, quiet := quiet } where
  logOk := h.logOk
  mode := h.mode
  followUp := h.followUp
  followed := h.followed
  confirmed := h.confirmed
  quiet hu' := absurd hu' hu
  admits hu' := absurd hu' hu
  settled := h.settled
  submitted := h.submitted
  recorded hu' := absurd hu' hu
  holds _ hu' := absurd hu' hu

/-- A stage is handed to the outbox. -/
theorem At.requestStage (h : At start m sent noted v) :
    At start m sent noted { v with log := v.log ++ [.stageRequested v.status (m.stage p)] } := by
  refine h.emit (fun hu => ?_) rfl rfl rfl fun _ => rfl
  obtain ⟨status, hstat, hadms⟩ := h.admits hu
  exact ⟨status, hstat, hadms p⟩

/-- The outbox records a transaction. -/
theorem At.record (h : At start m none none v) : At start m none (some p)
    { v with status := some (.executing (m.stage p)), log := v.log ++ [.recorded p] } where
  logOk := h.logOk.concat trivial
  mode := h.mode
  followUp := h.followUp
  followed := h.followed
  confirmed commit hcom := (h.confirmed commit hcom).concat
  quiet hu := h.quiet hu.of_concat
  admits _ := ⟨_, rfl, Mode.admits_stage⟩
  settled hs := h.settled (hs.of_concat rfl)
  submitted := (unresolved_open rfl).trans (by simpa [Event.submission] using h.submitted)
  recorded hu := (unresolved_open rfl).trans (by
    simpa [Event.record] using h.recorded hu.of_concat)
  holds q _ hq := by
    cases hq
    exact Mode.fromStatus_stage fun hcom => (h.followed hcom).2

/-- The recorded transaction is submitted. -/
theorem At.submit (h : At start m none (some p) v) :
    At start m (some p) (some p) { v with log := v.log ++ [.submitted p v.tasks] } where
  toBase := h.toBase.emit ⟨fun hs => (h.followed (h.settled hs)).1, h.submitted, h.recorded⟩
  settled hs := h.settled (hs.of_concat rfl)
  submitted := (unresolved_open rfl).trans (by simpa [Event.submission] using h.submitted)
  recorded hu := (unresolved_open rfl).trans (by
    simpa [Event.record] using h.recorded hu.of_concat)
  holds q hu := h.holds q hu.of_concat

section

variable (h : At start m sent noted v) (hsent : ∀ q, sent = some q → q = p)
  (hnoted : Undisturbed v.log → ∀ q, noted = some q → q = p)

include h hsent hnoted

/-- The only open transaction has landed. -/
theorem At.confirm (hholds : Undisturbed v.log → v.Holds m p) :
    Done start m p.signature { v with log := v.log ++ [.confirmed p.signature] } where
  toBase := h.toBase.emit trivial
  landed := .inr mem_concat_self
  submitted := unresolved_verdict h.submitted hsent rfl rfl
  recorded hu := unresolved_verdict (h.recorded hu.of_concat) (hnoted hu.of_concat) rfl rfl
  holds hu _ := ⟨p, rfl, hholds hu.of_concat⟩

/-- The only open transaction is dead. -/
theorem At.reject : At start m none none { v with log := v.log ++ [.rejected p.signature] } where
  toBase := h.toBase.emit trivial
  settled hs := h.settled (hs.of_concat rfl)
  submitted := unresolved_verdict h.submitted hsent rfl rfl
  recorded hu := unresolved_verdict (h.recorded hu.of_concat) (hnoted hu.of_concat) rfl rfl
  holds _ _ := nofun

end

/-! ### Taking up a run -/

theorem At.coherent (h : At start m sent noted v) (hsent : ∀ p, sent = some p → noted = some p) :
    Coherent start m sent v :=
  ⟨⟨sent, noted, h, fun _ => id⟩, fun p hu hp => h.holds p hu (hsent p hp)⟩

theorem Coherent.base (h : Coherent start m pending v) : Base start m v := by
  obtain ⟨⟨sent, noted, hat, -⟩, -⟩ := h
  exact hat.toBase

theorem Coherent.emit (h : Coherent start m pending v) (he : Permitted start v.log e)
    (hsucc : e.success = none) (hverd : e.verdict = none) (hsubm : e.submission = none)
    (hrec : Undisturbed v.log → e.record = none) :
    Coherent start m pending { v with log := v.log ++ [e] } := by
  obtain ⟨⟨sent, noted, hat, hsent⟩, hholds⟩ := h
  exact ⟨⟨sent, noted, hat.emit he hsucc hverd hsubm hrec, hsent⟩,
    fun p hu => hholds p hu.of_concat⟩

theorem Coherent.unsettle {status : Option OutboxIntentBundleStatus} {quiet : Bool}
    (h : Coherent start m pending v) (hu : ¬ Undisturbed v.log) :
    Coherent start m pending { v with status := status, quiet := quiet } := by
  obtain ⟨⟨sent, noted, hat, hsent⟩, -⟩ := h
  exact ⟨⟨sent, noted, hat.unsettle hu, hsent⟩, fun p hu' => absurd hu' hu⟩

/-- A verdict on the pending transaction: nothing else is open. -/
theorem Coherent.only (h : Coherent start m (some p) v) : ∃ sent noted, At start m sent noted v ∧
    (∀ q, sent = some q → q = p) ∧ (Undisturbed v.log → ∀ q, noted = some q → q = p) := by
  obtain ⟨⟨sent, noted, hat, hsent⟩, hholds⟩ := h
  refine ⟨sent, noted, hat, fun q hq => ?_, fun hu q hq => ?_⟩
  · exact (some.inj (hsent q hq)).symm
  · exact (hat.holds q hu hq).inj (hholds p hu rfl)

theorem Coherent.confirm (h : Coherent start m (some p) v) :
    Done start m p.signature { v with log := v.log ++ [.confirmed p.signature] } := by
  obtain ⟨sent, noted, hat, hsent, hnoted⟩ := h.only
  exact hat.confirm hsent hnoted fun hu => h.2 p hu rfl

theorem Coherent.reject (h : Coherent start m (some p) v) :
    At start m none none { v with log := v.log ++ [.rejected p.signature] } := by
  obtain ⟨sent, noted, hat, hsent, hnoted⟩ := h.only
  exact hat.reject hsent hnoted

/-- What `recover_pending_from_outbox` makes of the outbox. -/
def found (v : Standing) : Option PendingTransaction :=
  ((v.status.bind PendingExecution.fromStatus).filter fun pending =>
    pending.hasFollowUp = v.followUp.isSome ∧
      pending.confirmedCommit.isSome = v.confirmedCommit.isSome).map (·.transaction)

theorem Base.holds_of_found (h : Base start m v) (hu : Undisturbed v.log)
    (hfound : v.found = some p) : v.Holds m p := by
  obtain ⟨pending, hpend, rfl⟩ := map_eq_some_iff.mp hfound
  obtain ⟨hpend, hkind⟩ := filter_eq_some_iff.mp hpend
  obtain ⟨hfu, hcom⟩ := of_decide_eq_true hkind
  obtain ⟨status, hstat, hadms⟩ := h.admits hu
  rw [hstat, bind_some] at hpend
  obtain rfl := h.mode
  rw [Holds, hstat, bind_some, hpend]
  exact congrArg some (hadms.eq_pending hpend hfu hcom)

theorem Base.found_of_holds (h : Base start m v) (hp : v.Holds m p) : v.found = some p := by
  obtain rfl := h.mode
  rw [found, hp]
  simp [Mode.pending, Standing.mode]

/-- The recorded transaction is taken up again. -/
theorem Coherent.takeUp (h : Coherent start m none v) : Coherent start m v.found v := by
  obtain ⟨⟨sent, noted, hat, hsent⟩, -⟩ := h
  exact ⟨⟨sent, noted, hat, fun p hp => nomatch hsent p hp⟩,
    fun p hu hp => hat.toBase.holds_of_found hu hp⟩

/-- Nothing to be taken up. -/
theorem Coherent.idle (h : Coherent start m none v) (hfound : Undisturbed v.log → v.found = none) :
    At start m none none v := by
  obtain ⟨⟨sent, noted, hat, hsent⟩, -⟩ := h
  obtain rfl : sent = none := eq_none_iff_forall_ne_some.mpr fun p hp => nomatch hsent p hp
  refine { hat with recorded := fun hu => ?_, holds := fun _ _ => nofun }
  rcases noted with _ | p
  · exact hat.recorded hu
  · have hp := hat.toBase.found_of_holds (hat.holds p hu rfl)
    cases hp.symm.trans (hfound hu)

/-- Nothing remains to be done after the commits. -/
theorem At.done (h : At start m none none v)
    (hcom : m.confirmedCommit = some commit) : Done start m commit v :=
  { h with
    landed := h.confirmed commit (by rwa [← congrArg Mode.confirmedCommit h.mode] at hcom)
    holds := fun _ hnone => nomatch hcom.symm.trans hnone }

/-- Something happens that concerns no transaction. -/
theorem Done.emit (h : Done start m sig v) (he : Permitted start v.log e)
    (hverd : e.verdict = none) (hsubm : e.submission = none) (hrec : e.record = none) :
    Done start m sig { v with log := v.log ++ [e] } where
  toBase := h.toBase.emit he
  landed := h.landed.concat
  submitted := (unresolved_open hverd).trans (by simpa [hsubm] using h.submitted)
  recorded hu := (unresolved_open hverd).trans (by
    simpa [hrec] using h.recorded hu.of_concat)
  holds hu := h.holds hu.of_concat

/-! ### Changing the work -/

/-- Callbacks or tasks are taken out, and no commit comes in. -/
structure Trims (v v' : Standing) : Prop where
  rest : v' = { v with tasks := v'.tasks, followUp := v'.followUp }
  tasks : CommitFree v.tasks → CommitFree v'.tasks
  hasFollowUp : v'.followUp.isSome = v.followUp.isSome
  followUp (tasks' : List Task) : v'.followUp = some tasks' →
    ∃ tasks, v.followUp = some tasks ∧ (CommitFree tasks → CommitFree tasks')

theorem Base.trim (h : Base start m v) (ht : Trims v v') : Base start m v' := by
  obtain ⟨hrest, hts, hhas, hfu⟩ := ht
  rw [hrest]
  refine { h with mode := ?_, followUp := fun tasks' hts' => ?_, followed := fun hcom => ?_ }
  · rw [← h.mode, Standing.mode, hhas]
    rfl
  · obtain ⟨tasks, heq, hfree⟩ := hfu tasks' hts'
    exact hfree (h.followUp tasks heq)
  · exact (h.followed hcom).imp_left hts

theorem Trims.log (ht : Trims v v') : v'.log = v.log := by rw [ht.rest]

theorem Trims.holds (ht : Trims v v') : v'.Holds m p ↔ v.Holds m p := by rw [ht.rest]; rfl

theorem At.trim (h : At start m sent noted v) (ht : Trims v v') : At start m sent noted v' where
  toBase := h.toBase.trim ht
  settled := ht.log ▸ h.settled
  submitted := ht.log ▸ h.submitted
  recorded := ht.log ▸ h.recorded
  holds p hu hp := ht.holds.mpr (h.holds p (ht.log ▸ hu) hp)

theorem Coherent.trim (h : Coherent start m pending v) (ht : Trims v v') :
    Coherent start m pending v' := by
  obtain ⟨⟨sent, noted, hat, hsent⟩, hholds⟩ := h
  exact ⟨⟨sent, noted, hat.trim ht, hsent⟩, fun p hu hp => ht.holds.mpr (hholds p (ht.log ▸ hu) hp)⟩

theorem Done.trim (h : Done start m sig v) (ht : Trims v v') : Done start m sig v' where
  toBase := h.toBase.trim ht
  landed := ht.log ▸ h.landed
  submitted := ht.log ▸ h.submitted
  recorded := ht.log ▸ h.recorded
  holds hu hcom := by
    obtain ⟨p, hp, hholds⟩ := h.holds (ht.log ▸ hu) hcom
    exact ⟨p, hp, ht.holds.mpr hholds⟩

/-- A combined transaction is split at its last commit. -/
theorem At.split {tasks followUp : List Task} (h : At start ⟨none, false⟩ none none v)
    (hfu : CommitFree followUp) : At start ⟨none, true⟩ none none
      { v with tasks := tasks, followUp := some followUp } where
  logOk := h.logOk
  mode := by
    have hcom : v.confirmedCommit = none := congrArg Mode.confirmedCommit h.mode
    simp [Standing.mode, hcom]
  followUp tasks hts := some.inj hts ▸ hfu
  followed := nofun
  confirmed := h.confirmed
  quiet := h.quiet
  admits hu := by
    obtain ⟨status, hstat, hadms⟩ := h.admits hu
    exact ⟨status, hstat, hadms.split⟩
  settled := h.settled
  submitted := h.submitted
  recorded := h.recorded
  holds _ _ := nofun

/-- The work is planned anew, in the same mode. -/
theorem At.replan {tasks : List Task} {followUp : Option (List Task)}
    (h : At start m none none v) (hhas : followUp.isSome = m.hasFollowUp)
    (hfu : ∀ tasks', followUp = some tasks' → CommitFree tasks')
    (hts : m.confirmedCommit.isSome → CommitFree tasks) :
    At start m none none { v with tasks := tasks, followUp := followUp } :=
  { h with
    mode := by
      have hcom : v.confirmedCommit = m.confirmedCommit := congrArg Mode.confirmedCommit h.mode
      rw [Standing.mode, hhas, hcom]
    followUp := hfu
    followed := fun hcom => ⟨hts hcom, (h.followed hcom).2⟩
    holds := fun _ _ => nofun }

/-- The commits have landed and the follow-up is next. -/
theorem Done.advance {followUp : List Task} (h : Done start m sig v)
    (hfu : v.followUp = some followUp) : At start ⟨some sig, false⟩ none none
      { v with confirmedCommit := some sig, tasks := followUp, followUp := none } where
  logOk := h.logOk
  mode := rfl
  followUp := nofun
  followed _ := ⟨h.followUp followUp hfu, rfl⟩
  confirmed commit hcom := some.inj hcom ▸ h.landed
  quiet := h.quiet
  admits hu := by
    have hmode : m = ⟨none, true⟩ := by
      have hhas : m.hasFollowUp = true := by rw [← h.mode, Standing.mode, hfu]; rfl
      have hcom : m.confirmedCommit = none := by
        by_contra hne
        have hfalse := (h.followed (isSome_iff_ne_none.mpr hne)).2
        exact Bool.false_ne_true (hfalse.symm.trans hhas)
      obtain ⟨commit, hasFollowUp⟩ := m
      obtain rfl : commit = none := hcom
      obtain rfl : hasFollowUp = true := hhas
      rfl
    subst hmode
    obtain ⟨p, rfl, hholds⟩ := h.holds hu rfl
    obtain ⟨status, hstat, hpend⟩ := bind_eq_some_iff.mp hholds
    exact ⟨status, hstat, Mode.admits_followUp hpend⟩
  settled _ := rfl
  submitted := h.submitted
  recorded := h.recorded
  holds _ _ := nofun

end Standing

end Magicblock
