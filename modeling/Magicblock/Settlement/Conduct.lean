import Magicblock.Settlement.Runner
import Magicblock.Settlement.Standing

/-!
# Settlement/Conduct — the executor keeps to what is permitted

One guarantee for each function of the executor, over the standings it meets and leaves.  Whatever
the environment answers, a transaction is recorded, submitted and settled before the next; an await
cut off by the deadline of the callbacks leaves a standing the executor can take up.
-/

namespace Magicblock

open Standing Exec Option

namespace Session

/-- An interrupted run can be taken up. -/
def Coherent (start : OutboxIntentBundleStatus) (m : Mode) (s : Session) : Prop :=
  Standing.Coherent start m s.executor.pendingTransaction s.standing

/-- Nothing is under way. -/
def Idle (start : OutboxIntentBundleStatus) (m : Mode) (s : Session) : Prop :=
  At start m none none s.standing ∧ s.executor.pendingTransaction = none

/-- **However code stops**, it has kept to what is permitted; cancelled code can be taken up. -/
def Stopped (start : OutboxIntentBundleStatus) (m : Mode) (halt : Halt) (s : Session) : Prop :=
  Sound start s.standing ∧ (halt = .timedOut → s.Coherent start m)

end Session

variable {start : OutboxIntentBundleStatus} {m : Mode} {s : Session} {p : PendingTransaction}
  {α : Type}

theorem Session.Coherent.stopped (h : s.Coherent start m) : s.Stopped start m halt :=
  ⟨h.base.toSound, fun _ => h⟩

theorem Session.Idle.coherent (h : s.Idle start m) : s.Coherent start m := by
  have hat := h.1.coherent fun _ => id
  rwa [← h.2] at hat

/-! ### Waiting -/

/-- What a detached write and the finalize of a legacy commit cannot spoil. -/
structure Patient (R : Standing → Prop) : Prop where
  unsettle {v : Standing} {status : Option OutboxIntentBundleStatus} {quiet : Bool} :
    R v → v.quiet = false → R { v with status := status, quiet := quiet }
  record {v : Standing} {status : Option OutboxIntentBundleStatus} {quiet : Bool}
    {p : PendingTransaction} : R v → v.quiet = false →
      R { v with status := status, quiet := quiet, log := v.log ++ [.recorded p] }
  mend {v : Standing} {event : LegacyEvent} : R v → R { v with log := v.log ++ [.legacy event] }

theorem Standing.Base.disturbed (h : Base start m v) (hqt : v.quiet = false) :
    ¬ Undisturbed v.log :=
  fun hu => Bool.false_ne_true (hqt.symm.trans (h.quiet hu))

theorem patient_at : Patient (At start m sent noted) where
  unsettle h hqt := h.unsettle (h.disturbed hqt)
  record {_ _ _ p} h hqt := by
    have hu := h.disturbed hqt
    have hrec := h.emit (e := .recorded p) trivial rfl rfl rfl fun hu' => absurd hu' hu
    exact hrec.unsettle fun hu' => hu hu'.of_concat
  mend h := h.emit trivial rfl rfl rfl fun _ => rfl

theorem patient_coherent : Patient (Standing.Coherent start m pending) where
  unsettle h hqt := h.unsettle (h.base.disturbed hqt)
  record {_ _ _ p} h hqt := by
    have hu := h.base.disturbed hqt
    have hrec := h.emit (e := .recorded p) trivial rfl rfl rfl fun hu' => absurd hu' hu
    exact hrec.unsettle fun hu' => hu hu'.of_concat
  mend h := h.emit trivial rfl rfl rfl fun _ => rfl

theorem patient_sound : Patient (Sound start) where
  unsettle h _ := ⟨h.logOk, h.confirmed⟩
  record h _ := ⟨h.logOk.concat trivial, fun commit hcom => (h.confirmed commit hcom).concat⟩
  mend h := ⟨h.logOk.concat trivial, fun commit hcom => (h.confirmed commit hcom).concat⟩

variable {nonces : List (Pubkey × ℕ)}

theorem status_of_staged (h : s.staged stage nonces = some bundle) :
    bundle.status = .executing stage := by
  obtain ⟨stored, -, h⟩ := bind_eq_some_iff.mp h
  rcases hstag : stored.applyStageTransition stage nonces with err | bundle'
  · rw [hstag] at h
    cases h
  · rw [hstag] at h
    cases h
    obtain ⟨status, hstat, rfl⟩ := Except.map_eq_ok.mp hstag
    exact (OutboxIntentBundleStatus.advance_of_applyStageTransition hstat).1

theorem standing_land (h : (s.staged stage nonces).isSome) :
    (s.land stage nonces).standing = { s.standing with
      status := some (.executing stage),
      log := s.log ++ [.recorded stage.pendingTransaction] } := by
  obtain ⟨bundle, hbun⟩ := isSome_iff_exists.mp h
  rw [Session.land, hbun, ← status_of_staged hbun]
  rfl

theorem land_of_refused (h : ¬ (s.staged stage nonces).isSome) : s.land stage nonces = s := by
  rw [Session.land, not_isSome_iff_eq_none.mp h]
  rfl

theorem executor_land : (s.land stage nonces).executor = s.executor := by
  unfold Session.land
  rcases s.staged stage nonces with _ | bundle <;> rfl

theorem Patient.arrive (hR : Patient R) (h : R s.standing) : R s.arrive.standing := by
  unfold Session.arrive
  rcases hdet : s.detached with _ | ⟨⟨stage, nonces⟩, rest⟩
  · exact h
  · have hqt : s.standing.quiet = false := by simp [Session.standing, hdet]
    dsimp only
    by_cases hstag : (Session.staged { s with detached := rest } stage nonces).isSome
    · rw [standing_land hstag]
      exact hR.record h hqt
    · rw [land_of_refused hstag]
      exact hR.unsettle h hqt

theorem executor_arrive : s.arrive.executor = s.executor := by
  unfold Session.arrive
  rcases s.detached with _ | ⟨⟨stage, nonces⟩, rest⟩
  · rfl
  · exact executor_land

namespace Settle

/-- While the code waits, `R` and the executor stay as they are. -/
def Waits (R : Standing → Prop) (s s' : Session) : Prop :=
  R s'.standing ∧ s'.executor = s.executor

theorem meets_nextOf (hR : Patient R)
    (h : R s.standing) : (nextOf answers).Meets s (fun _ => Waits R s)
      fun halt s' => halt = .stopped ∧ Waits R s s' := by
  induction answers using nextOf.induct generalizing s with
  | case1 => exact ⟨rfl, h, rfl⟩
  | case2 rest ih =>
    rw [nextOf, meets_bind, meets_modify]
    exact (ih (hR.arrive h)).mono (fun _ _ hs' => ⟨hs'.1, hs'.2.trans executor_arrive⟩)
      fun _ _ hs' => ⟨hs'.1, hs'.2.1, hs'.2.2.trans executor_arrive⟩
  | case3 answer rest hne =>
    rw [nextOf, meets_bind, meets_modify, meets_pure]
    · exact ⟨h, rfl⟩
    · exact hne

theorem meets_next (hR : Patient R) (h : R s.standing) :
    next.Meets s (fun _ => Waits R s) fun halt s' => halt = .stopped ∧ Waits R s s' := by
  rw [next, meets_bind, meets_get]
  exact meets_nextOf hR h

theorem meets_await (hR : Patient R) (h : R s.standing) :
    (await f).Meets s (fun _ => Waits R s) fun _ => Waits R s := by
  rw [await, meets_bind]
  refine (meets_next hR h).mono (fun answer s' hs' => ?_) fun _ _ hs' => hs'.2
  split
  · exact meets_interrupt fun _ => hs'
  · exact meets_ofOption.mpr ⟨fun _ _ => hs', fun _ => hs'⟩

/-- A wait while nothing is under way. -/
theorem meets_await_idle (h : s.Idle start m) :
    (await f).Meets s (fun _ s' => s'.Idle start m ∧ s'.executor = s.executor)
      (Session.Stopped start m) := by
  refine (meets_await patient_at h.1).mono (fun _ s' hs' => ?_) fun _ s' hs' => ?_
  · exact ⟨⟨hs'.1, hs'.2 ▸ h.2⟩, hs'.2⟩
  · exact (Session.Idle.coherent ⟨hs'.1, hs'.2 ▸ h.2⟩).stopped

theorem meets_await_coherent (h : s.Coherent start m) :
    (await f).Meets s (fun _ s' => s'.Coherent start m ∧ s'.executor = s.executor)
      (Session.Stopped start m) := by
  refine (meets_await patient_coherent h).mono (fun _ s' hs' => ?_) fun _ s' hs' => ?_
  · exact ⟨by rw [Session.Coherent, hs'.2]; exact hs'.1, hs'.2⟩
  · exact Session.Coherent.stopped (by rw [Session.Coherent, hs'.2]; exact hs'.1)

/-! ### Legacy commits -/

section Legacy

variable {R : Standing → Prop} (hR : Patient R)

include hR

theorem meets_finalizeLegacyCommit (h : R s.standing) :
    (finalizeLegacyCommit acc).Meets s (fun _ => Waits R s) fun _ => Waits R s := by
  rw [finalizeLegacyCommit]
  refine .bind (meets_await hR h) fun _ s₁ h₁ => ?_
  refine meets_orFail_bind (fun _ _ => ?_) fun _ => h₁
  have hsign (outcome) (s₂) (h₂ : Waits R s₁ s₂) :
      Waits R s { s₂ with log := s₂.log ++ [.legacy (.signed acc outcome)] } :=
    ⟨hR.mend h₂.1, h₂.2.trans h₁.2⟩
  rw [meets_handle]
  refine (meets_await hR h₁.1).mono (fun res s₂ h₂ => ?_) fun _ s₂ h₂ => hsign _ s₂ h₂
  exact meets_orFail (fun _ _ => hsign _ s₂ h₂) fun _ => hsign _ s₂ h₂

theorem meets_finalizeEach (h : R s.standing) :
    (finalizeEach accs).Meets s (fun _ => Waits R s) fun _ => Waits R s := by
  induction accs generalizing s with
  | nil => exact ⟨h, rfl⟩
  | cons acc rest ih =>
    rw [finalizeEach]
    refine .bind (meets_finalizeLegacyCommit hR h) fun _ s₁ h₁ => ?_
    have htrans (s₂) (h₂ : Waits R s₁ s₂) : Waits R s s₂ := ⟨h₂.1, h₂.2.trans h₁.2⟩
    exact (ih h₁.1).mono (fun _ => htrans) fun _ => htrans

theorem meets_finalizeUnfinalized (h : R s.standing) :
    (finalizeUnfinalized accs).Meets s (fun _ => Waits R s) fun _ => Waits R s := by
  rw [finalizeUnfinalized, meets_bind, emit, meets_modify]
  exact meets_finalizeEach hR (hR.mend h)

end Legacy

/-! ### Writing a stage -/

theorem at_land (h : At start m none none s.standing)
    (hstag : (s.staged (m.stage p) nonces).isSome) :
    At start m none (some p) (s.land (m.stage p) nonces).standing := by
  rw [standing_land hstag, Mode.pendingTransaction_stage]
  exact h.record

theorem coherent_land (h : s.Idle start m) : (s.land (m.stage p) nonces).Coherent start m := by
  by_cases hstag : (s.staged (m.stage p) nonces).isSome
  · rw [Session.Coherent, executor_land, h.2]
    exact (at_land h.1 hstag).coherent fun _ hp => by cases hp
  · rw [land_of_refused hstag]
    exact h.coherent

/-- A write cut off leaves what can be taken up. -/
theorem meets_cutOffStage (h : s.Idle start m) :
    (cutOffStage fate (m.stage p) nonces).Meets s (fun _ s' => s'.Coherent start m)
      (Session.Stopped start m) := by
  cases fate with
  | lost => exact h.coherent
  | landed => exact coherent_land h
  | detached =>
    have hat := h.1.emit (e := .detached) trivial rfl rfl rfl fun _ => rfl
    have hu : ¬ Undisturbed (s.log ++ [.detached]) := fun hu => hu.2 List.mem_concat_self
    refine Session.Idle.coherent ⟨?_, h.2⟩
    exact hat.unsettle hu

theorem meets_setIntentExecutionStage (h : s.Idle start m) :
    (setIntentExecutionStage (m.stage p) nonces).Meets s
      (fun _ s' => At start m none (some p) s'.standing ∧ s'.executor = s.executor)
      (Session.Stopped start m) := by
  rw [setIntentExecutionStage, meets_bind, meets_get, meets_bind, emit, meets_modify, meets_bind]
  refine (meets_next patient_at h.1.requestStage).mono (fun answer s' hs' => ?_) fun _ s' hs' => ?_
  · have hidle : s'.Idle start m := ⟨hs'.1, hs'.2 ▸ h.2⟩
    cases answer with
    | interrupted fate =>
      exact .bind (meets_cutOffStage hidle) fun _ _ hcoh => meets_interrupt fun _ => hcoh.stopped
    | stageWritten write =>
      cases write with
      | executed =>
        rw [meets_bind, meets_get, meets_ite, landStage, meets_modify]
        exact ⟨fun hstag => ⟨at_land hs'.1 hstag, executor_land.trans hs'.2⟩,
          fun _ => ⟨hs'.1.toSound, nofun⟩⟩
      | failed err landed =>
        exact .bind (meets_cutOffStage hidle) fun _ _ hcoh => hcoh.stopped
    | _ => exact hidle.coherent.stopped
  · exact (Session.Idle.coherent ⟨hs'.2.1, hs'.2.2 ▸ h.2⟩).stopped

/-! ### One transaction -/

theorem found_standing : s.standing.found = ((s.outbox.bind fun bundle =>
    PendingExecution.fromStatus bundle.status).filter fun pending =>
      pending.hasFollowUp = s.executor.followUp.isSome ∧
        pending.confirmedCommit.isSome = s.confirmedCommit.isSome).map (·.transaction) := by
  rw [Standing.found]
  simp only [Session.standing, bind_map, isSome_map]
  rfl

/-- After a look into the outbox, what is not pending is not open. -/
theorem meets_recoverPendingFromOutbox (h : s.Coherent start m)
    (hpend : s.executor.pendingTransaction = none) :
    recoverPendingFromOutbox.Meets s (fun pending s' =>
      Standing.Coherent start m pending s'.standing ∧
        (pending = none → At start m none none s'.standing)) (Session.Stopped start m) := by
  rw [recoverPendingFromOutbox]
  refine .bind (meets_await_coherent h) fun ok s' hs' => ?_
  have hnone : Standing.Coherent start m none s'.standing := by
    have hcoh := hs'.1
    rwa [Session.Coherent, hs'.2, hpend] at hcoh
  rw [meets_ite]
  constructor
  · intro _
    rw [meets_bind, meets_get, meets_pure, ← found_standing]
    exact ⟨hnone.takeUp, fun hfound => hnone.idle fun _ => hfound⟩
  · intro _
    rw [meets_bind, emit, meets_modify, meets_pure]
    have hfail := hnone.emit (e := .fetchFailed) trivial rfl rfl rfl fun _ => rfl
    exact ⟨hfail, fun _ => hfail.idle fun hu => absurd List.mem_concat_self hu.1⟩

theorem meets_reconcileOutbox {reconciled : Bool} (h : s.Coherent start m)
    (hidle : reconciled → s.executor.pendingTransaction = none → s.Idle start m) :
    (reconcileOutbox reconciled).Meets s (fun _ s' => s'.Coherent start m ∧
      (s'.executor.pendingTransaction = none → s'.Idle start m)) (Session.Stopped start m) := by
  rw [reconcileOutbox, meets_bind, meets_get, meets_ite]
  constructor
  · intro hcond
    obtain ⟨hnone, -⟩ := Bool.and_eq_true_iff.mp hcond
    refine .bind (meets_recoverPendingFromOutbox h (isNone_iff_eq_none.mp hnone))
      fun pending s' hs' => ?_
    rw [meets_bind, setExecutor, meets_modify, meets_pure]
    exact ⟨hs'.1, fun hnone => ⟨hs'.2 hnone, hnone⟩⟩
  · intro hcond
    refine meets_pure.mpr ⟨h, fun hnone => hidle ?_ hnone⟩
    rw [hnone] at hcond
    simpa using hcond

/-- The pending transaction is settled: it has landed, or nothing is under way. -/
theorem meets_settlePending (h : s.Coherent start m)
    (hidle : s.executor.pendingTransaction = none → s.Idle start m) :
    settlePending.Meets s (fun res s' => match res with
      | some sig => Done start m sig s'.standing
      | none => s'.Idle start m) (Session.Stopped start m) := by
  rw [settlePending, meets_bind, meets_get]
  rcases hpend : s.executor.pendingTransaction with _ | p
  · exact hidle hpend
  · rw [meets_bind, setTransaction, meets_modify, meets_bind, resolvePending, meets_bind]
    refine Meets.mono (meets_await_coherent (by exact h)) (fun checks s' hs' => ?_) fun _ _ => id
    rw [meets_bind, meets_ofOption]
    refine ⟨fun res _ => meets_orFail (fun landed _ => ?_) fun _ => ?_, fun _ => hs'.1.stopped⟩
    · have hcoh : Standing.Coherent start m (some p) s'.standing := by
        have hcoh := hs'.1
        rwa [Session.Coherent, hs'.2, hpend] at hcoh
      rw [meets_ite]
      exact ⟨fun _ => hcoh.confirm, fun _ => ⟨hcoh.reject, rfl⟩⟩
    · exact hs'.1.stopped

theorem meets_nothingLeft (h : s.Idle start m) (hcom : commit = m.confirmedCommit) :
    (nothingLeft commit).Meets s (fun res s' => match res with
      | some sig => Done start m sig s'.standing
      | none => s'.Idle start m) (Session.Stopped start m) := by
  rw [nothingLeft, meets_bind, meets_get, meets_ite]
  refine ⟨fun _ => ?_, fun _ => h⟩
  rcases commit with _ | sig
  · exact h
  · exact h.1.done hcom.symm

/-- The transaction is recorded before it is used. -/
theorem meets_prepareAndRecord (h : s.Idle start m) :
    (prepareAndRecord m.confirmedCommit m.hasFollowUp).Meets s (fun p s' =>
      At start m none (some p) s'.standing ∧ s'.executor.pendingTransaction = none)
      (Session.Stopped start m) := by
  rw [prepareAndRecord, meets_bind, setExecutor, meets_modify, meets_bind]
  have hidle : Session.Idle start m { s with
      executor :=
        { s.executor with
          currentAttempt := s.executor.currentAttempt + 1
          preparations := s.executor.preparations ++ [s.executor.current] } } := h
  refine (meets_await_idle hidle).mono (fun res s' hs' => ?_) fun _ _ => id
  refine meets_orFail_bind (fun p _ => ?_) fun _ => hs'.1.coherent.stopped
  rw [meets_bind, setTransaction, meets_modify, meets_bind, emit, meets_modify, meets_bind,
    meets_get, meets_bind]
  have hprep := hs'.1.1.emit (e := .prepared p) trivial rfl rfl rfl fun _ => rfl
  exact Meets.mono (meets_setIntentExecutionStage (by exact ⟨hprep, hs'.1.2⟩))
    (fun _ s'' hs'' => ⟨hs''.1, by rw [hs''.2]; exact hs'.1.2⟩) fun _ _ => id

/-- While the transaction is under way it is the pending one. -/
theorem meets_submit (h : At start m none (some p) s.standing) :
    (submit p).Meets s (fun _ s' => At start m (some p) (some p) s'.standing ∧
      s'.executor.pendingTransaction = none) (Session.Stopped start m) := by
  rw [submit, meets_bind, setExecutor, meets_modify, meets_bind, setTransaction, meets_modify,
    meets_bind, meets_get, meets_bind, emit, meets_modify, meets_bind]
  refine (meets_await patient_at h.submit).mono (fun res s' hs' => ?_) fun _ s' hs' => ?_
  · exact ⟨hs'.1, rfl⟩
  · refine Session.Coherent.stopped ?_
    rw [Session.Coherent, hs'.2]
    exact hs'.1.coherent fun _ => id

/-! ### Callbacks -/

/-- What the handling of callbacks cannot spoil. -/
structure Trimmable (R : Standing → Prop) : Prop where
  report {v : Standing} {actions : List Task} {callbacks : List BaseActionCallback}
    {failure : Option ActionError} :
    R v → R { v with log := v.log ++ [.reported actions callbacks failure] }
  trim {v v' : Standing} : R v → Trims v v' → R v'

theorem trimmable_at : Trimmable (At start m sent noted) where
  report h := h.emit trivial rfl rfl rfl fun _ => rfl
  trim h := h.trim

theorem trimmable_coherent : Trimmable (Standing.Coherent start m pending) where
  report h := h.emit trivial rfl rfl rfl fun _ => rfl
  trim h := h.trim

theorem trimmable_done : Trimmable (Done start m sig) where
  report h := h.emit trivial rfl rfl rfl
  trim h := h.trim

theorem trimmable_sound : Trimmable (Sound start) where
  report h := ⟨h.logOk.concat trivial, fun commit hcom => (h.confirmed commit hcom).concat⟩
  trim h ht := by
    rw [ht.rest]
    exact ⟨h.logOk, h.confirmed⟩

theorem meets_reportCallbacks (hR : Trimmable R) (h : R s.standing) {tasks : List Task} :
    (reportCallbacks ctx tasks callbacks sig res).Meets s (fun _ => Waits R s) E := by
  rw [reportCallbacks, meets_ite]
  exact ⟨fun _ => ⟨h, rfl⟩, fun _ => ⟨hR.report h, rfl⟩⟩

theorem commitFree_actionsResult (h : CommitFree strategy.tasks) :
    CommitFree (actionsResult ctx strategy res).2.tasks := by
  unfold actionsResult
  split
  · exact h.extractActionCallbacks
  · exact h.extractActionCallbacks
  · exact h.removeActions

theorem meets_handleActionsResult (hR : Trimmable R) (h : R s.standing) :
    (handleActionsResult ctx strategy sig res).Meets s (fun strategy' s' =>
      Waits R s s' ∧ (CommitFree strategy.tasks → CommitFree strategy'.tasks)) E := by
  rw [handleActionsResult]
  exact .bind (meets_reportCallbacks hR h) fun _ _ hs' => ⟨hs', commitFree_actionsResult⟩

theorem trims_current (h : CommitFree s.executor.current.tasks → CommitFree strategy.tasks) :
    Trims s.standing
      { s with executor := { s.executor with current := strategy } }.standing :=
  ⟨rfl, h, rfl, fun tasks hts => ⟨tasks, hts, id⟩⟩

theorem trims_followUp {followUp : TransactionStrategy} (hfu : s.executor.followUp = some followUp)
    (h : CommitFree followUp.tasks → CommitFree strategy.tasks) :
    Trims s.standing
      { s with executor := { s.executor with followUp := some strategy } }.standing where
  rest := rfl
  tasks := id
  hasFollowUp := by simp [Session.standing, hfu]
  followUp tasks' hts' := by
    cases hts'
    exact ⟨followUp.tasks, by simp [Session.standing, hfu], h⟩

theorem meets_handleFollowUpResult (hR : Trimmable R) (h : R s.standing) :
    (handleFollowUpResult ctx sig res).Meets s (fun _ s' => R s'.standing ∧
      s'.executor.pendingTransaction = s.executor.pendingTransaction) E := by
  rw [handleFollowUpResult, meets_bind, meets_get]
  split
  · rename_i followUp hfu
    refine .bind (meets_handleActionsResult hR h) fun strategy s' hs' => ?_
    obtain ⟨⟨hR', hexec⟩, hfree⟩ := hs'
    rw [← hexec] at hfu
    rw [setExecutor, meets_modify, ← hexec]
    exact ⟨hR.trim hR' (trims_followUp hfu hfree), rfl⟩
  · exact ⟨h, rfl⟩

theorem meets_executeCallbacks (hR : Trimmable R) (h : R s.standing) :
    (executeCallbacks ctx sig res).Meets s (fun _ s' => R s'.standing ∧
      s'.executor.pendingTransaction = s.executor.pendingTransaction) E := by
  rw [executeCallbacks, meets_bind, meets_get]
  refine .bind (meets_handleActionsResult hR h) fun strategy s' hs' => ?_
  obtain ⟨⟨hR', hexec⟩, hfree⟩ := hs'
  rw [meets_bind, setExecutor, meets_modify, ← hexec]
  rw [← hexec] at hfree
  exact meets_handleFollowUpResult hR (hR.trim hR' (trims_current hfree))

/-! ### Recovery -/

section Recovery

variable {err : TransactionExecutionError}

theorem meets_repairCommit (h : s.Idle start m) :
    (repairCommit current err).Meets s (fun _ s' => s'.Idle start m) (Session.Stopped start m) := by
  rw [repairCommit]
  split
  · rw [meets_bind]
    refine (meets_finalizeUnfinalized patient_at h.1).mono (fun _ s' hs' => ?_) fun _ s' hs' => ?_
    · exact ⟨hs'.1, hs'.2 ▸ h.2⟩
    · exact (Session.Idle.coherent ⟨hs'.1, hs'.2 ▸ h.2⟩).stopped
  · exact h

/-- Repairs keep the standing. -/
theorem meets_recover (h : s.Idle start m) :
    (recover ctx err).Meets s (fun _ s' => s'.Idle start m) (Session.Stopped start m) := by
  rw [recover, meets_bind, meets_get, meets_ite]
  refine ⟨fun _ => h, fun _ => ?_⟩
  split
  · refine .bind (meets_handleActionsResult trimmable_at h.1) fun strategy s' hs' => ?_
    obtain ⟨⟨hat, hexec⟩, hfree⟩ := hs'
    rw [← hexec] at hfree
    exact ⟨hat.trim (trims_current hfree),
      (congrArg TransactionExecutor.pendingTransaction hexec).trans h.2⟩
  · rw [meets_ite]
    exact ⟨fun _ => meets_repairCommit h, fun _ => h⟩
  · rw [meets_ite]
    refine ⟨fun _ => ?_, fun _ => h⟩
    rw [meets_bind, setExecutor, meets_modify, meets_bind]
    refine Meets.mono (meets_reportCallbacks trimmable_at (by
      exact h.1.trim (trims_current CommitFree.handleUndelegationError))) (fun _ _ hs' => ?_)
      fun _ _ => id
    exact ⟨hs'.1, (congrArg TransactionExecutor.pendingTransaction hs'.2).trans h.2⟩
  · exact h

/-- An error that leaves the fate of the transaction open is not repaired. -/
theorem meets_recover_open (herr : ¬ err.isRejected) (h : Q false s) :
    (recover ctx err).Meets s Q E := by
  rw [recover, meets_bind, meets_get, meets_ite]
  refine ⟨fun _ => h, fun _ => ?_⟩
  cases err with
  | internalError => exact h
  | _ => exact absurd rfl herr

/-- **What a transaction comes to**: settled, or an error that leaves nothing under way if it is a
rejection. -/
def Concludes (start : OutboxIntentBundleStatus) (m : Mode) :
    Except TransactionExecutionError Signature → Session → Prop
  | .ok signature, s => Done start m signature s.standing
  | .error err, s => Sound start s.standing ∧ (err.isRejected → s.Idle start m)

/-- …or that it is to be tried again. -/
def Proceeds (start : OutboxIntentBundleStatus) (m : Mode) :
    Option (Except TransactionExecutionError Signature) → Session → Prop
  | some result, s => Concludes start m result s
  | none, s => s.Idle start m

theorem meets_giveUpOrPatch (h : s.Idle start m) :
    (giveUpOrPatch m.confirmedCommit err).Meets s (Proceeds start m) (Session.Stopped start m) := by
  have herr : Concludes start m (.error err) s := ⟨h.1.toSound, fun _ => h⟩
  rw [giveUpOrPatch, meets_bind, meets_get]
  split
  · exact h.1.done (by assumption)
  · exact herr
  · rw [meets_ite]
    exact ⟨fun _ => herr, fun _ => h⟩

section

variable (h : At start m (some p) (some p) s.standing)
  (hpend : s.executor.pendingTransaction = none)

include h hpend

/-- The verdict an error gives. -/
theorem meets_reject (herr : err.isRejected) :
    (reject p.signature err).Meets s (fun _ s' => s'.Idle start m) (Session.Stopped start m) := by
  rw [reject, if_pos herr]
  exact ⟨h.reject (fun _ hq => (some.inj hq).symm) fun _ _ hq => (some.inj hq).symm, hpend⟩

theorem meets_afterFailure :
    (afterFailure ctx m.confirmedCommit p.signature err).Meets s (Proceeds start m)
      (Session.Stopped start m) := by
  rw [afterFailure, meets_bind]
  by_cases herr : err.isRejected
  · refine (meets_reject h hpend herr).mono (fun _ s' hs' => ?_) fun _ _ => id
    refine .bind (meets_recover hs') fun again s'' hs'' => ?_
    rw [meets_ite]
    refine ⟨fun _ => ?_, fun _ => ⟨hs''.1.toSound, fun _ => hs''⟩⟩
    exact .bind (meets_await_idle hs'') fun _ _ hs => meets_giveUpOrPatch hs.1
  · rw [reject, if_neg herr, meets_pure, meets_bind]
    refine meets_recover_open herr ?_
    exact ⟨h.toSound, fun hrej => absurd hrej herr⟩

end

/-- One attempt. -/
theorem meets_attemptTransaction (h : s.Idle start m) :
    (attemptTransaction ctx m.confirmedCommit m.hasFollowUp).Meets s (Proceeds start m)
      (Session.Stopped start m) := by
  rw [attemptTransaction]
  refine .bind (meets_prepareAndRecord h) fun p s' hs' => ?_
  refine .bind (meets_submit hs'.1) fun res s'' hs'' => ?_
  rcases res with err | _
  · exact meets_afterFailure hs''.1 hs''.2
  · exact hs''.1.confirm (fun _ hq => (some.inj hq).symm)
      (fun _ _ hq => (some.inj hq).symm) fun hu => hs''.1.holds p hu rfl

/-- **The loop over attempts**, whatever is pending when it starts. -/
theorem meets_executeCurrentLoop {reconciled : Bool} (h : s.Coherent start m)
    (hidle : reconciled → s.executor.pendingTransaction = none → s.Idle start m) :
    (executeCurrentLoop ctx m.confirmedCommit m.hasFollowUp fuel reconciled).Meets s
      (Concludes start m) (Session.Stopped start m) := by
  induction fuel generalizing s reconciled with
  | zero => exact h.stopped
  | succ fuel ih =>
    rw [executeCurrentLoop]
    refine .bind (meets_reconcileOutbox h hidle) fun reconciled s₁ h₁ => ?_
    refine .bind (meets_settlePending h₁.1 h₁.2) fun settled s₂ h₂ => ?_
    rcases settled with _ | sig
    · refine .bind (meets_nothingLeft h₂ rfl) fun commit s₃ h₃ => ?_
      rcases commit with _ | sig
      · refine .bind (meets_attemptTransaction h₃) fun res s₄ h₄ => ?_
        rcases res with _ | res
        · exact ih h₄.coherent fun _ _ => h₄
        · exact h₄
      · exact h₃
    · exact h₂

theorem meets_executeCurrent (h : s.Coherent start m) :
    (executeCurrent ctx fuel).Meets s (Concludes start m) (Session.Stopped start m) := by
  have hmode : (⟨s.confirmedCommit, s.executor.followUp.isSome⟩ : Mode) = m := by
    rw [← (Standing.Coherent.base h).mode]
    simp [Standing.mode, Session.standing]
  obtain rfl := hmode
  rw [executeCurrent, meets_bind, meets_get]
  exact meets_executeCurrentLoop h (fun h => by cases h)

end Recovery

/-! ### All transactions of an intent -/

theorem meets_expireCallbacks (h : s.Coherent start m) :
    (expireCallbacks ctx fuel).Meets s (Concludes start m) (Session.Stopped start m) := by
  rw [expireCallbacks]
  refine .bind (meets_executeCallbacks trimmable_coherent h) fun _ s' hs' => ?_
  exact meets_executeCurrent (by rw [Session.Coherent, hs'.2]; exact hs'.1)

/-- Of cancelled code only that matters which can be taken up. -/
theorem meets_timeout {Q : α → Session → Prop}
    (h : x.Meets { s with cancellable := true } Q (Session.Stopped start m))
    (hQ : ∀ a s', Q a s' → Q a { s' with cancellable := false }) :
    (timeout x).Meets s (fun res s' => match res with
      | some a => Q a s'
      | none => s'.Coherent start m) (Session.Stopped start m) := by
  rw [timeout, meets_bind, meets_modify, meets_handle]
  refine h.mono (fun a s' hs' => ?_) fun halt s' hs' => ?_
  · rw [meets_bind, meets_modify]
    exact hQ a s' hs'
  · rw [meets_bind, meets_modify]
    cases halt with
    | timedOut => exact hs'.2 rfl
    | error | stopped => exact hs'

theorem meets_timeLeft (h : s.Coherent start m) :
    timeLeft.Meets s (fun _ s' => s'.Coherent start m) (Session.Stopped start m) := by
  rw [timeLeft, meets_bind]
  refine (meets_next patient_coherent h).mono (fun answer s' hs' => ?_) fun _ s' hs' => ?_
  · have hcoh : s'.Coherent start m := by rw [Session.Coherent, hs'.2]; exact hs'.1
    cases answer with
    | timeLeft left => exact hcoh
    | _ => exact hcoh.stopped
  · exact Session.Coherent.stopped (by rw [Session.Coherent, hs'.2.2]; exact hs'.2.1)

theorem meets_executeWithTimeout (h : s.Coherent start m) :
    (executeWithTimeout ctx fuel).Meets s (Concludes start m) (Session.Stopped start m) := by
  rw [executeWithTimeout, meets_bind, meets_get, meets_ite]
  refine ⟨fun _ => ?_, fun _ => meets_executeCurrent h⟩
  refine .bind (meets_timeLeft h) fun left s' hs' => ?_
  rw [meets_ite]
  refine ⟨fun _ => ?_, fun _ => meets_expireCallbacks hs'⟩
  rw [meets_bind]
  refine Meets.mono (meets_timeout (meets_executeCurrent (by exact hs')) ?_)
    (fun res s'' hs'' => ?_) fun _ _ => id
  · intro res s'' hs''
    rcases res with err | sig
    · exact hs''
    · exact hs''
  · rcases res with _ | res
    · exact meets_expireCallbacks hs''
    · exact hs''

/-- What an attempt at a transaction comes to. -/
def Tried (start : OutboxIntentBundleStatus) (m : Mode) :
    Except IntentExecutorError (Except TransactionExecutionError Signature) → Session → Prop
  | .ok result, s => Concludes start m result s
  | .error _, s => Sound start s.standing

theorem isRejected_of_isRecoverableBySplitting {err : TransactionExecutionError}
    (h : err.isRecoverableBySplitting) : err.isRejected := by
  cases err with
  | internalError => cases h
  | _ => rfl

theorem mode_of_isCombined (h : s.Idle start m) (hcomb : s.isCombined) : m = ⟨none, false⟩ := by
  obtain ⟨hfu, hcom⟩ := Bool.and_eq_true_iff.mp hcomb
  rw [← h.1.mode, Standing.mode]
  simp [Session.standing, isNone_iff_eq_none.mp hfu, isNone_iff_eq_none.mp hcom]

/-- A split starts a new mode; otherwise nothing happens. -/
theorem meets_trySplit (h : Tried start m res s) : (trySplit ctx res).Meets s (fun split s' =>
      if split then ∃ m', s'.Coherent start m' else Tried start m res s') E := by
  rw [trySplit, meets_bind, meets_get]
  split
  · rename_i err
    rw [meets_ite]
    refine ⟨fun hcond => ?_, fun _ => h⟩
    simp only [Bool.and_eq_true] at hcond
    have hidle := h.2 (isRejected_of_isRecoverableBySplitting hcond.2)
    obtain rfl := mode_of_isCombined hidle hcond.1.1.1
    refine ⟨⟨none, true⟩, Session.Idle.coherent ⟨?_, hidle.2⟩⟩
    exact hidle.1.split commitFree_splitForFollowUp
  · exact h

theorem meets_reportResult (hR : Trimmable R) (h : R s.standing) :
    (reportResult ctx isOk res).Meets s (fun _ s' => R s'.standing) E := by
  rw [reportResult, meets_bind, meets_get, meets_ite]
  exact ⟨fun _ => (meets_executeCallbacks hR h).mono (fun _ _ hs' => hs'.1) fun _ _ => id,
    fun _ => h⟩

/-- The follow-up starts a new mode. -/
theorem meets_advance
    (h : Done start m sig s.standing) : (advance sig).Meets s (fun output s' =>
      if output.isSome then Sound start s'.standing else ∃ m', s'.Coherent start m') E := by
  rw [advance, meets_bind, meets_get]
  rcases hfu : s.executor.followUp with _ | followUp
  · exact ⟨h.logOk, h.confirmed⟩
  · refine ⟨⟨some sig, false⟩, Session.Idle.coherent ⟨?_, rfl⟩⟩
    exact h.advance (by simp [Session.standing, hfu])

theorem meets_conclude
    (h : Tried start m res s) : (conclude ctx res).Meets s (fun output s' =>
      if output.isSome then Sound start s'.standing else ∃ m', s'.Coherent start m')
      fun _ s' => Sound start s'.standing := by
  rw [conclude, meets_bind]
  rcases res with err | (err | sig)
  · exact (meets_reportResult trimmable_sound h).mono (fun _ _ hs' => hs') fun _ _ => id
  · exact (meets_reportResult trimmable_sound h.1).mono (fun _ _ hs' => hs') fun _ _ => id
  · exact (meets_reportResult trimmable_done h).mono (fun _ _ hs' => meets_advance hs')
      fun _ _ => id

/-- **The executor keeps to what is permitted**, from any standing it can take up. -/
theorem meets_execute (h : s.Coherent start m) : (execute ctx fuel).Meets s
    (fun _ s' => Sound start s'.standing) fun _ s' => Sound start s'.standing := by
  induction fuel generalizing s m with
  | zero => exact (Standing.Coherent.base h).toSound
  | succ fuel ih =>
    rw [execute, meets_bind]
    refine (meets_attempt (meets_executeWithTimeout h)).mono (fun res s₁ h₁ => ?_)
      fun _ _ hs' => hs'.1
    have htried : Tried start m res s₁ := by
      rcases res with err | res
      · exact h₁.1
      · exact h₁
    refine .bind (meets_trySplit htried) fun split s₂ h₂ => ?_
    rcases split with _ | _
    · rw [if_neg Bool.false_ne_true]
      refine .bind (meets_conclude h₂) fun output s₃ h₃ => ?_
      rcases output with _ | output
      · obtain ⟨m', h₃⟩ := h₃
        exact ih h₃
      · exact h₃
    · obtain ⟨m', h₂⟩ := h₂
      exact ih h₂

end Settle

end Magicblock
