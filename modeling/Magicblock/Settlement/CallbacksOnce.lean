import Magicblock.Settlement.Attempts

/-!
# Settlement/CallbacksOnce — each callback is scheduled once

At every moment of an execution the callbacks already handed to their scheduler and those still with
the tasks are together no more than the intent has; likewise the actions that failed for good and
those still to be run.  Moves keep both accounts, and an attempt that has reported callbacks is not
repeated.
-/

namespace Magicblock

open List TransactionExecutor

open Multiset (coe_add coe_eq_coe coe_le)

/-! ### What a log has reported -/

namespace Event

/-- The callbacks an event hands to their scheduler. -/
def callbacks : Event → Multiset BaseActionCallback
  | reported _ callbacks _ => callbacks
  | _ => 0

/-- The actions an event reports as failed, other than by a timeout. -/
def failedActions : Event → Multiset Task
  | reported actions _ (some failure) => if failure = .timeoutError then 0 else actionsOf actions
  | _ => 0

end Event

def scheduledCallbacks (log : List Event) : Multiset BaseActionCallback :=
  (log.map Event.callbacks).sum

def failedActions (log : List Event) : Multiset Task := (log.map Event.failedActions).sum

/-- Nothing is submitted that has failed before: failed and submitted actions are together no more
than the intent has. -/
def SubmitsUnfailed (intent : ScheduledIntentBundle) (log : List Event) : Prop :=
  ∀ before p tasks after, log = before ++ .submitted p tasks :: after →
    failedActions before + actionsOf tasks ≤ (actionsOf intent.actionTasks : Multiset Task)

theorem scheduledCallbacks_append :
    scheduledCallbacks (log ++ log') = scheduledCallbacks log + scheduledCallbacks log' := by
  simp [scheduledCallbacks]

theorem failedActions_append :
    failedActions (log ++ log') = failedActions log + failedActions log' := by
  simp [failedActions]

theorem scheduledCallbacks_concat :
    scheduledCallbacks (log ++ [e]) = scheduledCallbacks log + e.callbacks := by
  simp [scheduledCallbacks]

theorem failedActions_concat :
    failedActions (log ++ [e]) = failedActions log + e.failedActions := by
  simp [failedActions]

/-- Only reports count. -/
theorem scheduledCallbacks_of_reports (h : reports log = []) : scheduledCallbacks log = 0 := by
  refine sum_eq_zero fun m hm => ?_
  obtain ⟨e, he, rfl⟩ := mem_map.mp hm
  have hkind := filter_eq_nil_iff.mp h e he
  cases e with
  | reported => exact absurd rfl hkind
  | _ => rfl

theorem failedActions_of_reports (h : reports log = []) : failedActions log = 0 := by
  refine sum_eq_zero fun m hm => ?_
  obtain ⟨e, he, rfl⟩ := mem_map.mp hm
  have hkind := filter_eq_nil_iff.mp h e he
  cases e with
  | reported => exact absurd rfl hkind
  | _ => rfl

theorem submitsUnfailed_nil : SubmitsUnfailed intent [] := by
  intro before p tasks after heq
  cases (nil_eq_append_iff.mp heq).2

theorem SubmitsUnfailed.append (h : SubmitsUnfailed intent log)
    (h' : ∀ before p tasks after, log' = before ++ .submitted p tasks :: after →
      failedActions log + failedActions before + actionsOf tasks ≤
        (actionsOf intent.actionTasks : Multiset Task)) :
    SubmitsUnfailed intent (log ++ log') := by
  intro before p tasks after heq
  rcases append_eq_append_cons heq with ⟨after', rfl⟩ | ⟨middle, rfl, rfl⟩
  · exact h before p tasks after' rfl
  · rw [failedActions_append]
    exact h' middle p tasks after rfl

theorem SubmitsUnfailed.concat (h : SubmitsUnfailed intent log)
    (he : ∀ p tasks, e = .submitted p tasks → failedActions log + actionsOf tasks ≤
      (actionsOf intent.actionTasks : Multiset Task)) :
    SubmitsUnfailed intent (log ++ [e]) := by
  intro before p tasks after heq
  rcases concat_eq_append_cons heq with ⟨after', -, hlog⟩ | ⟨rfl, rfl, -⟩
  · exact h before p tasks after' hlog
  · exact he p tasks rfl

/-! ### The account -/

/-- **The account of an execution.** -/
structure Accounted (intent : ScheduledIntentBundle) (s : Session) : Prop where
  callbacks : scheduledCallbacks s.log + callbacksOf s.executor.allTasks ≤
    (callbacksOf intent.actionTasks : Multiset BaseActionCallback)
  actions : failedActions s.log + actionsOf s.executor.allTasks ≤
    (actionsOf intent.actionTasks : Multiset Task)
  submitted : SubmitsUnfailed intent s.log

section

variable {intent : ScheduledIntentBundle} {s : Session}

theorem callbacksOf_subperm (h : tasks.Subperm tasks') :
    (callbacksOf tasks : Multiset BaseActionCallback) ≤ callbacksOf tasks' :=
  Multiset.filterMap_le_filterMap _ (coe_le.mpr h)

theorem actionsOf_subperm (h : tasks.Subperm tasks') :
    (actionsOf tasks : Multiset Task) ≤ actionsOf tasks' :=
  Multiset.map_le_map (coe_le.mpr (h.filter _))

theorem callbacksOf_filter_isBaseAction :
    (callbacksOf (tasks.filter Task.isBaseAction) : Multiset BaseActionCallback) =
    callbacksOf tasks := by
  refine congrArg _ ?_
  rw [callbacksOf, callbacksOf, filterMap_filter]
  refine filterMap_congr fun t _ => ?_
  cases t with
  | baseAction => rfl
  | _ => rfl

theorem actionsOf_filter_isBaseAction :
    (actionsOf (tasks.filter Task.isBaseAction) : Multiset Task) = actionsOf tasks := by
  rw [actionsOf, actionsOf, filter_filter]
  simp

/-- Work that goes away. -/
theorem Accounted.shrink (h : Accounted intent s) (hx : x.allTasks.Subperm s.executor.allTasks) :
    Accounted intent { s with executor := x } where
  callbacks := (add_le_add le_rfl (callbacksOf_subperm hx)).trans h.callbacks
  actions := (add_le_add le_rfl (actionsOf_subperm hx)).trans h.actions
  submitted := h.submitted

/-- An event that reports nothing. -/
theorem Accounted.emit (h : Accounted intent s) (hcbs : e.callbacks = 0)
    (hfail : e.failedActions = 0)
    (hsubm : ∀ p tasks, e = .submitted p tasks → tasks = s.executor.current.tasks) :
    Accounted intent { s with log := s.log ++ [e] } where
  callbacks := by
    rw [scheduledCallbacks_concat, hcbs, add_zero]
    exact h.callbacks
  actions := by
    rw [failedActions_concat, hfail, add_zero]
    exact h.actions
  submitted := by
    refine h.submitted.concat fun p tasks heq => le_trans ?_ h.actions
    rw [hsubm p tasks heq]
    exact add_le_add le_rfl (actionsOf_subperm (sublist_append_left ..).subperm)

theorem scheduledCallbacks_reportCallbacks :
    scheduledCallbacks (s.reportCallbacks ctx gone sig res).log =
      scheduledCallbacks s.log + callbacksOf gone := by
  unfold Session.reportCallbacks
  split_ifs with hemp
  · rw [isEmpty_iff.mp hemp]
    exact (add_zero _).symm
  · exact scheduledCallbacks_concat

/-- What a report counts as failed goes with what is kept. -/
theorem failedActions_reportCallbacks_le (h : Yields (failure res) tasks gone kept) :
    failedActions (s.reportCallbacks ctx gone sig res).log + actionsOf kept ≤
      failedActions s.log + (actionsOf tasks : Multiset Task) := by
  have hkept : (actionsOf kept : Multiset Task) ≤ actionsOf tasks := coe_le.mpr h.actions
  unfold Session.reportCallbacks
  split_ifs
  · exact add_le_add le_rfl hkept
  · rw [failedActions_concat, add_assoc]
    refine add_le_add le_rfl ?_
    rcases res with failure | -
    · by_cases htim : failure = .timeoutError
      · refine le_trans (le_of_eq ?_) hkept
        exact (congrArg (· + _) (if_pos htim)).trans (zero_add _)
      · refine le_trans (le_of_eq (congrArg (· + _) (if_neg htim))) ?_
        exact coe_le.mpr (h.failed nofun fun heq => htim (Option.some.inj heq))
    · exact (zero_add _).trans_le hkept

theorem submitsUnfailed_reportCallbacks (h : SubmitsUnfailed intent s.log) :
    SubmitsUnfailed intent (s.reportCallbacks ctx gone sig res).log := by
  unfold Session.reportCallbacks
  split_ifs
  · exact h
  · exact h.concat fun p tasks heq => by cases heq

/-- Callbacks are taken out of `tasks`, a part of the work, and reported. -/
theorem Accounted.report (h : Accounted intent s)
    (hy : Yields (failure res) tasks gone kept) (hs : s.executor.allTasks.Perm (tasks ++ rest))
    (hx : x.allTasks.Perm (kept ++ rest)) :
    Accounted intent { s.reportCallbacks ctx gone sig res with executor := x } where
  callbacks := by
    have hperm (l l' : List Task) (hl : l.Perm (l' ++ rest)) :
        (callbacksOf l : Multiset BaseActionCallback) = callbacksOf l' + callbacksOf rest := by
      rw [coe_add, ← callbacksOf_append]
      exact coe_eq_coe.mpr (hl.filterMap _)
    refine le_trans ?_ h.callbacks
    rw [scheduledCallbacks_reportCallbacks, hperm _ _ hs, hperm _ _ hx, add_assoc,
      ← add_assoc (callbacksOf gone : Multiset BaseActionCallback)]
    exact add_le_add le_rfl (add_le_add (coe_le.mpr hy.callbacks) le_rfl)
  actions := by
    have hperm (l l' : List Task) (hl : l.Perm (l' ++ rest)) :
        (actionsOf l : Multiset Task) = actionsOf l' + actionsOf rest := by
      rw [coe_add, ← actionsOf_append]
      exact coe_eq_coe.mpr ((hl.filter _).map _)
    refine le_trans ?_ h.actions
    rw [hperm _ _ hs, hperm _ _ hx, ← add_assoc, ← add_assoc]
    exact add_le_add (failedActions_reportCallbacks_le hy) le_rfl
  submitted := submitsUnfailed_reportCallbacks h.submitted

/-- The work is planned. -/
theorem Accounted.start (h : SubmitsUnfailed intent s.log)
    (hreps : reports s.log = []) (hx : Planned intent x) :
    Accounted intent { s with executor := x } where
  callbacks := by
    rw [scheduledCallbacks_of_reports hreps, zero_add]
    exact callbacksOf_filter_isBaseAction.symm.trans_le (callbacksOf_subperm hx.1.actions)
  actions := by
    rw [failedActions_of_reports hreps, zero_add]
    exact actionsOf_filter_isBaseAction.symm.trans_le (actionsOf_subperm hx.1.actions)
  submitted := h

/-- **Moves keep the account.** -/
theorem Moves.accounted (h : Moves ctx intent mends s s') (hs : Accounted intent s) :
    Accounted intent s' := by
  refine h.keeps (Accounted intent) ?_ hs
  intro s₁ s₂ hs₁ hmove
  cases hmove with
  | aside h =>
    have hts : s₂.executor.allTasks = s₁.executor.allTasks := by
      rw [allTasks, h.current, h.followUp]
      rfl
    exact ⟨by rw [h.log, hts]; exact hs₁.callbacks, by rw [h.log, hts]; exact hs₁.actions,
      by rw [h.log]; exact hs₁.submitted⟩
  | note h =>
    rename_i e
    refine hs₁.emit ?_ ?_ fun p tasks heq => by rw [heq] at h; cases h
    all_goals
      cases e with
      | reported => cases h
      | _ => rfl
  | legacy => exact hs₁.emit rfl rfl fun p tasks heq => by cases heq
  | store => exact ⟨hs₁.callbacks, hs₁.actions, hs₁.submitted⟩
  | submit =>
    exact hs₁.emit rfl rfl fun p tasks heq => (Event.submitted.inj heq).2.symm
  | trimCurrent h => exact hs₁.report h .rfl .rfl
  | trimFollowUp hfu h =>
    rename_i followUp _ _ _ _
    have hs : s₁.executor.allTasks = s₁.executor.current.tasks ++ followUp.tasks := by
      rw [allTasks, hfu]
      rfl
    exact hs₁.report h (hs ▸ perm_append_comm) perm_append_comm
  | split h =>
    refine hs₁.shrink (List.Perm.subperm ?_)
    rw [allTasks, allTasks, h]
    exact .of_eq ((take_append_drop ..).trans (append_nil _).symm)
  | advance h =>
    refine hs₁.shrink (List.Sublist.subperm ?_)
    rw [allTasks, allTasks, h]
    exact (append_nil _).symm ▸ sublist_append_right ..
  | start _ hreps h => exact .start hs₁.submitted hreps h

/-! ### Reports end a run -/

/-- Every call of the callbacks' scheduler leaves a trace in the report. -/
theorem reported_reportCallbacks (hsch : ∀ callbacks sig res,
      (ctx.schedule callbacks sig res).length = callbacks.length)
    (hs : s.report.callbacksReport = [] → reports s.log = []) :
    (s.reportCallbacks ctx tasks sig res).report.callbacksReport = [] →
      reports (s.reportCallbacks ctx tasks sig res).log = [] := by
  unfold Session.reportCallbacks
  split_ifs with hemp
  · exact hs
  · intro hrep
    have hnone := congrArg length (append_eq_nil_iff.mp hrep).2
    rw [hsch] at hnone
    exact absurd (isEmpty_iff.mpr (eq_nil_of_length_eq_zero hnone)) hemp

theorem Moves.reported (h : Moves ctx intent mends s s')
    (hsch : ∀ callbacks sig res, (ctx.schedule callbacks sig res).length = callbacks.length)
    (hs : reports s.log = []) (hrep : s'.report.callbacksReport = []) :
    reports s'.log = [] := by
  refine h.keeps (fun s' => s'.report.callbacksReport = [] → reports s'.log = []) ?_ (fun _ => hs)
    hrep
  intro s₁ s₂ hs₁ hmove
  cases hmove with
  | aside h => rw [h.callbacksReport, h.log]; exact hs₁
  | note h => exact fun hnone => (reports_note h).trans (hs₁ hnone)
  | legacy | submit =>
    exact fun hnone => (reports_concat fun _ _ _ heq => by cases heq).trans (hs₁ hnone)
  | trimCurrent | trimFollowUp => exact reported_reportCallbacks hsch hs₁
  | _ => exact hs₁

/-! ### Runs -/

/-- **What a log may report**: no callback twice, and no action that failed is submitted again. -/
structure ReportsOnce (intent : ScheduledIntentBundle) (log : List Event) : Prop where
  callbacks : scheduledCallbacks log ≤ callbacksOf intent.actionTasks
  submitted : SubmitsUnfailed intent log

theorem ReportsOnce.append (h : ReportsOnce intent log)
    (hnone : reports log = []) (h' : ReportsOnce intent log') :
    ReportsOnce intent (log ++ log') where
  callbacks := by
    rw [scheduledCallbacks_append, scheduledCallbacks_of_reports hnone, zero_add]
    exact h'.callbacks
  submitted := by
    refine h.submitted.append fun before p tasks after heq => ?_
    rw [failedActions_of_reports hnone, zero_add]
    exact h'.submitted before p tasks after heq

theorem reportsOnce_of_reports (hnone : reports log = [])
    (h : SubmitsUnfailed intent log) : ReportsOnce intent log :=
  ⟨by rw [scheduledCallbacks_of_reports hnone]; exact Multiset.zero_le _, h⟩

theorem Opening.submitsUnfailed (h : Opening log) : SubmitsUnfailed intent log := by
  rintro before p tasks after rfl
  cases h _ (mem_append_right _ mem_cons_self)

theorem reportsOnce_runAttempt {work : ScheduledIntentBundle} {intent stored : OutboxIntentBundle}
    {opening : List Event} (h : Resumes work intent stored opening) :
    ReportsOnce work (runAttempt ctx fuel intent (some stored) opening answers).2.log := by
  have hstart : Accounted work { answers := answers, outbox := some stored, log := opening } :=
    .start (s := { answers := answers, outbox := some stored, log := opening })
      h.opening.submitsUnfailed (reports_opening h.opening)
      ⟨⟨nil_subperm, nil_subset _⟩, rfl⟩
  rcases ends_runAttempt ctx fuel answers h with hmov | ⟨hmov, hlog, -, -⟩
  · have hs := hmov.accounted hstart
    exact ⟨le_trans (Multiset.le_add_right ..) hs.callbacks, hs.submitted⟩
  · rename_i failure
    have hs := (hmov.accounted hstart).emit (e := .notified failure) rfl rfl
      fun p tasks heq => by cases heq
    rw [hlog]
    exact ⟨le_trans (Multiset.le_add_right ..) hs.callbacks, hs.submitted⟩

end

/-- **Each callback is scheduled once.**  In a run with retries the callbacks handed to their
scheduler are together no more than the intent has, and the actions reported as failed, other than
by a timeout, together with those of any transaction submitted later are no more than the intent
has. -/
theorem callbacks_once (ctx : ExecutionContext)
    (hsch : ∀ callbacks sig res, (ctx.schedule callbacks sig res).length = callbacks.length)
    (fuel : ℕ) (bundle : OutboxIntentBundle) (attempts : List Attempt) :
    ReportsOnce bundle.inner (executeWithRetries ctx fuel 1 bundle (some bundle) attempts).1 :=
  executeWithRetries_log (reportsOnce_of_reports rfl submitsUnfailed_nil)
    (fun _ _ h hnone h' => h.append hnone h') (fun _ _ _ answers => reportsOnce_runAttempt)
    (fun _ _ _ _ _ _ _ h hrun hretr => by
      obtain ⟨hmov, hrep, -⟩ := retried_runAttempt h hrun hretr
      exact hmov.reported hsch (reports_opening h.opening) hrep)
    attempts rfl rfl Nat.one_pos fun _ => rfl

open SettlementExample in
/-- The callback of an action that failed. -/
theorem callbacks_once_action :
    scheduledCallbacks failedActionLog = {⟨5, [], [], 0, []⟩} ∧
      ReportsOnce actionBundle.inner failedActionLog :=
  ⟨by decide +kernel, callbacks_once ctx (fun _ _ _ => List.length_map _) 9 actionBundle
    [failedAction]⟩

end Magicblock
