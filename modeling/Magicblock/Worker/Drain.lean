import Magicblock.Scheduler.Progress
import Magicblock.Worker.Model

/-!
# Worker/Drain — no ready intent is missed

A blocked intent becomes ready only when an executor tells the scheduler how its intent ended, and
that executor has still to be reaped, which sets the flag.  The flag is taken back only when a pop
finds nothing.  `Attentive` is the invariant; it counts the permits, too.
-/

namespace Magicblock

open List (countP_append mem_append mem_append_left mem_cons)

namespace IntentScheduler

variable {s : IntentScheduler}

/-- **A blocked intent that heads all its queues.** -/
structure HeadsAll (s : IntentScheduler) (i : IntentID) (info : IntentMeta) : Prop where
  blocked : s.blockedIntents.lookup i = some info
  heads {k : Pubkey} (hk : k ∈ info.intent.getAllCommittedPubkeys) : (s.queue k).head? = some i

/-- What heads a queue after a bundle locked its keys, headed it before. -/
theorem head_of_head_lockKeys (hb : b.getAllCommittedPubkeys.Nodup)
    (hi : i ≠ b.intentId) (h : ((s.lockKeys b).queue k).head? = some i) :
    (s.queue k).head? = some i := by
  rw [queue_lockKeys hb] at h
  split at h
  · cases hq : s.queue k with
    | nil =>
      rw [hq] at h
      exact absurd (Option.some.inj h).symm hi
    | cons j q => simpa [hq] using h
  · exact h

end IntentScheduler

open IntentScheduler

section Scheduler

variable {L : Ledger}

/-- **Scheduling does not bring an intent to the head of its queues.** -/
theorem Wf.headsAll_of_schedule (h : Wf L s)
    (hkeys : b.getAllCommittedPubkeys.Nodup) (hfr : ∀ c ∈ L.scheduled, c.intentId ≠ b.intentId)
    (hhd : (s.schedule b).1.HeadsAll i info) : s.HeadsAll i info := by
  have hlook := h.lookup_of_fresh hfr
  have hque := h.not_queued_of_fresh hfr
  have hadm := admission_schedule h.noEmpty hlook hque
  generalize s.schedule b = r at hadm hhd
  obtain ⟨hblk, hhd⟩ := hhd
  cases hadm with
  | free | poisoned => exact ⟨hblk, hhd⟩
  | blocked hne hclean hconf =>
    by_cases hi : i = b.intentId
    · -- the new intent is behind another one on the key of the conflict
      subst hi
      rw [IntentScheduler.block, AList.lookup_insert] at hblk
      cases hblk
      obtain ⟨k, hk, hq⟩ := hconf
      have hhead : ((s.lockKeys b).queue k).head? = some b.intentId := hhd hk
      rw [queue_lockKeys hkeys, if_pos hk, List.head?_append_of_ne_nil _ hq] at hhead
      exact absurd (List.mem_of_head? hhead) (hque k)
    · rw [IntentScheduler.block, AList.lookup_insert_ne hi] at hblk
      exact ⟨hblk, fun hk => head_of_head_lockKeys hkeys hi (hhd hk)⟩
  | executes hne hclean hfree =>
    have hi : i ≠ b.intentId := by
      rintro rfl
      exact absurd (hlook.symm.trans hblk) (by simp)
    exact ⟨hblk, fun hk => head_of_head_lockKeys hkeys hi (hhd hk)⟩

/-- What is handed out has distinct keys. -/
theorem Wf.keys_of_handOut (h : Wf (L.handOut out) s) (hb : b ∈ out) :
    b.getAllCommittedPubkeys.Nodup := by
  cases hb
  exact h.keys (h.handed_sub (List.mem_append_right _ (List.mem_singleton_self b)))

theorem Ledger.scheduled_handOut : (L.handOut out).scheduled = L.scheduled := by
  cases out <;> rfl

/-- A pop that finds nothing has nothing to find. -/
theorem Wf.not_headsAll_of_pop (h : Wf L s) {order : List (Sigma fun _ : IntentID => ℕ)}
    (hord : order.Perm s.executeCandidates.entries)
    (hnone : (s.popNextScheduledIntent order).2 = none) :
    ¬ (s.popNextScheduledIntent order).1.HeadsAll i info := by
  have hpop := pop_popNextScheduledIntent hord
  generalize s.popNextScheduledIntent order = r at hpop hnone ⊢
  cases hpop with
  | none hno => exact fun hhd => hno i info (h.ready_of_heads hhd.blocked fun _ => hhd.heads)
  | some => cases hnone

end Scheduler

/-! ### Executors -/

section ExecutorStep

variable {e : Executor}

variable (h : ExecutorStep stop e.intent limits s e.phase phase limits' s')

include h

/-- **Permits are conserved.** -/
theorem ExecutorStep.permits :
    limits'.executors + (if ({ e with phase := phase } : Executor).isExecuting then 1 else 0) =
      limits.executors + if e.isExecuting then 1 else 0 := by
  obtain ⟨intent, before⟩ := e
  dsimp only at h
  cases h with
  | resume hperm =>
    change limits.executors - 1 + 1 = limits.executors + 0
    omega
  | _ => rfl

/-- An executor that changes the scheduler is finished, and one that is finished stays so. -/
theorem ExecutorStep.finishes :
    s' = s ∧ (e.isFinished → ({ e with phase := phase } : Executor).isFinished) ∨
      ({ e with phase := phase } : Executor).isFinished := by
  obtain ⟨intent, before⟩ := e
  dsimp only at h
  cases h with
  | complete | failed | finished | stopStarting | stopSleeping | stopWaking => exact .inr rfl
  | _ => exact .inl ⟨rfl, fun hfin => absurd hfin (by simp [Executor.isFinished])⟩

theorem ExecutorStep.wf (hwf : Wf L s) (hkeys : e.intent.getAllCommittedPubkeys.Nodup) :
    ∃ L', Wf L' s' ∧ L'.scheduled = L.scheduled := by
  obtain ⟨intent, before⟩ := e
  dsimp only at h hkeys
  cases h with
  | complete =>
    refine ⟨_, hwf.complete hkeys, ?_⟩
    cases (s.complete intent).2 <;> rfl
  | failed search =>
    refine ⟨_, hwf.failed search hkeys, ?_⟩
    cases (s.failed search intent).2 <;> rfl
  | _ => exact ⟨L, hwf, rfl⟩

end ExecutorStep

/-! ### The worker -/

/-- **The invariant of the worker.** -/
structure Attentive (es : List WorkerEvent) (w : IntentExecutor) : Prop where
  permits : w.limits.executors + w.runningExecutors.countP Executor.isExecuting = maxExecutors
  wf : ∃ L, Wf L w.scheduler ∧ L.scheduled ⊆ admitted es
  keys {e : Executor} (he : e ∈ w.runningExecutors) : e.intent.getAllCommittedPubkeys.Nodup
  held {b : OutboxIntentBundle} (hb : w.mainLoop = .holding b) : b.getAllCommittedPubkeys.Nodup
  drained (hloop : w.mainLoop.isRunning) {i : IntentID} {info : IntentMeta}
    (hhd : w.scheduler.HeadsAll i info) :
    w.schedulerNeedsDrain ∨ ∃ e ∈ w.runningExecutors, e.isFinished

theorem attentive_new : Attentive [] .new where
  permits := rfl
  wf := ⟨{}, Wf.start, List.Subset.refl _⟩
  keys he := absurd he List.not_mem_nil
  held hb := by cases hb
  drained _ _ _ hhd := by cases hhd.blocked

namespace Attentive

theorem mono (h : Attentive es w) (e : WorkerEvent) : Attentive (es ++ [e]) w := by
  obtain ⟨L, hwf, hsub⟩ := h.wf
  refine ⟨h.permits, ⟨L, hwf, fun b hb => ?_⟩, h.keys, h.held, h.drained⟩
  rw [admitted_concat]
  exact mem_append_left _ (hsub hb)

/-- A turn of the loop that only moves it. -/
theorem turn (h : Attentive es w) (hturn : Turn w next) :
    Attentive es { w with mainLoop := next } := by
  refine ⟨h.permits, h.wf, h.keys, fun hb => ?_, fun hloop _ _ => h.drained ?_⟩
  · cases hturn <;> cases hb
  · cases hturn with
    | count hold | check hold | dbError hold => rw [hold]; rfl
    | channelClosed | stopped | joined => cases hloop

/-- An executor without a permit leaves. -/
theorem permits_remove (h : Attentive es w)
    (he : w.runningExecutors = before ++ e :: after) (hidle : e.isExecuting = false) :
    w.limits.executors + (before ++ after).countP Executor.isExecuting = maxExecutors := by
  have hperms := h.permits
  rw [he, countP_append, List.countP_cons_of_neg (by simp [hidle])] at hperms
  rw [countP_append, hperms]

theorem keys_remove (h : Attentive es w)
    (he : w.runningExecutors = before ++ e :: after) (hc : c ∈ before ++ after) :
    c.intent.getAllCommittedPubkeys.Nodup := by
  refine h.keys ?_
  rw [he]
  exact mem_append.mpr ((mem_append.mp hc).imp_right (List.mem_cons_of_mem _))

/-- What was selected has distinct keys. -/
theorem held_ofSelected
    (hout : ∀ c ∈ out, c.getAllCommittedPubkeys.Nodup) (hb : MainLoop.ofSelected out = .holding b) :
    b.getAllCommittedPubkeys.Nodup := by
  cases out with
  | none => cases hb
  | some =>
    cases hb
    exact hout b rfl

variable (h : Attentive es w)

include h

theorem drain (hdrain : w.schedulerNeedsDrain)
    (hord : order.Perm w.scheduler.executeCandidates.entries) :
    Attentive es
      { w with
        scheduler := (w.scheduler.popNextScheduledIntent order).1
        schedulerNeedsDrain :=
          if (w.scheduler.popNextScheduledIntent order).2.isNone then false
          else w.schedulerNeedsDrain
        mainLoop := .ofSelected (w.scheduler.popNextScheduledIntent order).2 } := by
  obtain ⟨L, hwf, hsub⟩ := h.wf
  have hpop := hwf.pop hord
  refine ⟨h.permits, ⟨_, hpop, ?_⟩, h.keys, held_ofSelected fun _ => hpop.keys_of_handOut,
    fun _ i info hhd => ?_⟩
  · rwa [Ledger.scheduled_handOut]
  · cases hout : (w.scheduler.popNextScheduledIntent order).2 with
    | none => exact absurd hhd (hwf.not_headsAll_of_pop hord hout)
    | some => exact .inl hdrain

theorem receive (hloop : w.mainLoop = .selecting true) (hb : Deliverable es w.scheduler b) :
    Attentive (es ++ [.admitted b])
      { w with
        scheduler := (w.scheduler.schedule b).1
        mainLoop := .ofSelected (w.scheduler.schedule b).2 } := by
  have hbusy : w.mainLoop.isRunning := by
    rw [hloop]
    rfl
  by_cases hnil : b.getAllCommittedPubkeys = []
  · rw [IntentScheduler.schedule, if_pos (by simpa using hnil)]
    refine { h.mono (.admitted b) with held := ?_, drained := fun _ _ _ => h.drained hbusy }
    rintro _ ⟨⟩
    exact hb.keys
  rcases hb.id with hkeys | hdup | hfr
  · exact absurd hkeys hnil
  · rw [IntentScheduler.schedule, if_neg (by simpa using hnil), if_pos hdup]
    exact { h.mono (.admitted b) with
      held := nofun
      drained := fun _ _ _ => h.drained hbusy }
  · obtain ⟨L, hwf, hsub⟩ := h.wf
    have hnew : ∀ c ∈ L.scheduled, c.intentId ≠ b.intentId := fun c hc => hfr c (hsub hc)
    have hsch := hwf.schedule hb.keys hnew
    refine ⟨h.permits, ⟨_, hsch, ?_⟩, h.keys, held_ofSelected fun _ => hsch.keys_of_handOut,
      fun _ _ _ hhd => h.drained hbusy (hwf.headsAll_of_schedule hb.keys hnew hhd)⟩
    rw [Ledger.scheduled_handOut, admitted_concat]
    exact List.append_subset.mpr ⟨List.subset_append_of_subset_left _ hsub,
      List.subset_append_right ..⟩

theorem spawn (hloop : w.mainLoop = .holding b) (hperm : 0 < w.limits.executors) : Attentive es
      { w with
        runningExecutors := w.runningExecutors ++ [⟨b, .starting 1⟩]
        limits := { w.limits with executors := w.limits.executors - 1 }
        mainLoop := .top } := by
  have hbusy : w.mainLoop.isRunning := by
    rw [hloop]
    rfl
  have hperms := h.permits
  refine ⟨?_, h.wf, fun he => ?_, nofun, fun _ i info hhd => ?_⟩
  · rw [countP_append]
    change w.limits.executors - 1 + (w.runningExecutors.countP _ + 1) = _
    omega
  · rcases mem_append.mp he with he | he
    · exact h.keys he
    · rw [List.mem_singleton.mp he]
      exact h.held hloop
  · refine (h.drained hbusy hhd).imp_right ?_
    rintro ⟨e, he, hfin⟩
    exact ⟨e, mem_append_left _ he, hfin⟩

theorem executor (he : w.runningExecutors = before ++ e :: after)
    (hstep : ExecutorStep w.stop e.intent w.limits w.scheduler e.phase phase limits s) :
    Attentive es
      { w with
        scheduler := s
        runningExecutors := before ++ { e with phase := phase } :: after
        limits := limits } := by
  have hkeys := h.keys (he ▸ List.mem_append_cons_self)
  refine ⟨?_, ?_, fun hc => ?_, h.held, fun hloop i info hhd => ?_⟩
  · have hold := h.permits
    have hmove := hstep.permits
    rw [he] at hold
    simp only [countP_append, List.countP_cons] at hold ⊢
    omega
  · obtain ⟨L, hwf, hsub⟩ := h.wf
    obtain ⟨L', hwf', hL'⟩ := hstep.wf hwf hkeys
    exact ⟨L', hwf', hL' ▸ hsub⟩
  · rcases mem_append.mp hc with hc | hc
    · exact h.keys (he ▸ mem_append_left _ hc)
    · rcases mem_cons.mp hc with rfl | hc
      · exact hkeys
      · exact h.keys (he ▸ List.mem_append_right _ (List.mem_cons_of_mem _ hc))
  · rcases hstep.finishes with ⟨rfl, hstays⟩ | hfin
    · refine (h.drained hloop hhd).imp_right ?_
      rintro ⟨c, hc, hfin⟩
      rw [he] at hc
      rcases mem_append.mp hc with hc | hc
      · exact ⟨c, mem_append_left _ hc, hfin⟩
      · rcases mem_cons.mp hc with rfl | hc
        · exact ⟨_, List.mem_append_cons_self, hstays hfin⟩
        · exact ⟨c, List.mem_append_right _ (List.mem_cons_of_mem _ hc), hfin⟩
    · exact .inr ⟨_, List.mem_append_cons_self, hfin⟩

theorem step (hstep : WorkerStep es w e w') : Attentive (es ++ [e]) w' := by
  cases hstep with
  | turn hturn => exact (h.turn hturn).mono _
  | reap hloop he hph =>
    refine mono ?_ _
    refine ⟨h.permits_remove he ?_, h.wf, h.keys_remove he, nofun, fun _ _ _ _ => .inl rfl⟩
    rw [Executor.isExecuting, hph]
  | drain _ hdrain hord => exact (h.drain hdrain hord).mono _
  | notified hloop hnot =>
    refine mono ?_ _
    refine ⟨h.permits, h.wf, h.keys, nofun, fun _ _ _ => h.drained ?_⟩
    rw [hloop]
    rfl
  | receive hloop hb => exact h.receive hloop hb
  | spawn hloop hperm => exact (h.spawn hloop hperm).mono _
  | join hloop he hph =>
    refine mono ?_ _
    refine ⟨h.permits_remove he ?_, h.wf, h.keys_remove he, h.held, fun hbusy => ?_⟩
    · rw [Executor.isExecuting, hph]
    · rw [hloop] at hbusy
      cases hbusy
  | panicked _ he hph =>
    refine mono ?_ _
    refine ⟨h.permits_remove he ?_, h.wf, h.keys_remove he, nofun, nofun⟩
    rw [Executor.isExecuting, hph]
  | stop =>
    refine mono ?_ _
    exact ⟨h.permits, h.wf, h.keys, h.held, h.drained⟩
  | executor he hstep => exact (h.executor he hstep).mono _

end Attentive

theorem attentive_of_run (h : workerMachine.Run es w) : Attentive es w := by
  refine Machine.Run.invariant ?_ ?_ h
  · rintro _ rfl
    exact attentive_new
  · exact fun _ _ _ _ _ ih hstep => ih.step hstep

/-! ### A conflict -/

namespace WorkerExample

def first : OutboxIntentBundle := createTestIntentBundle 1 [1] []

/-- Waits for `first`. -/
def second : OutboxIntentBundle := createTestIntentBundle 2 [1] []

def scheduler : IntentScheduler := ((IntentScheduler.new.schedule first).1.schedule second).1

/-- `first` is being executed, and `second` is blocked. -/
def blocked (mainLoop : MainLoop) (phase : ExecutorPhase) : IntentExecutor :=
  ⟨scheduler, [⟨first, phase⟩], ⟨49, maxSleepingRetriers, false⟩, false, false, mainLoop⟩

/-- `first` is completed, and `second` heads its queue. -/
def completed (mainLoop : MainLoop) : IntentExecutor :=
  ⟨(scheduler.complete first).1, [⟨first, .reported⟩], ⟨49, maxSleepingRetriers, false⟩,
    false, false, mainLoop⟩

theorem headsAll_completed : (scheduler.complete first).1.HeadsAll 2 ⟨1, second⟩ where
  blocked := by decide
  heads hk := by
    rw [List.mem_singleton.mp hk]
    decide

theorem run_blocked : ∃ es, workerMachine.Run es (blocked (.selecting true) (.starting 1)) := by
  have hstart : workerMachine.Run [] .new := .start rfl
  have hspawn := hstart.next .mainLoop (.turn (.count rfl)) |>.next .mainLoop (.turn (.check rfl))
    |>.next (.admitted first) (.receive rfl ⟨by decide, by decide⟩)
    |>.next .mainLoop (@WorkerStep.spawn _ _ first (by decide) (by decide))
  have hsnd := hspawn.next .mainLoop (.turn (.count rfl))
    |>.next .mainLoop (.turn (.check rfl))
    |>.next (.admitted second) (.receive rfl ⟨by decide, by decide⟩)
    |>.next .mainLoop (.turn (.count rfl)) |>.next .mainLoop (.turn (.check rfl))
  exact ⟨_, hsnd⟩

/-- The only executor takes a step. -/
theorem run_executor (h : workerMachine.Run es w) (he : w.runningExecutors = [⟨intent, phase⟩])
    (hstep : ExecutorStep w.stop intent w.limits w.scheduler phase phase' limits s) :
    ∃ es, workerMachine.Run es
      { w with scheduler := s, runningExecutors := [⟨intent, phase'⟩], limits := limits } :=
  ⟨_, h.step (.executor (show w.runningExecutors = [] ++ ⟨intent, phase⟩ :: [] from he) hstep)⟩

theorem run_completed (h : workerMachine.Run es (blocked mainLoop (.starting 1))) :
    ∃ es, workerMachine.Run es (completed mainLoop) := by
  have hfinal : ExecutorStep false first ⟨49, maxSleepingRetriers, false⟩ scheduler (.running 1)
      (.reporting false) ⟨49, maxSleepingRetriers, false⟩ scheduler :=
    @ExecutorStep.finish _ _ _ _ 1 ⟨.ok ⟨none, 7⟩, {}, false⟩ (.inr (.inl rfl))
  obtain ⟨_, hbusy⟩ := run_executor h rfl .start
  obtain ⟨_, hrep⟩ := run_executor hbusy rfl hfinal
  exact run_executor hrep rfl .complete

end WorkerExample

/-- **No ready intent is missed, and permits are kept.**  While the main loop runs: if a blocked
intent heads all its queues, the scheduler is to be drained, or an executor that is done with its
intent has not been reaped.  At most `maxExecutors` intents execute outside of back-off, also when
the loop has ended. -/
theorem ready_not_missed {es : List WorkerEvent} {w : IntentExecutor} (h : workerMachine.Run es w) :
    (w.mainLoop.isRunning → (∃ i info, w.scheduler.blockedIntents.lookup i = some info ∧
        ∀ k ∈ info.intent.getAllCommittedPubkeys, (w.scheduler.queue k).head? = some i) →
      w.schedulerNeedsDrain ∨ ∃ e ∈ w.runningExecutors, e.isFinished) ∧
    w.runningExecutors.countP Executor.isExecuting ≤ maxExecutors := by
  have hatt := attentive_of_run h
  constructor
  · rintro hloop ⟨i, info, hblk, hhd⟩
    exact hatt.drained hloop ⟨hblk, hhd _⟩
  · have hperms := hatt.permits
    omega

open WorkerExample in
/-- The executor of `first` has told the scheduler, and `second` is ready. -/
theorem ready_not_missed_completed : ∃ es w, workerMachine.Run es w ∧ w.mainLoop.isRunning ∧
    w.scheduler.HeadsAll 2 ⟨1, second⟩ ∧
    (w.schedulerNeedsDrain ∨ ∃ e ∈ w.runningExecutors, e.isFinished) ∧
    w.runningExecutors.countP Executor.isExecuting ≤ maxExecutors := by
  obtain ⟨es, hblk⟩ := run_blocked
  obtain ⟨es, hrun⟩ := run_completed hblk
  obtain ⟨hready, hperms⟩ := ready_not_missed hrun
  refine ⟨es, _, hrun, rfl, headsAll_completed, hready rfl ?_, hperms⟩
  exact ⟨2, _, headsAll_completed.blocked, fun _ => headsAll_completed.heads⟩

open WorkerExample in
/-- **After the loop, nothing is drained.**  The channel is closed while `first` executes; when its
executor has been joined, `second` is ready, and neither the flag nor an executor tells. -/
theorem ready_missed_after_close : ∃ es w, workerMachine.Run es w ∧
    w.scheduler.HeadsAll 2 ⟨1, second⟩ ∧ w.schedulerNeedsDrain = false ∧
    w.runningExecutors = [] := by
  obtain ⟨es, hblk⟩ := run_blocked
  obtain ⟨es, hrun⟩ := run_completed (hblk.step (.turn (.channelClosed rfl)))
  obtain ⟨es, hret⟩ := run_executor hrun rfl .finished
  have hjoin := hret.step (.join rfl (show _ = [] ++ ⟨first, .returned⟩ :: [] from rfl) rfl)
  exact ⟨_, _, hjoin, headsAll_completed, rfl, rfl⟩

end Magicblock
